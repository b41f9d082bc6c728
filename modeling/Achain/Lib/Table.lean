import Mathlib.Data.Finmap
import Mathlib.Algebra.BigOperators.Group.Finset.Basic
import Mathlib.Data.Finset.Sort
import Mathlib.Tactic.Abel

/-!
# Tables and overlays

A table is a finite map. An overlay keeps the entries stored and the keys removed on top of a
table it only reads, and is later written into it. What a valuation of the entries sums to over
the written table is the sum over the table read plus the `delta` of the overlay, and the delta
changes with one stored or removed entry by the difference at its key.
-/

namespace Table

/-- A map whose entries are kept in some order of iteration. -/
abbrev Map (K V : Type) := AList fun _ : K => V

/-- A table. -/
abbrev Tab (K V : Type) := Finmap fun _ : K => V

variable {K V M : Type}

section Unchanged

variable [DecidableEq K] {t : Tab K V} {k k' : K} {v v' : V}

theorem lookup_eq_of_insert_eq (h : t.insert k v' = t) (hv : t.lookup k = some v) : v' = v := by
  rw [← h, Finmap.lookup_insert] at hv
  exact Option.some.inj hv

theorem insert_lookup_self (hv : t.lookup k = some v) : t.insert k v = t := by
  refine Finmap.ext_lookup fun k' => ?_
  by_cases hk : k' = k
  · rw [hk, Finmap.lookup_insert, hv]
  · rw [Finmap.lookup_insert_of_ne _ hk]

theorem erase_eq_self_iff : t.erase k = t ↔ k ∉ t := by
  constructor
  · intro h hk
    rw [← h] at hk
    exact Finmap.notMem_erase_self hk
  · intro hk
    refine Finmap.ext_lookup fun k' => ?_
    by_cases hk' : k' = k
    · rw [hk', Finmap.lookup_erase, Finmap.lookup_eq_none.2 hk]
    · rw [Finmap.lookup_erase_ne hk']

theorem lookup_insert_eq_some (h : (t.insert k v).lookup k' = some v') :
    k' = k ∧ v' = v ∨ k' ≠ k ∧ t.lookup k' = some v' := by
  by_cases hk : k' = k
  · rw [hk, Finmap.lookup_insert, Option.some.injEq] at h
    exact .inl ⟨hk, h.symm⟩
  · rw [Finmap.lookup_insert_of_ne _ hk] at h
    exact .inr ⟨hk, h⟩

end Unchanged

section Without

variable [DecidableEq K] {t t' t'' : Tab K V} {S S' : K → Prop} {k : K} {v : V}

/-- A table that has lost its entries at some keys, and those only. -/
def Without (S : K → Prop) (t t' : Tab K V) : Prop :=
  ∀ k, (S k → t'.lookup k = none) ∧ (¬ S k → t'.lookup k = t.lookup k)

namespace Without

theorem refl : Without (fun _ => False) t t := fun _ => ⟨False.elim, fun _ => rfl⟩

theorem erase : Without (· = k) t (t.erase k) := by
  refine fun k' => ⟨?_, fun hk => Finmap.lookup_erase_ne hk⟩
  rintro rfl
  exact Finmap.lookup_erase _ _

theorem trans (h : Without S t t') (h' : Without S' t' t'') : Without (fun k => S k ∨ S' k) t t'' := by
  intro k
  by_cases hk' : S' k
  · exact ⟨fun _ => (h' k).1 hk', fun hnot => absurd (.inr hk') hnot⟩
  · refine ⟨fun hk => ?_, fun hnot => ?_⟩
    · rw [(h' k).2 hk', (h k).1 (hk.resolve_right hk')]
    · rw [(h' k).2 hk', (h k).2 fun hk => hnot (.inl hk)]

theorem congr (h : Without S t t') (hS : ∀ k, S k ↔ S' k) : Without S' t t' :=
  fun k => ⟨fun hk => (h k).1 ((hS k).2 hk), fun hk => (h k).2 fun hS' => hk ((hS k).1 hS')⟩

theorem lookup_eq_some_iff (h : Without S t t') : t'.lookup k = some v ↔ ¬ S k ∧ t.lookup k = some v := by
  by_cases hk : S k
  · simp [(h k).1 hk, hk]
  · simp [(h k).2 hk, hk]

end Without

theorem without_foldl_erase {A : Type} (f : A → K) : ∀ (l : List A) (t : Tab K V),
    Without (fun k => ∃ a ∈ l, f a = k) t (l.foldl (fun t a => t.erase (f a)) t)
  | [], _ => Without.refl.congr (by simp)
  | a :: l, t => by
    rw [List.foldl_cons]
    refine (Without.erase.trans (without_foldl_erase f l (t.erase (f a)))).congr fun k => ?_
    rw [List.exists_mem_cons_iff, eq_comm]

end Without

section Value

variable [AddCommGroup M]

/-- The value of an entry that may be missing. -/
def val (f : V → M) : Option V → M
  | none => 0
  | some v => f v

@[simp] theorem val_none (f : V → M) : val f none = 0 := rfl

@[simp] theorem val_some (f : V → M) (v : V) : val f (some v) = f v := rfl

variable [DecidableEq K]

/-- The sum of the values of a table's entries. -/
def total (f : V → M) (t : Tab K V) : M := ∑ k ∈ t.keys, val f (t.lookup k)

theorem total_eq_sum (f : V → M) (t : Tab K V) {S : Finset K} (hS : t.keys ⊆ S) :
    total f t = ∑ k ∈ S, val f (t.lookup k) := by
  refine Finset.sum_subset hS ?_
  intro k _ hk
  rw [Finmap.mem_keys, ← Finmap.lookup_eq_none] at hk
  rw [hk, val_none]

@[simp] theorem total_empty (f : V → M) : total f (∅ : Tab K V) = 0 := by
  simp [total]

theorem total_eq_zero (f : V → M) (t : Tab K V) (h : ∀ k v, t.lookup k = some v → f v = 0) :
    total f t = 0 := by
  refine Finset.sum_eq_zero fun k _ => ?_
  cases hk : t.lookup k with
  | none => rfl
  | some v => exact h k v hk

/-- Tables whose values differ by `d` at each key differ in total by what `d` sums to. -/
theorem total_of_val (f : V → M) {t t' : Tab K V} {d : K → M} {S : Finset K}
    (h : ∀ k, val f (t'.lookup k) = val f (t.lookup k) + d k) (hd : ∀ k ∉ S, d k = 0) :
    total f t' = total f t + ∑ k ∈ S, d k := by
  have hU : ∀ u : Tab K V, u = t ∨ u = t' → u.keys ⊆ t.keys ∪ t'.keys ∪ S := by
    rintro u (rfl | rfl) k hk
    · exact Finset.mem_union_left _ (Finset.mem_union_left _ hk)
    · exact Finset.mem_union_left _ (Finset.mem_union_right _ hk)
  rw [total_eq_sum f t (hU t (.inl rfl)), total_eq_sum f t' (hU t' (.inr rfl))]
  have hS : ∑ k ∈ S, d k = ∑ k ∈ t.keys ∪ t'.keys ∪ S, d k :=
    Finset.sum_subset Finset.subset_union_right fun k _ => hd k
  rw [hS, ← Finset.sum_add_distrib]
  exact Finset.sum_congr rfl fun k _ => h k

/-- Two tables that agree off `S` differ in total by the differences at the keys of `S`. -/
theorem total_sub_total (f : V → M) {t t' : Tab K V} {S : Finset K}
    (h : ∀ k ∉ S, t'.lookup k = t.lookup k) :
    total f t' = total f t + ∑ k ∈ S, (val f (t'.lookup k) - val f (t.lookup k)) := by
  refine total_of_val f (fun k => ?_) fun k hk => ?_
  · abel
  · rw [h k hk, sub_self]

theorem total_insert (f : V → M) (t : Tab K V) (k : K) (v : V) :
    total f (t.insert k v) = total f t + (f v - val f (t.lookup k)) := by
  rw [total_sub_total f (t := t) (S := {k})]
  · simp
  · intro k' hk'
    exact Finmap.lookup_insert_of_ne _ (by simpa using hk')

end Value

/-- Entries stored and keys removed over a table. A stored key is never in the removed set. -/
structure Overlay (K V : Type) [DecidableEq K] where
  stored : Map K V
  removed : List K
  removed_nodup : removed.Nodup
  removed_fresh : ∀ k ∈ removed, k ∉ stored

namespace Overlay

variable [DecidableEq K]

def empty : Overlay K V := ⟨∅, [], List.nodup_nil, by simp⟩

instance : EmptyCollection (Overlay K V) := ⟨empty⟩

/-- What is read through the overlay: a stored entry, else nothing for a removed key, else the
entry below. -/
def lookup (o : Overlay K V) (base : K → Option V) (k : K) : Option V :=
  match o.stored.lookup k with
  | some v => some v
  | none => if k ∈ o.removed then none else base k

def insert (o : Overlay K V) (k : K) (v : V) : Overlay K V where
  stored := o.stored.insert k v
  removed := o.removed.filter (· ≠ k)
  removed_nodup := o.removed_nodup.filter _
  removed_fresh := by
    intro k' hk'
    rw [List.mem_filter] at hk'
    rw [AList.mem_insert, not_or]
    exact ⟨by simpa using hk'.2, o.removed_fresh k' hk'.1⟩

def erase (o : Overlay K V) (k : K) : Overlay K V where
  stored := o.stored.erase k
  removed := o.removed.insert k
  removed_nodup := o.removed_nodup.insert
  removed_fresh := by
    intro k' hk'
    rw [List.mem_insert_iff] at hk'
    rw [AList.mem_erase, not_and']
    intro h hne
    exact hk'.elim hne fun e => o.removed_fresh _ e h

/-- The keys at which the overlay can differ from what is below it. -/
def keys (o : Overlay K V) : Finset K := o.stored.keys.toFinset ∪ o.removed.toFinset

variable {o : Overlay K V} {base : K → Option V} {k k' : K} {v : V}

@[simp] theorem lookup_empty : (∅ : Overlay K V).lookup base k = base k := rfl

theorem mem_keys : k ∈ o.keys ↔ k ∈ o.stored ∨ k ∈ o.removed := by
  simp [keys, AList.mem_keys]

theorem lookup_of_notMem (h : k ∉ o.keys) : o.lookup base k = base k := by
  rw [mem_keys, not_or] at h
  rw [lookup, AList.lookup_eq_none.2 h.1]
  simp [h.2]

theorem lookup_of_removed (h : k ∈ o.removed) : o.lookup base k = none := by
  rw [lookup, AList.lookup_eq_none.2 (o.removed_fresh k h)]
  simp [h]

theorem lookup_of_stored (h : o.stored.lookup k = some v) : o.lookup base k = some v := by
  rw [lookup, h]

theorem lookup_insert : (o.insert k v).lookup base k' = if k' = k then some v
    else o.lookup base k' := by
  by_cases h : k' = k
  · subst h
    simp [lookup, insert]
  · simp [lookup, insert, AList.lookup_insert_ne h, h]

@[simp] theorem lookup_insert_self : (o.insert k v).lookup base k = some v := by
  simp [lookup_insert]

theorem lookup_insert_ne (h : k' ≠ k) : (o.insert k v).lookup base k' = o.lookup base k' := by
  simp [lookup_insert, h]

theorem lookup_erase : (o.erase k).lookup base k' = if k' = k then none
    else o.lookup base k' := by
  by_cases h : k' = k
  · subst h
    simp [lookup, erase]
  · simp [lookup, erase, AList.lookup_erase_ne h, h]

/-- An overlay through which every table reads as it is holds nothing. -/
theorem eq_empty [Nonempty V] (h : ∀ (t : Tab K V) (k : K), o.lookup t.lookup k = t.lookup k) :
    o = ∅ := by
  have hstored : o.stored = ∅ := by
    refine AList.ext (List.eq_nil_iff_forall_not_mem.2 fun e he => ?_)
    have hlookup : o.stored.lookup e.1 = some e.2 := AList.mem_lookup_iff.2 he
    have hempty := h ∅ e.1
    rw [lookup_of_stored hlookup] at hempty
    simp at hempty
  have hremoved : o.removed = [] := by
    refine List.eq_nil_iff_forall_not_mem.2 fun k hk => ?_
    obtain ⟨v⟩ := ‹Nonempty V›
    have hread := h (Finmap.singleton k v) k
    rw [lookup_of_removed hk] at hread
    simp at hread
  obtain ⟨stored, removed, hnodup, hfresh⟩ := o
  subst hstored hremoved
  rfl

theorem insert_insert {v' : V} : (o.insert k v).insert k v' = o.insert k v' := by
  simp only [insert, AList.insert_insert, List.filter_filter, Bool.and_self]

theorem keys_insert : (o.insert k v).keys = Insert.insert k o.keys := by
  ext k'
  simp only [mem_keys, insert, AList.mem_insert, List.mem_filter, Finset.mem_insert,
    decide_not, Bool.not_eq_true', decide_eq_false_iff_not]
  by_cases h : k' = k <;> simp [h]

section Delta

variable [AddCommGroup M] (f : V → M)

/-- By how much the entries read through the overlay exceed in value those below it. -/
def delta (o : Overlay K V) (base : K → Option V) : M :=
  ∑ k ∈ o.keys, (val f (o.lookup base k) - val f (base k))

theorem delta_eq_sum {S : Finset K} (hS : o.keys ⊆ S) :
    delta f o base = ∑ k ∈ S, (val f (o.lookup base k) - val f (base k)) := by
  refine Finset.sum_subset hS ?_
  intro k _ hk
  rw [lookup_of_notMem hk, sub_self]

/-- Changing what is read at one key changes the delta by the difference there. -/
theorem delta_of_lookup_eq {o' : Overlay K V} (hk : o'.keys = Insert.insert k o.keys)
    (hne : ∀ k' ≠ k, o'.lookup base k' = o.lookup base k') :
    delta f o' base = delta f o base + (val f (o'.lookup base k) - val f (o.lookup base k)) := by
  rw [delta, hk, delta_eq_sum f (Finset.subset_insert k o.keys)]
  rw [← Finset.add_sum_erase _ _ (Finset.mem_insert_self k o.keys),
    ← Finset.add_sum_erase _ (fun i => val f (o.lookup base i) - val f (base i))
      (Finset.mem_insert_self k o.keys)]
  have h : ∑ i ∈ (Insert.insert k o.keys).erase k, (val f (o'.lookup base i) - val f (base i))
      = ∑ i ∈ (Insert.insert k o.keys).erase k, (val f (o.lookup base i) - val f (base i)) := by
    refine Finset.sum_congr rfl fun i hi => ?_
    rw [hne i (Finset.ne_of_mem_erase hi)]
  rw [h]
  abel

theorem delta_insert :
    delta f (o.insert k v) base = delta f o base + (f v - val f (o.lookup base k)) := by
  rw [delta_of_lookup_eq f keys_insert fun k' h => lookup_insert_ne h, lookup_insert_self, val_some]

/-- A table that reads as the overlay does holds the overlay's delta more than the table below. -/
theorem total_of_lookup {t t' : Tab K V} (h : ∀ k, t'.lookup k = o.lookup t.lookup k) :
    total f t' = total f t + delta f o t.lookup := by
  rw [total_sub_total f (t := t) (S := o.keys), delta]
  · simp only [h]
  · intro k hk
    rw [h, lookup_of_notMem hk]

end Delta

end Overlay

/-! ## In the order of the keys -/

section Sorted

variable {A B : Type}

theorem findSome?_filter_of_none {f : A → Option B} {p : A → Bool} :
    ∀ {l : List A}, (∀ a ∈ l, p a = false → f a = none) → (l.filter p).findSome? f = l.findSome? f
  | [], _ => rfl
  | a :: l, h => by
    have ih := findSome?_filter_of_none fun b hb => h b (List.mem_cons_of_mem _ hb)
    cases hp : p a with
    | true => rw [List.filter_cons_of_pos hp, List.findSome?_cons, List.findSome?_cons, ih]
    | false =>
      rw [List.filter_cons_of_neg (by simp [hp]), List.findSome?_cons, h a (List.mem_cons_self ..) hp, ih]

variable [LinearOrder A] {s t : Finset A}

theorem sort_eq_filter (h : s ⊆ t) : s.sort = t.sort.filter (· ∈ s) := by
  refine List.Perm.eq_of_pairwise (fun (a b : A) _ _ (hab : a ≤ b) hba => le_antisymm hab hba)
    (Finset.pairwise_sort s _) ((Finset.pairwise_sort t _).filter _) ?_
  refine (List.perm_ext_iff_of_nodup (Finset.sort_nodup s _) ((Finset.sort_nodup t _).filter _)).2 fun a => ?_
  simp only [Finset.mem_sort, List.mem_filter, decide_eq_true_eq]
  exact ⟨fun ha => ⟨h ha, ha⟩, fun ha => ha.2⟩

/-- The first value found in the order of a set does not depend on elements without one. -/
theorem findSome?_sort_congr {f : A → Option B} (hs : ∀ a ∉ s, f a = none) (ht : ∀ a ∉ t, f a = none) :
    s.sort.findSome? f = t.sort.findSome? f := by
  have hunion : ∀ {u : Finset A}, u ⊆ s ∪ t → (∀ a ∉ u, f a = none) →
      u.sort.findSome? f = (s ∪ t).sort.findSome? f := by
    intro u hu hnone
    rw [sort_eq_filter hu]
    exact findSome?_filter_of_none fun a _ ha => hnone a (by simpa using ha)
  rw [hunion Finset.subset_union_left hs, hunion Finset.subset_union_right ht]

end Sorted

end Table
