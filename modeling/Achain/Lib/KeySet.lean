import Mathlib.Order.Basic
import Mathlib.Order.Defs.LinearOrder
import Mathlib.Order.Lattice
import Mathlib.Data.List.Perm.Basic
import Mathlib.Data.List.Nodup
import Mathlib.Data.List.Pairwise
import Mathlib.Data.List.TakeWhile

/-!
# Sets in the order of a key

Values kept in the order of a key that they have: a set, in which a value keeps out another with its key,
and a multiset. Inserting is the value added up to the order, and what is not below a key is a filter.
-/

namespace ByKey

variable {α K : Type} [LinearOrder K]

/-- The values that have at least a key, of those in the order of their keys. -/
theorem dropWhile_eq_filter {key : α → K} {l : List α} (k : K)
    (h : l.Pairwise fun a b => key a ≤ key b) :
    l.dropWhile (fun a => decide (key a < k)) = l.filter fun a => decide (k ≤ key a) := by
  induction l with
  | nil => rfl
  | cons a l ih =>
    rw [List.pairwise_cons] at h
    by_cases ha : key a < k
    · rw [List.dropWhile_cons, if_pos (decide_eq_true ha), ih h.2, List.filter_cons,
        if_neg (by simpa using ha)]
    · have hall : ∀ b ∈ a :: l, decide (k ≤ key b) = true := by
        intro b hb
        refine decide_eq_true ((not_lt.1 ha).trans ?_)
        obtain rfl | hb := List.mem_cons.1 hb
        · exact le_rfl
        · exact h.1 b hb
      rw [List.dropWhile_cons, if_neg (by simpa using ha), List.filter_eq_self.2 hall]

/-- A set with at most one value for a key. -/
structure KeySet (key : α → K) where
  entries : List α
  sorted : entries.Pairwise fun a b => key a < key b

namespace KeySet

variable {key : α → K}

def empty : KeySet key := ⟨[], .nil⟩

def insertIn (key : α → K) (a : α) : List α → List α
  | [] => [a]
  | b :: l =>
    if key a < key b then a :: b :: l
    else if key a = key b then b :: l
    else b :: insertIn key a l

theorem mem_insertIn {a b : α} {l : List α} (h : b ∈ insertIn key a l) : b = a ∨ b ∈ l := by
  induction l with
  | nil => exact .inl (List.mem_singleton.1 h)
  | cons c l ih =>
    rw [insertIn] at h
    split_ifs at h
    · exact List.mem_cons.1 h
    · exact .inr h
    · obtain rfl | h := List.mem_cons.1 h
      · exact .inr List.mem_cons_self
      · exact (ih h).imp_right (List.mem_cons_of_mem _)

theorem sorted_insertIn {a : α} {l : List α} (h : l.Pairwise fun a b => key a < key b) :
    (insertIn key a l).Pairwise fun a b => key a < key b := by
  induction l with
  | nil => exact List.pairwise_singleton _ _
  | cons c l ih =>
    have hc := List.pairwise_cons.1 h
    rw [insertIn]
    split_ifs with hlt heq
    · refine .cons (fun b hb => ?_) h
      obtain rfl | hb := List.mem_cons.1 hb
      · exact hlt
      · exact hlt.trans (hc.1 b hb)
    · exact h
    · refine .cons (fun b hb => ?_) (ih hc.2)
      obtain rfl | hb := mem_insertIn hb
      · exact lt_of_le_of_ne (not_lt.1 hlt) (Ne.symm heq)
      · exact hc.1 b hb

/-- A value is inserted unless there is one with its key. -/
def insert (a : α) (s : KeySet key) : KeySet key := ⟨insertIn key a s.entries, sorted_insertIn s.sorted⟩

/-- The value with a key is erased. -/
def erase (k : K) (s : KeySet key) : KeySet key :=
  ⟨s.entries.filter fun a => decide (key a ≠ k), s.sorted.filter _⟩

/-- The values from the first on that is not below a key. -/
def lowerBound (k : K) (s : KeySet key) : List α := s.entries.dropWhile fun a => decide (key a < k)

variable {s : KeySet key} {a : α} {k : K}

theorem insert_of_mem (h : ∃ b ∈ s.entries, key b = key a) : (s.insert a).entries = s.entries := by
  obtain ⟨entries, sorted⟩ := s
  change insertIn key a entries = entries
  induction entries with
  | nil => simp at h
  | cons c l ih =>
    have hc := List.pairwise_cons.1 sorted
    obtain ⟨b, hb, hkey⟩ := h
    rw [insertIn]
    obtain rfl | hb := List.mem_cons.1 hb
    · rw [if_neg hkey.not_gt, if_pos hkey.symm]
    · have hlt : key c < key a := hkey ▸ hc.1 b hb
      rw [if_neg hlt.not_gt, if_neg hlt.ne', ih hc.2 ⟨b, hb, hkey⟩]

theorem insert_perm (h : ∀ b ∈ s.entries, key b ≠ key a) :
    (s.insert a).entries.Perm (a :: s.entries) := by
  obtain ⟨entries, sorted⟩ := s
  change (insertIn key a entries).Perm (a :: entries)
  induction entries with
  | nil => exact .refl _
  | cons c l ih =>
    rw [List.forall_mem_cons] at h
    rw [insertIn, if_neg (Ne.symm h.1)]
    split_ifs
    · exact .refl _
    · exact ((ih (List.pairwise_cons.1 sorted).2 h.2).cons c).trans (.swap a c l)

theorem lowerBound_eq : s.lowerBound k = s.entries.filter fun a => decide (k ≤ key a) :=
  dropWhile_eq_filter k (s.sorted.imp le_of_lt)

theorem mem_insert {b : α} :
    b ∈ (s.insert a).entries ↔ b ∈ s.entries ∨ b = a ∧ ∀ c ∈ s.entries, key c ≠ key a := by
  by_cases h : ∃ c ∈ s.entries, key c = key a
  · rw [insert_of_mem h]
    obtain ⟨c, hc, hkey⟩ := h
    exact ⟨.inl, fun h => h.elim id fun h => absurd hkey (h.2 c hc)⟩
  · push Not at h
    rw [(insert_perm h).mem_iff, List.mem_cons, or_comm]
    exact or_congr_right ⟨fun hb => ⟨hb, h⟩, And.left⟩

theorem length_insert_le : (s.insert a).entries.length ≤ s.entries.length + 1 := by
  by_cases h : ∃ c ∈ s.entries, key c = key a
  · rw [insert_of_mem h]
    exact Nat.le_succ _
  · push Not at h
    rw [(insert_perm h).length_eq, List.length_cons]

/-- A set is known by what is in it. -/
theorem ext_mem {t : KeySet key} (h : ∀ a, a ∈ s.entries ↔ a ∈ t.entries) : s = t := by
  obtain ⟨l, hl⟩ := s
  obtain ⟨m, hm⟩ := t
  have hnodup : ∀ {l : List α}, (l.Pairwise fun a b => key a < key b) → l.Nodup := by
    intro l hl
    refine hl.imp ?_
    rintro a _ hab rfl
    exact hab.false
  have hperm : l.Perm m := (List.perm_ext_iff_of_nodup (hnodup hl) (hnodup hm)).2 h
  obtain rfl := hperm.eq_of_pairwise (fun a b _ _ hab hba => absurd hba hab.not_gt) hl hm
  rfl

/-- The set of the values of a list. -/
def ofList (key : α → K) (l : List α) : KeySet key := l.foldl (fun s a => s.insert a) .empty

theorem mem_foldl_insert {b : α} :
    ∀ {l : List α} {s : KeySet key}, (∀ a ∈ s.entries ++ l, ∀ b ∈ s.entries ++ l, key a = key b → a = b) →
      (b ∈ (l.foldl (fun s a => s.insert a) s).entries ↔ b ∈ s.entries ∨ b ∈ l) := by
  intro l
  induction l with
  | nil => simp
  | cons a l ih =>
    intro s h
    have hmem : ∀ b, b ∈ (s.insert a).entries ↔ b ∈ s.entries ∨ b = a := by
      intro b
      rw [mem_insert]
      refine ⟨.imp_right And.left, ?_⟩
      rintro (hb | rfl)
      · exact .inl hb
      by_cases hs : ∃ c ∈ s.entries, key c = key b
      · obtain ⟨c, hc, hkey⟩ := hs
        exact .inl (h c (by simp [hc]) b (by simp) hkey ▸ hc)
      · push Not at hs
        exact .inr ⟨rfl, hs⟩
    have hsub : ∀ c ∈ (s.insert a).entries ++ l, c ∈ s.entries ++ a :: l := by
      intro c hc
      rw [List.mem_append, hmem] at hc
      rw [List.mem_append, List.mem_cons]
      tauto
    rw [List.foldl_cons, ih fun c hc d hd => h c (hsub c hc) d (hsub d hd), hmem, List.mem_cons,
      or_assoc]

/-- The list and the set have the same values where a key has one value. -/
theorem mem_ofList {b : α} {l : List α} (h : ∀ a ∈ l, ∀ b ∈ l, key a = key b → a = b) :
    b ∈ (ofList key l).entries ↔ b ∈ l :=
  (mem_foldl_insert h).trans (by simp [empty])

theorem key_inj (s : KeySet key) : ∀ a ∈ s.entries, ∀ b ∈ s.entries, key a = key b → a = b := by
  have hnodup : (s.entries.map key).Nodup := List.pairwise_map.2 (s.sorted.imp LT.lt.ne)
  exact fun a ha b hb => List.inj_on_of_nodup_map hnodup ha hb

theorem ofList_entries (s : KeySet key) : ofList key s.entries = s :=
  ext_mem fun _ => mem_ofList s.key_inj

theorem mem_of_mem_ofList {b : α} {l : List α} (h : b ∈ (ofList key l).entries) : b ∈ l := by
  have hgen : ∀ {l : List α} {s : KeySet key}, b ∈ (l.foldl (fun s a => s.insert a) s).entries →
      b ∈ s.entries ∨ b ∈ l := by
    intro l
    induction l with
    | nil => exact .inl
    | cons a l ih =>
      intro s hb
      obtain hb | hb := ih hb
      · exact (mem_insert.1 hb).imp_right fun h => List.mem_cons.2 (.inl h.1)
      · exact .inr (List.mem_cons_of_mem _ hb)
  exact (hgen h).resolve_left List.not_mem_nil

theorem length_ofList_le {l : List α} : (ofList key l).entries.length ≤ l.length := by
  have hgen : ∀ {l : List α} {s : KeySet key},
      (l.foldl (fun s a => s.insert a) s).entries.length ≤ s.entries.length + l.length := by
    intro l
    induction l with
    | nil => exact le_rfl
    | cons a l ih =>
      intro s
      have hstep := s.length_insert_le (a := a)
      have hrest := ih (s := s.insert a)
      rw [List.foldl_cons, List.length_cons]
      omega
  exact hgen.trans (by simp [empty])

end KeySet

/-- A multiset. -/
@[ext] structure KeyMultiset (key : α → K) where
  entries : List α
  sorted : entries.Pairwise fun a b => key a ≤ key b

namespace KeyMultiset

variable {key : α → K}

def empty : KeyMultiset key := ⟨[], .nil⟩

def insertIn (key : α → K) (a : α) : List α → List α
  | [] => [a]
  | b :: l => if key a < key b then a :: b :: l else b :: insertIn key a l

theorem insertIn_perm (a : α) (l : List α) : (insertIn key a l).Perm (a :: l) := by
  induction l with
  | nil => exact .refl _
  | cons b l ih =>
    rw [insertIn]
    split_ifs
    · exact .refl _
    · exact (ih.cons b).trans (.swap a b l)

theorem sorted_insertIn {a : α} {l : List α} (h : l.Pairwise fun a b => key a ≤ key b) :
    (insertIn key a l).Pairwise fun a b => key a ≤ key b := by
  induction l with
  | nil => exact List.pairwise_singleton _ _
  | cons b l ih =>
    have hb := List.pairwise_cons.1 h
    rw [insertIn]
    split_ifs with hlt
    · refine .cons (fun c hc => ?_) h
      obtain rfl | hc := List.mem_cons.1 hc
      · exact hlt.le
      · exact hlt.le.trans (hb.1 c hc)
    · refine .cons (fun c hc => ?_) (ih hb.2)
      obtain rfl | hc := List.mem_cons.1 ((insertIn_perm a l).mem_iff.1 hc)
      · exact not_lt.1 hlt
      · exact hb.1 c hc

/-- A value is inserted behind those with its key. -/
def insert (a : α) (s : KeyMultiset key) : KeyMultiset key :=
  ⟨insertIn key a s.entries, sorted_insertIn s.sorted⟩

theorem insert_perm (a : α) (s : KeyMultiset key) : (s.insert a).entries.Perm (a :: s.entries) :=
  insertIn_perm a s.entries

/-- Erases what has a property, up to the first value with another key. -/
def eraseRun (key : α → K) (k : K) (p : α → Bool) : List α → List α
  | [] => []
  | a :: l =>
    if key a ≠ k then a :: l
    else if p a then eraseRun key k p l
    else a :: eraseRun key k p l

theorem eraseRun_sublist (k : K) (p : α → Bool) (l : List α) : (eraseRun key k p l).Sublist l := by
  induction l with
  | nil => exact .slnil
  | cons a l ih =>
    rw [eraseRun]
    split_ifs
    · exact .refl _
    · exact ih.cons a
    · exact ih.cons_cons a

/-- The values with a key and a property are erased, from the first on that is not below the key. -/
def erase (k : K) (p : α → Bool) (s : KeyMultiset key) : KeyMultiset key where
  entries := s.entries.takeWhile (fun a => decide (key a < k)) ++
    eraseRun key k p (s.entries.dropWhile fun a => decide (key a < k))
  sorted := by
    have h := s.sorted
    rw [← List.takeWhile_append_dropWhile (p := fun a => decide (key a < k)) (l := s.entries)] at h
    exact h.sublist ((eraseRun_sublist k p _).append_left _)

theorem eraseRun_eq_filter {k : K} {p : α → Bool} {l : List α}
    (h : l.Pairwise fun a b => key a ≤ key b) (hk : ∀ a ∈ l, k ≤ key a) :
    eraseRun key k p l = l.filter fun a => !(decide (key a = k) && p a) := by
  induction l with
  | nil => rfl
  | cons a l ih =>
    have ha := List.pairwise_cons.1 h
    rw [List.forall_mem_cons] at hk
    rw [eraseRun, List.filter_cons]
    by_cases hkey : key a = k
    · rw [if_neg (by simpa using hkey), ih ha.2 hk.2]
      by_cases hp : p a = true <;> simp [hkey, hp]
    · have hbehind : ∀ b ∈ l, (!(decide (key b = k) && p b)) = true := by
        intro b hb
        have hlt : k < key b := (lt_of_le_of_ne hk.1 (Ne.symm hkey)).trans_le (ha.1 b hb)
        simp [hlt.ne']
      rw [if_pos hkey, List.filter_eq_self.2 hbehind]
      simp [hkey]

theorem erase_entries (k : K) (p : α → Bool) (s : KeyMultiset key) :
    (s.erase k p).entries = s.entries.filter fun a => !(decide (key a = k) && p a) := by
  have hfront : ∀ a ∈ s.entries.takeWhile (fun a => decide (key a < k)),
      (!(decide (key a = k) && p a)) = true := by
    intro a ha
    have hlt : key a < k := by simpa using List.mem_takeWhile_imp ha
    simp [hlt.ne]
  have hback : ∀ a ∈ s.entries.dropWhile (fun a => decide (key a < k)), k ≤ key a := by
    intro a ha
    rw [dropWhile_eq_filter k s.sorted, List.mem_filter] at ha
    exact of_decide_eq_true ha.2
  have hsorted := s.sorted.sublist
    (List.dropWhile_sublist (p := fun a => decide (key a < k)) (l := s.entries))
  change s.entries.takeWhile (fun a => decide (key a < k)) ++ _ = _
  rw [eraseRun_eq_filter hsorted hback]
  conv_rhs => rw [← List.takeWhile_append_dropWhile (p := fun a => decide (key a < k))
    (l := s.entries), List.filter_append, List.filter_eq_self.2 hfront]

/-- A value between two lists in order: it stays there when it is in order with its neighbours. -/
def placeIn (key : α → K) (front : List α) (a : α) (back : List α) : List α :=
  if (∀ b ∈ front.getLast?, key b ≤ key a) ∧ ∀ b ∈ back.head?, key a ≤ key b then front ++ a :: back
  else insertIn key a (front ++ back)

theorem placeIn_perm (front : List α) (a : α) (back : List α) :
    (placeIn key front a back).Perm (a :: (front ++ back)) := by
  rw [placeIn]
  split_ifs
  · exact List.perm_middle
  · exact insertIn_perm a _

theorem le_of_le_getLast? {l : List α} {k : K} (h : l.Pairwise fun a b => key a ≤ key b)
    (hlast : ∀ b ∈ l.getLast?, key b ≤ k) : ∀ b ∈ l, key b ≤ k := by
  intro b hb
  obtain ⟨l, c, rfl⟩ := (List.eq_nil_or_concat l).resolve_left (List.ne_nil_of_mem hb)
  rw [List.concat_eq_append] at h hlast hb
  have hc : key c ≤ k := hlast c (by simp)
  rw [List.mem_append, List.mem_singleton] at hb
  obtain hb | rfl := hb
  · exact ((List.pairwise_append.1 h).2.2 b hb c (by simp)).trans hc
  · exact hc

theorem le_of_le_head? {l : List α} {k : K} (h : l.Pairwise fun a b => key a ≤ key b)
    (hhead : ∀ b ∈ l.head?, k ≤ key b) : ∀ b ∈ l, k ≤ key b := by
  cases l with
  | nil => simp
  | cons c l =>
    have hc : k ≤ key c := hhead c rfl
    intro b hb
    obtain rfl | hb := List.mem_cons.1 hb
    · exact hc
    · exact hc.trans ((List.pairwise_cons.1 h).1 b hb)

theorem sorted_placeIn {front : List α} {a : α} {back : List α}
    (h : (front ++ back).Pairwise fun a b => key a ≤ key b) :
    (placeIn key front a back).Pairwise fun a b => key a ≤ key b := by
  rw [placeIn]
  split_ifs with hplace
  · obtain ⟨hfront, hback, hcross⟩ := List.pairwise_append.1 h
    have hbelow := le_of_le_getLast? hfront hplace.1
    have habove := le_of_le_head? hback hplace.2
    refine List.pairwise_append.2 ⟨hfront, hback.cons habove, fun b hb c hc => ?_⟩
    obtain rfl | hc := List.mem_cons.1 hc
    · exact hbelow b hb
    · exact hcross b hb c hc
  · exact sorted_insertIn h

/-- The first value with a property is changed. -/
def modify (p : α → Bool) (f : α → α) (s : KeyMultiset key) : KeyMultiset key :=
  match h : s.entries.dropWhile (fun a => !p a) with
  | [] => s
  | b :: back =>
    { entries := placeIn key (s.entries.takeWhile fun a => !p a) (f b) back
      sorted := by
        have hs := s.sorted
        rw [← List.takeWhile_append_dropWhile (p := fun a => !p a) (l := s.entries), h] at hs
        exact sorted_placeIn (hs.sublist ((List.sublist_cons_self b back).append_left _)) }

theorem modify_perm {p : α → Bool} {f : α → α} {s : KeyMultiset key} {front back : List α} {b : α}
    (hs : s.entries = front ++ b :: back) (hfront : ∀ a ∈ front, p a = false) (hb : p b = true) :
    (s.modify p f).entries.Perm (f b :: (front ++ back)) := by
  have htake : s.entries.takeWhile (fun a => !p a) = front := by
    rw [hs, List.takeWhile_append_of_pos (by simpa using hfront), List.takeWhile_cons_of_neg (by simp [hb]),
      List.append_nil]
  have hdrop : s.entries.dropWhile (fun a => !p a) = b :: back := by
    rw [hs, List.dropWhile_append_of_pos (by simpa using hfront), List.dropWhile_cons_of_neg (by simp [hb])]
  rw [modify]
  split
  · rename_i hnil
    rw [hdrop] at hnil
    cases hnil
  · rename_i b' back' hcons
    obtain ⟨rfl, rfl⟩ := List.cons.inj (hcons.symm.trans hdrop)
    change (placeIn key _ _ _).Perm _
    rw [htake]
    exact placeIn_perm front (f b') back'

theorem modify_of_find?_eq_none {p : α → Bool} {f : α → α} {s : KeyMultiset key}
    (h : s.entries.find? p = none) : s.modify p f = s := by
  have hnil : s.entries.dropWhile (fun a => !p a) = [] := by
    rw [List.dropWhile_eq_nil_iff]
    simpa using h
  rw [modify]
  split
  · rfl
  · rename_i hcons
    rw [hnil] at hcons
    cases hcons

theorem map_ite_of_forall_false {p : α → Bool} {f : α → α} {l : List α} (h : ∀ a ∈ l, p a = false) :
    l.map (fun a => if p a then f a else a) = l := by
  conv_rhs => rw [← l.map_id]
  refine List.map_congr_left fun a ha => ?_
  rw [h a ha]
  rfl

/-- Where at most one value has the property, all that have it are changed. -/
theorem modify_perm_map {p : α → Bool} {f : α → α} {s : KeyMultiset key}
    (h : s.entries.Pairwise fun a b => p a = true → p b = false) :
    (s.modify p f).entries.Perm (s.entries.map fun a => if p a then f a else a) := by
  cases hfind : s.entries.find? p with
  | none =>
    rw [modify_of_find?_eq_none hfind, map_ite_of_forall_false (by simpa using hfind)]
  | some b =>
    obtain ⟨hb, front, back, hs, hfront⟩ := List.find?_eq_some_iff_append.1 hfind
    have hfront : ∀ a ∈ front, p a = false := by simpa using hfront
    rw [hs] at h
    have hback : ∀ a ∈ back, p a = false := fun a ha =>
      (List.pairwise_cons.1 (List.pairwise_append.1 h).2.1).1 a ha hb
    rw [hs, List.map_append, List.map_cons, if_pos hb, map_ite_of_forall_false hfront,
      map_ite_of_forall_false hback]
    exact (modify_perm hs hfront hb).trans List.perm_middle.symm

/-- What has a property is kept. -/
def filter (p : α → Bool) (s : KeyMultiset key) : KeyMultiset key :=
  ⟨s.entries.filter p, s.sorted.filter p⟩

theorem le_of_mem_take_of_mem_drop {s : KeyMultiset key} {n : Nat} {a b : α} (ha : a ∈ s.entries.take n)
    (hb : b ∈ s.entries.drop n) : key a ≤ key b := by
  have h := s.sorted
  rw [← List.take_append_drop n s.entries] at h
  exact (List.pairwise_append.1 h).2.2 a ha b hb

end KeyMultiset

end ByKey
