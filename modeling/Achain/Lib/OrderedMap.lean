import Mathlib.Order.Basic
import Mathlib.Order.Lattice
import Mathlib.Data.List.Forall2
import Mathlib.Algebra.Ring.Int.Defs
import Mathlib.Algebra.BigOperators.Group.List.Basic

/-!
# Maps in the order of their keys

A map whose entries are sorted by their keys, with the update of the entry of a key that is made when
it is missing. What the entries sum to changes by the entry that is updated.
-/

namespace Ordered

variable {K V : Type}

/-- A map with the entries in the order of the keys. -/
structure OrdMap (K V : Type) [LT K] where
  entries : List (K × V)
  sorted : entries.Pairwise fun a b => a.1 < b.1

namespace OrdMap

def empty [LT K] : OrdMap K V := ⟨[], .nil⟩

section Lookup

variable [LinearOrder K]

def lookup (m : OrdMap K V) (k : K) : Option V := (m.entries.find? fun e => e.1 = k).map Prod.snd

/-- The entries with the one of a key updated, from `d` where it is missing. -/
def modifyIn (k : K) (d : V) (f : V → V) : List (K × V) → List (K × V)
  | [] => [(k, f d)]
  | e :: l =>
    if k < e.1 then (k, f d) :: e :: l
    else if k = e.1 then (k, f e.2) :: l
    else e :: modifyIn k d f l

theorem mem_modifyIn {k : K} {d : V} {f : V → V} :
    ∀ {l : List (K × V)} {e : K × V}, e ∈ modifyIn k d f l → e.1 = k ∨ e ∈ l
  | [], e, he => .inl (by rw [List.mem_singleton.1 he])
  | a :: l, e, he => by
    rw [modifyIn] at he
    split_ifs at he with hlt heq
    · rcases List.mem_cons.1 he with rfl | he
      · exact .inl rfl
      · exact .inr he
    · rcases List.mem_cons.1 he with rfl | he
      · exact .inl rfl
      · exact .inr (List.mem_cons_of_mem _ he)
    · rcases List.mem_cons.1 he with rfl | he
      · exact .inr (List.mem_cons_self ..)
      · exact (mem_modifyIn he).imp id (List.mem_cons_of_mem _)

theorem modifyIn_sorted {k : K} {d : V} {f : V → V} :
    ∀ {l : List (K × V)}, l.Pairwise (fun a b => a.1 < b.1) →
      (modifyIn k d f l).Pairwise fun a b => a.1 < b.1
  | [], _ => List.pairwise_singleton _ _
  | a :: l, h => by
    have ha := (List.pairwise_cons.1 h).1
    rw [modifyIn]
    split_ifs with hlt heq
    · refine .cons (fun b hb => ?_) h
      rcases List.mem_cons.1 hb with rfl | hb
      · exact hlt
      · exact hlt.trans (ha b hb)
    · exact .cons (fun b hb => heq ▸ ha b hb) (List.Pairwise.of_cons h)
    · refine .cons (fun b hb => ?_) (modifyIn_sorted (List.Pairwise.of_cons h))
      rcases mem_modifyIn hb with rfl | hb
      · exact lt_of_le_of_ne (not_lt.1 hlt) (Ne.symm heq)
      · exact ha b hb

/-- `operator[]` with an update of what it refers to. -/
def modify (m : OrdMap K V) (k : K) (d : V) (f : V → V) : OrdMap K V :=
  ⟨modifyIn k d f m.entries, modifyIn_sorted m.sorted⟩

theorem find?_of_lt {k : K} {l : List (K × V)} (h : ∀ e ∈ l, k < e.1) :
    (l.find? fun e => e.1 = k) = none := by
  rw [List.find?_eq_none]
  intro e he heq
  exact (h e he).ne' (of_decide_eq_true heq)

theorem find?_modifyIn {k : K} {d : V} {f : V → V} :
    ∀ {l : List (K × V)}, l.Pairwise (fun a b => a.1 < b.1) → ∀ k',
      ((modifyIn k d f l).find? fun e => e.1 = k').map Prod.snd =
        if k' = k then some (f (((l.find? fun e => e.1 = k).map Prod.snd).getD d))
        else (l.find? fun e => e.1 = k').map Prod.snd
  | [], _, k' => by
    by_cases hk : k' = k
    · subst hk
      simp [modifyIn]
    · simp [modifyIn, hk, Ne.symm hk]
  | a :: l, h, k' => by
    have ha := (List.pairwise_cons.1 h).1
    rw [modifyIn]
    split_ifs with hlt hk heq hk hk
    · subst hk
      have hnone : ((a :: l).find? fun e => e.1 = k') = none := by
        refine find?_of_lt fun e he => ?_
        rcases List.mem_cons.1 he with rfl | he
        · exact hlt
        · exact hlt.trans (ha e he)
      simp [hnone]
    · simp [Ne.symm hk]
    · subst hk
      simp [heq]
    · rw [List.find?_cons_of_neg (by simpa using Ne.symm hk),
        List.find?_cons_of_neg (by simpa using fun h' : a.1 = k' => hk (h'.symm.trans heq.symm))]
    · subst hk
      rw [List.find?_cons_of_neg (by simpa using Ne.symm heq),
        List.find?_cons_of_neg (by simpa using Ne.symm heq),
        find?_modifyIn (List.Pairwise.of_cons h), if_pos rfl]
    · by_cases hak : a.1 = k'
      · rw [List.find?_cons_of_pos (by simpa using hak), List.find?_cons_of_pos (by simpa using hak)]
      · rw [List.find?_cons_of_neg (by simpa using hak), List.find?_cons_of_neg (by simpa using hak),
          find?_modifyIn (List.Pairwise.of_cons h), if_neg hk]

theorem lookup_modify (m : OrdMap K V) (k : K) (d : V) (f : V → V) (k' : K) :
    (m.modify k d f).lookup k' = if k' = k then some (f ((m.lookup k).getD d)) else m.lookup k' :=
  find?_modifyIn m.sorted k'

/-- What the entries sum to changes by the change of the entry. -/
theorem sum_modifyIn {w : K → V → ℤ} {k : K} {d : V} {f : V → V} (hd : w k d = 0) :
    ∀ {l : List (K × V)}, l.Pairwise (fun a b => a.1 < b.1) →
      ((modifyIn k d f l).map fun e => w e.1 e.2).sum =
        (l.map fun e => w e.1 e.2).sum +
          (w k (f (((l.find? fun e => e.1 = k).map Prod.snd).getD d)) -
            w k (((l.find? fun e => e.1 = k).map Prod.snd).getD d))
  | [], _ => by simp [modifyIn, hd]
  | a :: l, h => by
    have ha := (List.pairwise_cons.1 h).1
    rw [modifyIn]
    split_ifs with hlt heq
    · have hnone : ((a :: l).find? fun e => e.1 = k) = none := by
        refine find?_of_lt fun e he => ?_
        rcases List.mem_cons.1 he with rfl | he
        · exact hlt
        · exact hlt.trans (ha e he)
      rw [hnone, List.map_cons, List.sum_cons, Option.map_none, Option.getD_none, hd, Int.sub_zero,
        Int.add_comm]
    · rw [List.find?_cons_of_pos (by simpa using heq.symm), List.map_cons, List.sum_cons,
        List.map_cons, List.sum_cons, Option.map_some, Option.getD_some, ← heq]
      show w k (f a.2) + _ = _
      omega
    · rw [List.find?_cons_of_neg (by simpa using Ne.symm heq), List.map_cons, List.sum_cons,
        List.map_cons, List.sum_cons, sum_modifyIn hd (List.Pairwise.of_cons h)]
      omega

/-- What the entries of a map sum to. -/
def sum (w : K → V → ℤ) (m : OrdMap K V) : ℤ := (m.entries.map fun e => w e.1 e.2).sum

theorem sum_modify {w : K → V → ℤ} (m : OrdMap K V) {k : K} {d : V} (f : V → V) (hd : w k d = 0) :
    (m.modify k d f).sum w =
      m.sum w + (w k (f ((m.lookup k).getD d)) - w k ((m.lookup k).getD d)) :=
  sum_modifyIn hd m.sorted

/-- Maps with the same keys and related values have related entries. -/
theorem lookup_rel {R : K → V → V → Prop} {m m' : OrdMap K V}
    (h : List.Forall₂ (fun e e' => e'.1 = e.1 ∧ R e.1 e.2 e'.2) m.entries m'.entries) (k : K) :
    (m.lookup k = none ∧ m'.lookup k = none) ∨
      ∃ v v', m.lookup k = some v ∧ m'.lookup k = some v' ∧ R k v v' := by
  unfold lookup
  generalize m.entries = l, m'.entries = l' at h
  induction h with
  | nil => exact .inl ⟨rfl, rfl⟩
  | @cons e e' l l' he _ ih =>
    by_cases hk : e.1 = k
    · refine .inr ⟨e.2, e'.2, ?_, ?_, hk ▸ he.2⟩
      · rw [List.find?_cons_of_pos (by simpa using hk)]
        rfl
      · rw [List.find?_cons_of_pos (by simpa using he.1.trans hk)]
        rfl
    · rw [List.find?_cons_of_neg (by simpa using hk),
        List.find?_cons_of_neg (by simpa using fun h => hk (he.1.symm.trans h))]
      exact ih

theorem lookup_of_mem (m : OrdMap K V) {k : K} {v : V} (h : (k, v) ∈ m.entries) :
    m.lookup k = some v := by
  obtain ⟨l, hs⟩ := m
  unfold lookup
  simp only at h ⊢
  induction l with
  | nil => exact absurd h List.not_mem_nil
  | cons a l ih =>
    rcases List.mem_cons.1 h with rfl | h
    · rw [List.find?_cons_of_pos (by simp)]
      rfl
    · have hne : a.1 ≠ k := ((List.rel_of_pairwise_cons hs) h).ne
      rw [List.find?_cons_of_neg (by simpa using hne)]
      exact ih (List.Pairwise.of_cons hs) h

end Lookup

end OrdMap

end Ordered
