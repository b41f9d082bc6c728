import Mathlib.Data.List.Basic
import Mathlib.Data.List.Infix
import Mathlib.Tactic.Linarith

/-!
# Patterns in lists

Where a pattern occurs first, where it occurs from left to right without overlap, and the list with
another one in the place of each occurrence. If that is at least as long, what is dropped in front makes
the result shorter by as much.
-/

namespace Patterns

variable {α : Type}

theorem drop_pred {pattern l : List α} (a : α) (hp : pattern ≠ []) :
    l.drop (pattern.length - 1) = (a :: l).drop pattern.length := by
  cases pattern with
  | nil => exact absurd rfl hp
  | cons b pattern => rfl

variable [DecidableEq α]

/-- Where a pattern occurs first. -/
def firstMatch (pattern : List α) : List α → Option Nat
  | [] => if pattern = [] then some 0 else none
  | a :: l => if pattern <+: a :: l then some 0 else (firstMatch pattern l).map (· + 1)

/-- The places where a pattern occurs from left to right, counted from `k`. -/
def occurrences (pattern : List α) (k : Nat) : List α → List Nat
  | [] => []
  | a :: l =>
    if pattern <+: a :: l then
      k :: occurrences pattern (k + pattern.length) (l.drop (pattern.length - 1))
    else occurrences pattern (k + 1) l
termination_by l => l.length

/-- Each occurrence of a pattern replaced, from left to right. -/
def substitute (pattern target : List α) : List α → List α
  | [] => []
  | a :: l =>
    if pattern <+: a :: l then target ++ substitute pattern target (l.drop (pattern.length - 1))
    else a :: substitute pattern target l
termination_by l => l.length

variable {pattern target l : List α} {i j k : Nat}

@[simp] theorem occurrences_nil : occurrences pattern k [] = [] := by rw [occurrences]

@[simp] theorem substitute_nil : substitute pattern target [] = [] := by rw [substitute]

variable (target) in
/-- The first match splits the list. -/
theorem of_firstMatch (hp : pattern ≠ []) (h : firstMatch pattern l = some i) :
    i + pattern.length ≤ l.length ∧
      (∀ k, occurrences pattern k l = (k + i) ::
        occurrences pattern (k + i + pattern.length) (l.drop (i + pattern.length))) ∧
      substitute pattern target l = l.take i ++ target ++
        substitute pattern target (l.drop (i + pattern.length)) := by
  induction l generalizing i with
  | nil => rw [firstMatch, if_neg hp] at h; cases h
  | cons a l ih =>
    rw [firstMatch] at h
    split_ifs at h with hprefix
    · obtain rfl := Option.some.inj h
      refine ⟨by simpa using hprefix.length_le, fun k => ?_, ?_⟩
      · rw [occurrences, if_pos hprefix, drop_pred a hp, Nat.zero_add, Nat.add_zero]
      · rw [substitute, if_pos hprefix, drop_pred a hp, Nat.zero_add, List.take_zero, List.nil_append]
    · obtain ⟨i, hi, rfl⟩ := Option.map_eq_some_iff.1 h
      obtain ⟨hle, hoccurrences, hsubstitute⟩ := ih hi
      have hdrop : (a :: l).drop (i + 1 + pattern.length) = l.drop (i + pattern.length) := by
        rw [Nat.add_right_comm, List.drop_succ_cons]
      refine ⟨by rw [List.length_cons]; omega, fun k => ?_, ?_⟩
      · rw [occurrences, if_neg hprefix, hoccurrences, hdrop, Nat.add_right_comm k 1, Nat.add_assoc k i]
      · rw [substitute, if_neg hprefix, hsubstitute, hdrop]
        rfl

variable (target) in
theorem of_firstMatch_none (h : firstMatch pattern l = none) :
    (∀ k, occurrences pattern k l = []) ∧ substitute pattern target l = l := by
  induction l with
  | nil => exact ⟨fun _ => occurrences_nil, substitute_nil⟩
  | cons a l ih =>
    rw [firstMatch] at h
    split_ifs at h with hprefix
    obtain ⟨hoccurrences, hsubstitute⟩ := ih (Option.map_eq_none_iff.1 h)
    refine ⟨fun k => ?_, ?_⟩
    · rw [occurrences, if_neg hprefix, hoccurrences]
    · rw [substitute, if_neg hprefix, hsubstitute]

/-- A match in the rest of a list is one in the list, which has its first there or before. -/
theorem firstMatch_of_drop (hp : pattern ≠ []) (h : firstMatch pattern (l.drop j) = some i) :
    ∃ m, firstMatch pattern l = some m ∧ m ≤ j + i := by
  induction j generalizing l with
  | zero => exact ⟨i, h, by omega⟩
  | succ j ih =>
    cases l with
    | nil => rw [List.drop_nil, firstMatch, if_neg hp] at h; cases h
    | cons a l =>
      obtain ⟨m, hm, hle⟩ := ih (l := l) h
      rw [firstMatch]
      split_ifs
      · exact ⟨0, rfl, Nat.zero_le _⟩
      · exact ⟨m + 1, by rw [hm]; rfl, by omega⟩

/-- What is dropped in front is missing in the result: an occurrence that is cut takes no other's
place. By induction on the list behind the first match. -/
theorem length_substitute_drop (hp : pattern ≠ []) (ht : pattern.length ≤ target.length) (j : Nat) :
    (substitute pattern target (l.drop j)).length + min j l.length ≤
      (substitute pattern target l).length := by
  induction hn : l.length using Nat.strong_induction_on generalizing l j with
  | _ n ih =>
    subst hn
    have hpos : 0 < pattern.length := List.length_pos_iff.2 hp
    cases hm : firstMatch pattern l with
    | none =>
      have hrest : firstMatch pattern (l.drop j) = none := by
        by_contra hne
        obtain ⟨i, hi⟩ := Option.ne_none_iff_exists'.1 hne
        obtain ⟨m, hm', -⟩ := firstMatch_of_drop hp hi
        rw [hm] at hm'
        cases hm'
      rw [(of_firstMatch_none target hm).2, (of_firstMatch_none target hrest).2, List.length_drop]
      omega
    | some m =>
      obtain ⟨hm_le, -, hsubstitute⟩ := of_firstMatch target hp hm
      have hlength : (l.drop (m + pattern.length)).length = l.length - (m + pattern.length) :=
        List.length_drop
      rw [hsubstitute, List.length_append, List.length_append, List.length_take]
      cases hi : firstMatch pattern (l.drop j) with
      | none =>
        have hrest := ih _ (by omega) (l := l.drop (m + pattern.length))
          (l.drop (m + pattern.length)).length rfl
        rw [(of_firstMatch_none target hi).2, List.length_drop]
        omega
      | some i =>
        obtain ⟨hi_le, -, hrest⟩ := of_firstMatch target hp hi
        obtain ⟨m', hm', hle⟩ := firstMatch_of_drop hp hi
        obtain rfl : m = m' := Option.some.inj (hm.symm.trans hm')
        have hbehind := ih _ (by omega) (l := l.drop (m + pattern.length)) (j + i - m) rfl
        rw [List.drop_drop] at hbehind
        rw [hrest, List.length_append, List.length_append, List.length_take, List.drop_drop]
        rw [List.length_drop] at hi_le ⊢
        have hindex : m + pattern.length + (j + i - m) = j + (i + pattern.length) := by omega
        rw [hindex] at hbehind
        omega

end Patterns
