import Mathlib.Data.List.Basic
import Mathlib.Data.Option.Basic

/-!
# One request at a time

What passes between a party and another that it asks for things. It asks for one, waits for the answer or
for the other to be gone, and only then asks for the next. What it did not ask for is no answer to it.
-/

namespace Requests

variable {ι : Type}

inductive Label (ι : Type) where
  | ask (i : ι)
  | answer (i : ι)
  | reset
  deriving DecidableEq

section Exchange

variable [DecidableEq ι]

/-- What is waited for afterwards, unless it is asked too early. -/
def next (waiting : Option ι) : Label ι → Option (Option ι)
  | .ask i => if waiting = none then some (some i) else none
  | .answer i => some (if waiting = some i then none else waiting)
  | .reset => some none

/-- What is waited for in the end. -/
def waitsAfter (waiting : Option ι) (labels : List (Label ι)) : Option (Option ι) :=
  labels.foldlM next waiting

variable {waiting waiting' : Option ι} {a : Label ι} {labels labels' : List (Label ι)} {i j : ι}

theorem waitsAfter_cons :
    waitsAfter waiting (a :: labels) = (next waiting a).bind fun w => waitsAfter w labels :=
  List.foldlM_cons

theorem waitsAfter_append : waitsAfter waiting (labels ++ labels') =
    (waitsAfter waiting labels).bind fun w => waitsAfter w labels' := List.foldlM_append

/-- How often one thing comes while it is waited for. -/
def got (i : ι) (waiting : Option ι) : List (Label ι) → Nat
  | [] => 0
  | a :: labels => (if a = .answer i ∧ waiting = some i then 1 else 0) +
      ((next waiting a).elim 0 fun w => got i w labels)

theorem got_append (h : waitsAfter waiting labels = some waiting') :
    got i waiting (labels ++ labels') = got i waiting labels + got i waiting' labels' := by
  induction labels generalizing waiting with
  | nil =>
    obtain rfl := Option.some.inj h
    rw [List.nil_append, got, Nat.zero_add]
  | cons a labels ih =>
    obtain ⟨w, hw, h⟩ := Option.bind_eq_some_iff.1 (waitsAfter_cons.symm.trans h)
    rw [List.cons_append, got, got, hw, Option.elim_some, Option.elim_some, ih h, Nat.add_assoc]

theorem got_le_append (i : ι) (waiting : Option ι) (labels labels' : List (Label ι)) :
    got i waiting labels ≤ got i waiting (labels ++ labels') := by
  induction labels generalizing waiting with
  | nil => exact Nat.zero_le _
  | cons a labels ih =>
    rw [List.cons_append, got, got]
    cases next waiting a with
    | none => exact Nat.le_refl _
    | some w => exact Nat.add_le_add_left (ih w) _

end Exchange

end Requests
