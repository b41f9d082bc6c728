import Mathlib.Data.List.Defs

/-!
# States that can be rewound

A log holds for some of the steps taken what undoes them. A state rewinds along the steps that led
to it, the last one first, if it has a property and each state that undoing the steps one by one
leads to has it. Taking a step keeps this if what is logged for it leads back to a state that reads
like the one before.
-/

namespace Rewind

variable {S U I : Type} {apply : S → U → S} {G : S → Prop} {log log' : I → Option U} {i : I}
  {path : List I} {s s' : S} {u : U}

/-- The state has the property, and so has every state that undoing its steps leads to. -/
def Rewinds (apply : S → U → S) (G : S → Prop) (log : I → Option U) : List I → S → Prop
  | [], s => G s
  | i :: path, s => G s ∧ ∀ u, log i = some u → Rewinds apply G log path (apply s u)

namespace Rewinds

theorem here (h : Rewinds apply G log path s) : G s := by
  cases path with
  | nil => exact h
  | cons i path => exact h.1

theorem undo (h : Rewinds apply G log (i :: path) s) (hu : log i = some u) :
    Rewinds apply G log path (apply s u) :=
  h.2 u hu

/-- Only what is logged for the steps of the path counts. -/
theorem mono (h : Rewinds apply G log path s)
    (hlog : ∀ i ∈ path, ∀ u, log' i = some u → log i = some u) : Rewinds apply G log' path s := by
  induction path generalizing s with
  | nil => exact h
  | cons i path ih =>
    refine ⟨h.1, fun u hu => ih (h.undo (hlog i (List.mem_cons_self ..) u hu)) ?_⟩
    exact fun j hj => hlog j (List.mem_cons_of_mem _ hj)

section Same

variable {R : S → S → Prop} (hG : ∀ {s s'}, R s s' → G s → G s')
  (happly : ∀ {s s'} u, R s s' → R (apply s u) (apply s' u))

include hG happly

/-- States that read the same rewind the same. -/
theorem congr (h : Rewinds apply G log path s) (hs : R s s') : Rewinds apply G log path s' := by
  induction path generalizing s s' with
  | nil => exact hG hs h
  | cons i path ih => exact ⟨hG hs h.1, fun u hu => ih (h.undo hu) (happly u hs)⟩

/-- A step is taken, and what is logged for it, if anything, undoes it. -/
theorem step (h : Rewinds apply G log path s) (hs' : G s') (hi : i ∉ path)
    (hlog : ∀ j, j ≠ i → ∀ u, log' j = some u → log j = some u)
    (hundo : ∀ u, log' i = some u → R s (apply s' u)) : Rewinds apply G log' (i :: path) s' := by
  have hkept : Rewinds apply G log' path s := by
    refine h.mono fun j hj => hlog j ?_
    rintro rfl
    exact hi hj
  exact ⟨hs', fun u hu => hkept.congr hG happly (hundo u hu)⟩

end Same

end Rewinds

end Rewind
