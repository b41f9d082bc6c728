import Achain.Proofs.QuickSort

/-!
# The quicksort with a comparison

A comparison that orders the elements of an array by a key sorts it as the key does, whatever it says of
other values: the sort compares elements of the array only.
-/

namespace Achain.Glua

open Stateful

section Alike

variable {V α β : Type} {S : V → Prop} {Q : α → Prop} {R : β → Prop}

/-- Two computations that do the same on arrays of elements in `S`, and leave such an array and a result
in `Q`. -/
def Alike (S : V → Prop) (Q : α → Prop) (x y : EStateM LuaError (SortState V) α) : Prop :=
  ∀ s, (∀ k, S (s.values k)) →
    x s = y s ∧ ∀ a s', x s = .ok a s' → (∀ k, S (s'.values k)) ∧ Q a

namespace Alike

theorem pure {a : α} (h : Q a) : Alike S Q (pure a) (pure a) := by
  intro s hs
  refine ⟨rfl, fun a' s' hrun => ?_⟩
  cases hrun
  exact ⟨hs, h⟩

theorem throw (e : LuaError) : Alike S Q (throw e) (throw e) := fun _ _ => ⟨rfl, nofun⟩

theorem bind {x y : EStateM LuaError (SortState V) α} {f g : α → EStateM LuaError (SortState V) β}
    (hx : Alike S Q x y) (hf : ∀ a, Q a → Alike S R (f a) (g a)) : Alike S R (x >>= f) (y >>= g) := by
  intro s hs
  obtain ⟨heq, hleft⟩ := hx s hs
  cases hrun : x s with
  | ok a s' =>
    obtain ⟨hs', ha⟩ := hleft a s' hrun
    rw [bind_of_ok hrun, bind_of_ok (heq ▸ hrun)]
    exact hf a ha s' hs'
  | error e s' =>
    rw [bind_of_error hrun, bind_of_error (heq ▸ hrun)]
    exact ⟨rfl, nofun⟩

theorem ite {c : Prop} [Decidable c] {x y x' y' : EStateM LuaError (SortState V) α}
    (hx : Alike S Q x x') (hy : Alike S Q y y') :
    Alike S Q (if c then x else y) (if c then x' else y') := by
  split_ifs
  · exact hx
  · exact hy

end Alike

end Alike

section Sorting

variable {V K : Type} [LinearOrder K] {S : V → Prop} {less : V → V → Bool} {key : V → K}
  {clock : Nat → Nat}

theorem geti_alike (i : Nat) :
    Alike S S ((memoryArray less clock).geti i) ((sortArray key clock).geti i) := by
  intro s hs
  refine ⟨rfl, fun a s' hrun => ?_⟩
  cases hrun
  exact ⟨hs, hs i⟩

theorem seti_alike (i : Nat) {v : V} (hv : S v) :
    Alike S (fun _ => True) ((memoryArray less clock).seti i v) ((sortArray key clock).seti i v) := by
  intro s hs
  refine ⟨rfl, fun a s' hrun => ⟨fun k => ?_, trivial⟩⟩
  cases hrun
  by_cases hk : k = i
  · subst hk
    simpa using hv
  · simpa [hk] using hs k

theorem randomizePivot_alike : Alike S (fun _ => True) (memoryArray less clock).randomizePivot
    (sortArray key clock).randomizePivot := by
  intro s hs
  refine ⟨rfl, fun a s' hrun => ⟨?_, trivial⟩⟩
  cases hrun
  exact hs

variable (hless : ∀ a b, S a → S b → less a b = decide (key a < key b))
include hless

theorem comp_alike {a b : V} (ha : S a) (hb : S b) :
    Alike S (fun _ => True) ((memoryArray less clock).comp a b) ((sortArray key clock).comp a b) := by
  show Alike S _ (Pure.pure (less a b)) (Pure.pure (decide (key a < key b)))
  rw [hless a b ha hb]
  exact .pure trivial

omit hless in
theorem set2_alike (i j : Nat) {vi vj : V} (hvi : S vi) (hvj : S vj) :
    Alike S (fun _ => True) ((memoryArray less clock).set2 i j vi vj)
      ((sortArray key clock).set2 i j vi vj) :=
  (seti_alike i hvi).bind fun _ _ => seti_alike j hvj

theorem scanUp_alike {pivot : V} (hpivot : S pivot) (up : Nat) : ∀ fuel i : Nat,
    Alike S (fun r => S r.2) ((memoryArray less clock).scanUp pivot up fuel i)
      ((sortArray key clock).scanUp pivot up fuel i)
  | 0, _ => .throw _
  | fuel + 1, i => by
    refine (geti_alike (i + 1)).bind fun v hv => (comp_alike hless hv hpivot).bind fun c _ => ?_
    exact .ite (.ite (.throw _) (scanUp_alike hpivot up fuel (i + 1))) (.pure hv)

theorem scanDown_alike {pivot : V} (hpivot : S pivot) (i : Nat) : ∀ fuel j : Nat,
    Alike S (fun r => S r.2) ((memoryArray less clock).scanDown pivot i fuel j)
      ((sortArray key clock).scanDown pivot i fuel j)
  | 0, _ => .throw _
  | fuel + 1, j => by
    refine (geti_alike (j - 1)).bind fun v hv => (comp_alike hless hpivot hv).bind fun c _ => ?_
    exact .ite (.ite (.throw _) (scanDown_alike hpivot i fuel (j - 1))) (.pure hv)

theorem partitionLoop_alike {pivot : V} (hpivot : S pivot) (up : Nat) : ∀ fuel i j : Nat,
    Alike S (fun _ => True) ((memoryArray less clock).partitionLoop pivot up fuel i j)
      ((sortArray key clock).partitionLoop pivot up fuel i j)
  | 0, _, _ => .throw _
  | fuel + 1, i, j => by
    refine (scanUp_alike hless hpivot up up i).bind fun upper hupper =>
      (scanDown_alike hless hpivot upper.1 (j + 1) j).bind fun lower hlower => ?_
    exact .ite ((set2_alike _ _ hupper hpivot).bind fun _ _ => .pure trivial)
      ((set2_alike _ _ hlower hupper).bind fun _ _ =>
        partitionLoop_alike hpivot up fuel upper.1 lower.1)

theorem sortEnds_alike (lo up : Nat) : Alike S (fun _ => True)
    ((memoryArray less clock).sortEnds lo up) ((sortArray key clock).sortEnds lo up) :=
  (geti_alike lo).bind fun _ hlo => (geti_alike up).bind fun _ hup =>
    (comp_alike hless hup hlo).bind fun _ _ => .ite (set2_alike _ _ hup hlo) (.pure trivial)

theorem sortMiddle_alike (lo p up : Nat) : Alike S (fun _ => True)
    ((memoryArray less clock).sortMiddle lo p up) ((sortArray key clock).sortMiddle lo p up) :=
  (geti_alike p).bind fun _ hp => (geti_alike lo).bind fun _ hlo =>
    (comp_alike hless hp hlo).bind fun _ _ => .ite (set2_alike _ _ hlo hp) <|
      (geti_alike up).bind fun _ hup => (comp_alike hless hup hp).bind fun _ _ =>
        .ite (set2_alike _ _ hup hp) (.pure trivial)

omit hless in
theorem movePivot_alike (p up : Nat) : Alike S S ((memoryArray less clock).movePivot p up)
    ((sortArray key clock).movePivot p up) :=
  (geti_alike p).bind fun _ hpivot => (geti_alike (up - 1)).bind fun _ hv =>
    (set2_alike _ _ hv hpivot).bind fun _ _ => .pure hpivot

omit hless in
theorem rerandomize_alike (larger smaller rnd : Nat) : Alike S (fun _ => True)
    ((memoryArray less clock).rerandomize larger smaller rnd)
    ((sortArray key clock).rerandomize larger smaller rnd) :=
  .ite randomizePivot_alike (.pure trivial)

theorem auxsort_alike : ∀ fuel lo up rnd : Nat, Alike S (fun _ => True)
    ((memoryArray less clock).auxsort fuel lo up rnd) ((sortArray key clock).auxsort fuel lo up rnd)
  | 0, _, _, _ => .throw _
  | fuel + 1, lo, up, rnd => by
    have hhalf (lo up rnd : Nat) := auxsort_alike fuel lo up rnd
    refine .ite ((sortEnds_alike hless lo up).bind fun _ _ => .ite (.pure trivial) ?_) (.pure trivial)
    refine (sortMiddle_alike hless lo _ up).bind fun _ _ => .ite (.pure trivial) ?_
    refine (movePivot_alike _ up).bind fun pivot hpivot =>
      (partitionLoop_alike hless hpivot up up lo (up - 1)).bind fun p _ => .ite ?_ ?_
    · exact (hhalf _ _ _).bind fun _ _ => (rerandomize_alike _ _ _).bind fun _ _ => hhalf _ _ _
    · exact (hhalf _ _ _).bind fun _ _ => (rerandomize_alike _ _ _).bind fun _ _ => hhalf _ _ _

/-- The sort of an array whose elements a comparison orders by a key. -/
theorem memorySort_ok (clock : Nat → Nat) {n : Nat} {s : SortState V} (hs : ∀ k, S (s.values k)) :
    ∃ s', (memoryArray less clock).sort n s = .ok () s' ∧ Rearranged 1 n s.values s'.values ∧
      SortedOn key 1 n s'.values := by
  have halike : Alike S (fun _ => True) ((memoryArray less clock).sort n) ((sortArray key clock).sort n) :=
    .ite (auxsort_alike hless n 1 n 0) (.pure trivial)
  rw [(halike s hs).1]
  exact sort_ok key clock n s

end Sorting

end Achain.Glua
