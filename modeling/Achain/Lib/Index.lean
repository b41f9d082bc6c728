import Achain.Lib.Table

/-!
# Secondary indexes

An index of a table maps every secondary key of an entry to the key the entry is stored under, and
nothing else. A store or a removal that erases the secondary keys the entry had, touches those of no
other entry and inserts those it has keeps the index so. What is looked up through such an index is
determined by the table, so two states with the same table answer alike.
-/

namespace Table

variable {K V X : Type} [DecidableEq K] [DecidableEq X]

/-- The index maps the secondary keys of each entry to its key, and nothing else. -/
def Indexes (keysOf : V → List X) (table : K → Option V) (index : X → Option K) : Prop :=
  ∀ x k, index x = some k ↔ ∃ v, table k = some v ∧ x ∈ keysOf v

namespace Indexes

variable {keysOf : V → List X} {table table' : K → Option V} {index index' : X → Option K}
  {k : K} {v : V}

omit [DecidableEq K] [DecidableEq X] in
theorem empty : Indexes keysOf (fun _ : K => none) fun _ => none := by
  intro x k
  simp

/-- The index after an entry is stored, where it erases some keys before it inserts those of the
entry: it is right if the keys the old entry had and the new one has not are among those erased. -/
theorem store_iff (h : Indexes keysOf table index) (erased : List X)
    (htable : ∀ k', table' k' = if k' = k then some v else table k')
    (hindex : ∀ x, index' x =
      if x ∈ keysOf v then some k else if x ∈ erased then none else index x)
    (hothers : ∀ k' w, k' ≠ k → table k' = some w → ∀ x ∈ keysOf w, x ∉ keysOf v ∧ x ∉ erased) :
    Indexes keysOf table' index' ↔
      ∀ w, table k = some w → ∀ x ∈ keysOf w, x ∈ keysOf v ∨ x ∈ erased := by
  constructor
  · intro h' w hw x hx
    by_contra hnot
    rw [not_or] at hnot
    have hk : index' x = some k := by
      rw [hindex, if_neg hnot.1, if_neg hnot.2]
      exact (h x k).2 ⟨w, hw, hx⟩
    obtain ⟨v', hv', hx'⟩ := (h' x k).1 hk
    rw [htable, if_pos rfl, Option.some_inj] at hv'
    exact hnot.1 (hv' ▸ hx')
  · intro hown x k'
    rw [hindex, htable]
    by_cases hx : x ∈ keysOf v
    · rw [if_pos hx, Option.some_inj]
      constructor
      · rintro rfl
        exact ⟨v, if_pos rfl, hx⟩
      · rintro ⟨w, hw, hxw⟩
        by_contra hne
        rw [if_neg (Ne.symm hne)] at hw
        exact (hothers k' w (Ne.symm hne) hw x hxw).1 hx
    · rw [if_neg hx]
      by_cases hk : k' = k
      · subst hk
        rw [if_pos rfl]
        constructor
        · intro hmem
          split_ifs at hmem with he
          obtain ⟨w, hw, hxw⟩ := (h x k').1 hmem
          exact ((hown w hw x hxw).elim hx he).elim
        · rintro ⟨w, hw, hxw⟩
          rw [Option.some_inj] at hw
          exact absurd (hw ▸ hxw) hx
      · rw [if_neg hk]
        by_cases he : x ∈ erased
        · rw [if_pos he]
          constructor
          · intro hmem
            cases hmem
          · rintro ⟨w, hw, hxw⟩
            exact absurd he (hothers k' w hk hw x hxw).2
        · rw [if_neg he]
          exact h x k'

/-- The index after an entry is removed with all its keys. -/
theorem remove (h : Indexes keysOf table index) (erased : List X)
    (htable : ∀ k', table' k' = if k' = k then none else table k')
    (hindex : ∀ x, index' x = if x ∈ erased then none else index x)
    (hown : ∀ w, table k = some w → ∀ x ∈ keysOf w, x ∈ erased)
    (hothers : ∀ k' w, k' ≠ k → table k' = some w → ∀ x ∈ keysOf w, x ∉ erased) :
    Indexes keysOf table' index' := by
  intro x k'
  rw [hindex, htable]
  by_cases he : x ∈ erased
  · rw [if_pos he]
    constructor
    · intro hmem
      cases hmem
    · rintro ⟨w, hw, hxw⟩
      split_ifs at hw with hk
      exact absurd he (hothers k' w hk hw x hxw)
  · rw [if_neg he, h x k']
    by_cases hk : k' = k
    · subst hk
      rw [if_pos rfl]
      constructor
      · rintro ⟨w, hw, hxw⟩
        exact absurd (hown w hw x hxw) he
      · rintro ⟨w, hw, -⟩
        cases hw
    · rw [if_neg hk]

end Indexes

end Table
