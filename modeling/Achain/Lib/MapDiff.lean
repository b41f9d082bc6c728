import Mathlib.Data.Option.Basic
import Mathlib.Tactic.SplitIfs

/-!
# Differences of maps

The entries by which two maps differ, those before and those after, where a test says whether the two
values of a key are the same. To erase the ones and insert the others makes the second map of the first if
what the test takes for the same is the same.
-/

namespace MapDiff

variable {K V W : Type} (same : V → V → Bool) (m m' : K → Option V)

/-- The entries removed or changed, as they were. -/
def before (k : K) : Option V :=
  match m k, m' k with
  | some v, some v' => if same v v' then none else some v
  | some v, none => some v
  | none, _ => none

/-- The entries changed or added, as they are. -/
def after (k : K) : Option V :=
  match m k, m' k with
  | some v, some v' => if same v v' then none else some v'
  | none, some v' => some v'
  | _, none => none

/-- A map with entries erased and then others inserted. -/
def patch (table before after : K → Option W) (k : K) : Option W :=
  match after k with
  | some v => some v
  | none => if (before k).isSome then none else table k

variable {same m m'}

theorem patch_iff (read : V → W) :
    (∀ k, patch (fun k => (m k).map read) (fun k => (before same m m' k).map read)
        (fun k => (after same m m' k).map read) k = (m' k).map read) ↔
      ∀ k v v', m k = some v → m' k = some v' → same v v' = true → read v = read v' := by
  refine forall_congr' fun k => ?_
  rw [patch, before, after]
  cases hm : m k <;> cases hm' : m' k
  · simp
  · simp
  · simp
  · rename_i v v'
    by_cases hsame : same v v' = true <;> simp [hsame]

variable (same m m') in
/-- No entry is mentioned that both have, if a value is the same as itself. -/
theorem not_mentioned_iff :
    (∀ k v, m k = some v → m' k = some v → before same m m' k = none ∧ after same m m' k = none) ↔
      ∀ k v, m k = some v → m' k = some v → same v v = true := by
  refine forall₂_congr fun k v => forall₂_congr fun hm hm' => ?_
  rw [before, after, hm, hm']
  by_cases hsame : same v v = true <;> simp [hsame]

end MapDiff
