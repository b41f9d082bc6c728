import Mathlib.Data.List.Dedup
import Mathlib.Logic.Relation

/-!
# Level by level through a forest

Each vertex has a list of vertices after it. Going down level by level from some vertices reaches
what is after them, and the end of a path is reached within as many levels as the path is long.
-/

namespace Levels

variable {α : Type} {next next' : α → List α} {ids ids' : List α} {a b x : α} {n m : Nat}

/-- The vertices so many levels below some others. -/
def level (next : α → List α) : Nat → List α → List α
  | 0, ids => ids
  | n + 1, ids => (level next n ids).flatMap next

/-- What the first levels hold, the vertices themselves being the first of them. -/
def Within (next : α → List α) (n : Nat) (ids : List α) (x : α) : Prop :=
  ∃ i < n, x ∈ level next i ids

/-- One vertex is the other one or after it. -/
abbrev After (next : α → List α) : α → α → Prop := Relation.ReflTransGen fun a b => b ∈ next a

theorem level_flatMap : ∀ (n : Nat) (ids : List α),
    level next n (ids.flatMap next) = level next (n + 1) ids
  | 0, _ => rfl
  | n + 1, ids => by
    rw [level, level_flatMap n ids]
    rfl

theorem mem_level_congr (hids : ∀ x, x ∈ ids ↔ x ∈ ids') : ∀ {n : Nat} {x : α},
    x ∈ level next n ids ↔ x ∈ level next n ids'
  | 0, x => hids x
  | n + 1, x => by
    simp only [level, List.mem_flatMap]
    exact exists_congr fun y => and_congr_left fun _ => mem_level_congr hids

theorem within_congr (hids : ∀ x, x ∈ ids ↔ x ∈ ids') :
    Within next n ids x ↔ Within next n ids' x :=
  exists_congr fun _ => and_congr_right fun _ => mem_level_congr hids

@[simp] theorem within_zero : ¬ Within next 0 ids x := fun ⟨_, h, _⟩ => Nat.not_lt_zero _ h

@[simp] theorem within_nil : ¬ Within next n [] x := by
  rintro ⟨i, -, hx⟩
  have hnil : level next i [] = [] := by
    clear hx
    induction i with
    | zero => rfl
    | succ i ih => rw [level, ih, List.flatMap_nil]
  rw [hnil] at hx
  cases hx

theorem within_succ : Within next (n + 1) ids x ↔ x ∈ ids ∨ Within next n (ids.flatMap next) x := by
  constructor
  · rintro ⟨i, hi, hx⟩
    cases i with
    | zero => exact .inl hx
    | succ i =>
      refine .inr ⟨i, Nat.lt_of_succ_lt_succ hi, ?_⟩
      rw [level_flatMap]
      exact hx
  · rintro (hx | ⟨i, hi, hx⟩)
    · exact ⟨0, Nat.succ_pos n, hx⟩
    · rw [level_flatMap] at hx
      exact ⟨i + 1, Nat.succ_lt_succ hi, hx⟩

theorem after_of_mem_level : ∀ {n : Nat} {x : α}, x ∈ level next n ids → ∃ a ∈ ids, After next a x
  | 0, x, h => ⟨x, h, .refl⟩
  | n + 1, x, h => by
    obtain ⟨y, hy, hx⟩ := List.mem_flatMap.1 h
    obtain ⟨a, ha, hafter⟩ := after_of_mem_level hy
    exact ⟨a, ha, hafter.tail hx⟩

theorem Within.after (h : Within next n ids x) : ∃ a ∈ ids, After next a x :=
  let ⟨_, _, hx⟩ := h
  after_of_mem_level hx

/-- A path down from a vertex, listed from its end up. -/
inductive Path (next : α → List α) (a : α) : α → List α → Prop
  | start : Path next a a [a]
  | step {b c : α} {path : List α} : Path next a b path → c ∈ next b → Path next a c (c :: path)

theorem Path.mem_level {path : List α} (h : Path next a x path) (ha : a ∈ ids) :
    x ∈ level next (path.length - 1) ids := by
  induction h with
  | start => exact ha
  | step hpath hc ih =>
    cases hpath with
    | start => exact List.mem_flatMap.2 ⟨_, ih, hc⟩
    | step hpath hb => exact List.mem_flatMap.2 ⟨_, ih, hc⟩

/-- The end of a path is within as many levels as the path is long. -/
theorem Path.within {path : List α} (h : Path next a x path) (ha : a ∈ ids)
    (hn : path.length ≤ n) : Within next n ids x := by
  refine ⟨path.length - 1, ?_, h.mem_level ha⟩
  have hpos : 0 < path.length := by cases h <;> simp
  omega

end Levels
