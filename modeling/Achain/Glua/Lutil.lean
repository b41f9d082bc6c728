import Achain.Types
import Achain.Lib.Patterns

/-!
# Replacing in strings

`replace_all` and `escape_string`. The length that the first gives to `std::string::replace` is where the
match ends.
-/

namespace Achain.Glua.Util

open Patterns

/-- `std::string::find`, which gives `none` for `npos`. -/
def find (str from' : Str) (pos : Nat) : Option Nat :=
  if str.length < pos then none else (firstMatch from' (str.drop pos)).map (pos + ·)

/-- `std::string::replace`. -/
def replace (str : Str) (pos len : Nat) (to' : Str) : Str :=
  str.take pos ++ to' ++ str.drop (pos + len)

theorem find_bounds {str from' : Str} {start pos : Nat} (hne : from' ≠ [])
    (h : find str from' start = some pos) : start ≤ pos ∧ pos + from'.length ≤ str.length := by
  unfold find at h
  split_ifs at h with hstart
  obtain ⟨i, hi, rfl⟩ := Option.map_eq_some_iff.1 h
  have hle := (of_firstMatch [] hne hi).1
  rw [List.length_drop] at hle
  omega

/-- The loop of `replace_all`, for a pattern that is not empty. -/
def replaceLoop (from' to' : Str) (hne : from' ≠ []) (str : Str) (startPos : Nat) : Str :=
  match _h : find str from' startPos with
  | none => str
  | some pos =>
    let endPos := pos + from'.length
    replaceLoop from' to' hne (replace str pos endPos to') (pos + to'.length)
termination_by str.length - startPos
decreasing_by
  obtain ⟨hstart, hpos⟩ := find_bounds hne _h
  have hlength : 0 < from'.length := List.length_pos_iff.2 hne
  simp only [replace, List.length_append, List.length_take, List.length_drop]
  omega

/-- `replace_all`. -/
def replaceAll (str from' to' : Str) (hne : from' ≠ []) : Str := replaceLoop from' to' hne str 0

/-- `escape_string`. -/
def escapeString (str : Str) : Str :=
  let result := replaceAll str ['\\'] ['\\', '\\'] (List.cons_ne_nil _ _)
  replaceAll result ['"'] ['\\', '"'] (List.cons_ne_nil _ _)

end Achain.Glua.Util
