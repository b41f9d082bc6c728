import Achain.Glua.Json
import Achain.Lib.Doubles

/-!
# Comparison in the VM

`luaV_lessthan` of two numbers and of two strings. An integer and a float are compared as floats if the
integer fits one, and else as integers. Strings are compared by their lengths and then segment by
segment, up to their null characters.
-/

namespace Achain.Glua

open Doubles

inductive LuaNumber where
  | integer (i : Int)
  | float (bits : UInt64)
  deriving DecidableEq

/-! ## Numbers -/

/-- `l_intfitsf`. -/
def intFitsFloat (i : Int) : Bool := -2 ^ 53 ≤ i && i ≤ 2 ^ 53

/-- `LTintfloat`. -/
def ltIntFloat (i : Int) (f : UInt64) : Bool :=
  if isNaN f then false
  else if !intFitsFloat i then
    if 2 ^ 63 * unit ≤ value f then true
    else if -2 ^ 63 * unit < value f then decide (i < (value f).tdiv unit)
    else false
  else decide (i * unit < value f)

/-- `LEintfloat`. -/
def leIntFloat (i : Int) (f : UInt64) : Bool :=
  if isNaN f then false
  else if !intFitsFloat i then
    if 2 ^ 63 * unit ≤ value f then true
    else if -2 ^ 63 * unit ≤ value f then decide (i ≤ (value f).tdiv unit)
    else false
  else decide (i * unit ≤ value f)

/-- `LTnum`. -/
def ltNum : LuaNumber → LuaNumber → Bool
  | .integer i, .integer j => decide (i < j)
  | .integer i, .float g => ltIntFloat i g
  | .float f, .float g => !isNaN f && !isNaN g && decide (value f < value g)
  | .float f, .integer j => !isNaN f && !leIntFloat j f

/-! ## Strings -/

/-- The conversion to `int`. -/
def toInt32 (x : Int) : Int := x.bmod (2 ^ 32)

/-- `strcoll` in the C locale, which is never changed. -/
def strcoll (l r : Str) : Int :=
  if cString l < cString r then -1 else if cString l = cString r then 0 else 1

/-- The loop of `l_strcmp` over the segments. -/
def lStrcmpLoop : Nat → Str → Str → Int
  | 0, _, _ => 0
  | n + 1, l, r =>
    let temp := strcoll l r
    if temp ≠ 0 then temp
    else
      let len := (cString l).length
      if len = r.length then if len = l.length then 0 else 1
      else if len = l.length then -1
      else lStrcmpLoop n (l.drop (len + 1)) (r.drop (len + 1))

/-- `l_strcmp`. The difference of the lengths wraps around. -/
def lStrcmp (l r : Str) : Int :=
  if l.length ≠ r.length then toInt32 (toInt32 l.length - toInt32 r.length)
  else lStrcmpLoop (l.length + 1) l r

end Achain.Glua
