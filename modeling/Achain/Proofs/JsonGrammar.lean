import Achain.Glua.Json

/-!
# The JSON values that tokens spell

A value is spelled by the tokens from one position to before another one, whatever stands at the other
positions. Integer tokens are decimal numerals of 64 bits; numbers with a fraction are tokens too. What
a value denotes in the VM is built by the assignments that it lists, one after the other.
-/

namespace Achain.Glua

inductive Json where
  | null
  | boolean (b : Bool)
  | integer (i : Int64)
  | float (text : Str)
  | string (s : Str)
  | array (items : List Json)
  | object (members : List (Str × Json))

/-- A decimal numeral of 64 bits. -/
def isNumeral (s : Str) : Bool := s.all isDigit && decide (Nat.ofDigitChars 10 s 0 < 2 ^ 63)

namespace Json

def ofWord (s : Str) : Option Json :=
  if s = ['t', 'r', 'u', 'e'] then some (.boolean true)
  else if s = ['f', 'a', 'l', 's', 'e'] then some (.boolean false)
  else if s = ['n', 'u', 'l', 'l'] then some .null
  else none

/-- The value that a single token spells. -/
def ofToken (t : GluaParserToken) : Option Json :=
  match t.type with
  | .ltkInt =>
    if isNumeral t.token then some (.integer (Int64.ofInt (Nat.ofDigitChars 10 t.token 0))) else none
  | .ltkFlt => some (.float t.token)
  | .ltkString => some (.string t.token)
  | .ltkTrue | .ltkFalse | .ltkName => ofWord t.token
  | _ => none

variable (tok : Nat → GluaParserToken)

mutual

/-- The tokens from `i` to before `j` spell the value. -/
inductive Spells : Nat → Nat → Json → Prop
  | token {i : Nat} {v : Json} : ofToken (tok i) = some v → Spells i (i + 1) v
  | emptyArray {i : Nat} : (tok i).type = .char '[' → (tok (i + 1)).type = .char ']' →
      Spells i (i + 2) (.array [])
  | array {i j : Nat} {items : List Json} : (tok i).type = .char '[' → SpellsItems (i + 1) j items →
      Spells i j (.array items)
  | emptyObject {i : Nat} : (tok i).type = .char '\x7b' → (tok (i + 1)).type = .char '\x7d' →
      Spells i (i + 2) (.object [])
  | object {i j : Nat} {members : List (Str × Json)} : (tok i).type = .char '\x7b' →
      SpellsMembers (i + 1) j members → Spells i j (.object members)

/-- They spell items up to the closing bracket. -/
inductive SpellsItems : Nat → Nat → List Json → Prop
  | last {i j : Nat} {v : Json} : Spells i j v → (tok j).type = .char ']' → SpellsItems i (j + 1) [v]
  | more {i j k : Nat} {v : Json} {items : List Json} : Spells i j v → (tok j).type = .char ',' →
      SpellsItems (j + 1) k items → SpellsItems i k (v :: items)

/-- They spell members, a key and a value each, up to the closing brace. -/
inductive SpellsMembers : Nat → Nat → List (Str × Json) → Prop
  | last {i j : Nat} {v : Json} : (tok i).type = .ltkString → (tok (i + 1)).type = .char ':' →
      Spells (i + 2) j v → (tok j).type = .char '\x7d' → SpellsMembers i (j + 1) [((tok i).token, v)]
  | more {i j k : Nat} {v : Json} {members : List (Str × Json)} : (tok i).type = .ltkString →
      (tok (i + 1)).type = .char ':' → Spells (i + 2) j v → (tok j).type = .char ',' →
      SpellsMembers (j + 1) k members → SpellsMembers i k (((tok i).token, v) :: members)

end

variable {tok}

mutual

theorem Spells.lt {i j : Nat} {v : Json} (h : Spells tok i j v) : i < j :=
  match h with
  | .token _ => Nat.lt_succ_self i
  | .emptyArray _ _ => by omega
  | .array _ hitems => (Nat.lt_succ_self i).trans (SpellsItems.lt hitems)
  | .emptyObject _ _ => by omega
  | .object _ hmembers => (Nat.lt_succ_self i).trans (SpellsMembers.lt hmembers)

theorem SpellsItems.lt {i j : Nat} {items : List Json} (h : SpellsItems tok i j items) : i < j :=
  match h with
  | .last hv _ => (Spells.lt hv).trans (Nat.lt_succ_self _)
  | .more hv _ hitems => (Spells.lt hv).trans ((Nat.lt_succ_self _).trans (SpellsItems.lt hitems))

theorem SpellsMembers.lt {i j : Nat} {members : List (Str × Json)} (h : SpellsMembers tok i j members) :
    i < j :=
  match h with
  | .last _ _ hv _ => by
    have := Spells.lt hv
    omega
  | .more _ _ hv _ hmembers => by
    have := Spells.lt hv
    have := SpellsMembers.lt hmembers
    omega

end

/-! ## What a value denotes -/

variable (F : NumberFormat)

mutual

def denote : Json → LuaValue
  | .null => .nil
  | .boolean b => .boolean b
  | .integer i => .integer i
  | .float text => .number (F.read text)
  | .string s => .string s
  | .array items => .table (assignItems 0 [] items)
  | .object members => .table (assignMembers [] members)

/-- Arrays have a maximal size. -/
def assignItems (count : Nat) (entries : List (LuaKey × LuaValue)) : List Json → List (LuaKey × LuaValue)
  | [] => entries
  | v :: items =>
    if count < maxSupportArraySize then
      assignItems (count + 1) (setEntry (.integer (count + 1 : Nat)) (denote v) entries) items
    else entries

def assignMembers (entries : List (LuaKey × LuaValue)) : List (Str × Json) → List (LuaKey × LuaValue)
  | [] => entries
  | (key, v) :: members => assignMembers (setEntry (.string key) (denote v) entries) members

end

mutual

/-- What is stored of a value. -/
def storage : Json → GluaStorageValue
  | .null => .null
  | .boolean b => .bool b
  | .integer i => .int i
  | .float text => .number (F.read text)
  | .string s => .string s
  | .array items => .table .unknownArray (storeItems 0 [] items)
  | .object members => .table .unknownTable (storeMembers [] members)

def storeItems (count : Nat) (map : List (Str × GluaStorageValue)) :
    List Json → List (Str × GluaStorageValue)
  | [] => map
  | v :: items => storeItems (count + 1) (tableMapSet (decimal (count + 1 : Nat)) (storage v) map) items

def storeMembers (map : List (Str × GluaStorageValue)) :
    List (Str × Json) → List (Str × GluaStorageValue)
  | [] => map
  | (key, v) :: members => storeMembers (tableMapSet key (storage v) map) members

end

end Json

end Achain.Glua
