import Achain.Glua.Machine

/-!
# The metatable of contracts

Assignments to a contract that its table has no field for go to `__newindex`, which keeps them in the
`_data` table and is meant to refuse a second value for the id, the name and the storage. The `_data`
field itself and the functions of the contract are fields of the table, so that assignments to them
do not come here. A value is an element of any type, and `none` for nil.
-/

namespace Achain.Glua

open Table

/-- A key, as far as the library looks at it. `other` is a key that is no string and no number. -/
inductive ContractKey where
  | string (s : Str)
  | integer (i : Int64)
  | number (bits : UInt64)
  | other

/-- A pointer to characters that end before the first null: those of a Lua string, which the
collector manages, or of a literal of the program. -/
inductive CharPointer where
  | luaString (chars : Str)
  | literal (chars : Str)
  deriving DecidableEq

namespace CharPointer

/-- The characters up to the first null. -/
def chars : CharPointer → Str
  | luaString s | literal s => s.takeWhile (· ≠ Char.ofNat 0)

end CharPointer

/-- `_data`. -/
structure ContractTable (V : Type) where
  data : Tab Str V

inductive Assigned where
  | done | argumentError | readOnlyError
  deriving DecidableEq

namespace ContractTable

variable {V : Type} (numberText : UInt64 → Str)

/-- `luaL_checkstring`: numbers are converted, other values raise an error. -/
def checkString : ContractKey → Option CharPointer
  | .string s => some (.luaString s)
  | .integer i => some (.luaString (toString i).toList)
  | .number bits => some (.luaString (numberText bits))
  | .other => none

/-- `lua_setfield` of a table without a metatable. -/
def setField (fields : Tab Str V) (key : Str) : Option V → Tab Str V
  | none => fields.erase key
  | some v => fields.insert key v

variable (t : ContractTable V)

/-- `glua_core_lib_contract_metatable_index`: `none` is the error of `luaL_checkstring`. -/
def contractMetatableIndex (k : ContractKey) : Option (Option V) :=
  (checkString numberText k).map fun key => t.data.lookup key.chars

/-- `glua_core_lib_contract_metatable_newindex`. The key is compared with the literals as a pointer. -/
def contractMetatableNewindex (k : ContractKey) (v : Option V) : ContractTable V × Assigned :=
  match checkString numberText k with
  | none => (t, .argumentError)
  | some key =>
    if key = .literal idField ∨ key = .literal nameField ∨ key = .literal storageField then
      match t.data.lookup key.chars with
      | none => (⟨setField t.data key.chars v⟩, .done)
      | some _ => (t, .readOnlyError)
    else (⟨setField t.data key.chars v⟩, .done)

end ContractTable

end Achain.Glua
