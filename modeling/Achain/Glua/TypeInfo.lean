import Achain.Glua.TokenParser

/-!
# Type infos

The type checker describes types by objects that point to each other and are shared. The objects created so
far are a list, and a pointer is a position in it.
-/

namespace Achain.Glua

inductive GluaTypeInfoEnum where
  | ltiObject | ltiNil | ltiString | ltiInt | ltiNumber | ltiBool | ltiTable | ltiFunction | ltiUnion
  | ltiRecord | ltiGeneric | ltiArray | ltiMap | ltiLiteralType | ltiStream | ltiUndefined
  deriving DecidableEq

/-- `GluaTypeInfoP`. -/
abbrev TypeRef := Nat

/-- A type object. The members of a union are a set and the properties of a record a map, in some order of
iteration. -/
structure GluaTypeInfo where
  etype : GluaTypeInfoEnum := .ltiObject
  argNames : List Str := []
  argTypes : List TypeRef := []
  retTypes : List TypeRef := []
  isOffline : Bool := false
  declared : Bool := false
  isAnyFunction : Bool := false
  isAnyContract : Bool := false
  isStreamType : Bool := false
  isLiteralTokenValue : Bool := false
  literalValueToken : GluaParserToken := eofToken
  recordProps : List (Str × TypeRef) := []
  recordDefaultValues : List (Str × Str) := []
  recordName : Str := []
  recordOriginName : Str := []
  recordGenerics : List TypeRef := []
  recordAllGenerics : List TypeRef := []
  recordAppliedGenerics : List TypeRef := []
  genericName : Str := []
  arrayItemType : Option TypeRef := none
  mapItemType : Option TypeRef := none
  isLiteralEmptyTable : Bool := false
  literalTypeOptions : List GluaParserToken := []
  unionTypes : List TypeRef := []
  deriving DecidableEq

namespace GluaTypeInfo

variable (t : GluaTypeInfo)

def isNumber : Bool := t.etype = .ltiInt || t.etype = .ltiNumber
def isBool : Bool := t.etype = .ltiBool || t.etype = .ltiNil
def isString : Bool := t.etype = .ltiString
def isNil : Bool := t.etype = .ltiNil
def isUnion : Bool := t.etype = .ltiUnion
def isRecord : Bool := t.etype = .ltiRecord
def isArray : Bool := t.etype = .ltiArray
def isMap : Bool := t.etype = .ltiMap
def isNarrowTable : Bool := t.etype = .ltiTable
def isLiteralType : Bool := t.etype = .ltiLiteralType
def isLiteralItemType : Bool := t.isString || t.isNumber || t.isBool || t.isNil
def isLikeTable : Bool := t.isNarrowTable || t.isMap || t.isArray || t.isRecord

/-- `match_literal_type` of two objects. -/
def matchLiteralType (valueType : GluaTypeInfo) : Bool :=
  t.isLiteralType && valueType.isLiteralType &&
    valueType.literalTypeOptions.length ≤ t.literalTypeOptions.length &&
    valueType.literalTypeOptions.all fun valueToken =>
      t.literalTypeOptions.any fun item => item.type = valueToken.type && item.token = valueToken.token

def matchLiteralValue (valueToken : GluaParserToken) : Bool :=
  t.isLiteralType && t.literalTypeOptions.any fun item =>
    item.type = valueToken.type && item.token = valueToken.token &&
      item.sourceToken = valueToken.sourceToken

/-- Whether a literal is of a basic type. -/
def fitsLiteral (item : GluaParserToken) : Bool :=
  t.isString && item.type = .ltkString ||
    t.isNumber && (item.type = .ltkInt || item.type = .ltkFlt) ||
    t.isBool && (item.type = .ltkTrue || item.type = .ltkFalse) ||
    t.isNil && item.type = .ltkNil

/-- `contains_literal_item_type`, which holds as soon as one literal fits. -/
def containsLiteralItemType (valueType : GluaTypeInfo) : Bool :=
  t.isLiteralType && valueType.isLiteralItemType && t.literalTypeOptions.any valueType.fitsLiteral

end GluaTypeInfo

/-! ## The objects -/

/-- The type objects that have been created. -/
abbrev TypeHeap := List GluaTypeInfo

namespace TypeHeap

variable (h : TypeHeap)

def deref (p : TypeRef) : GluaTypeInfo := (h[p]?).getD {}

/-- The objects with one of them changed. -/
def store (p : TypeRef) (t : GluaTypeInfo) : TypeHeap := List.set h p t

/-- `create_lua_type_info` with the fields of the new object. -/
def create (t : GluaTypeInfo) : TypeHeap := h ++ [t]

variable {h} {p q : TypeRef} {t : GluaTypeInfo}

theorem deref_store_self (hp : p < h.length) : (h.store p t).deref p = t := by
  simp [deref, store, hp]

theorem deref_store_ne (hq : q ≠ p) : (h.store p t).deref q = h.deref q := by
  simp [deref, store, List.getElem?_set_ne hq.symm]

theorem deref_create_of_lt (hp : p < h.length) : (h.create t).deref p = h.deref p := by
  simp [deref, create, List.getElem?_append_left hp]

@[simp] theorem length_store : (h.store p t).length = h.length := List.length_set

@[simp] theorem length_create : (h.create t).length = h.length + 1 := by
  simp [create]

end TypeHeap

/-- `copy_lua_type_info`, which leaves two flags of the destination as they are. -/
def copyLuaTypeInfo (dest src : GluaTypeInfo) : GluaTypeInfo :=
  { src with isAnyContract := dest.isAnyContract, isStreamType := dest.isStreamType }

end Achain.Glua
