import Achain.Glua.TypeInfo

/-!
# The type checker

Types are merged where a variable takes values of two of them, and a declared type is compared with the type
of the value it is given.
-/

namespace Achain.Glua

open TypeHeap

/-- The type `guess_exp_type` gives a literal, which keeps the token. -/
def literalTokenType (token : GluaParserToken) : Option GluaTypeInfo :=
  let etype : Option GluaTypeInfoEnum :=
    match token.type with
    | .ltkInt => some .ltiInt
    | .ltkFlt => some .ltiNumber
    | .ltkNil => some .ltiNil
    | .ltkTrue | .ltkFalse => some .ltiBool
    | .ltkString => some .ltiString
    | _ => none
  etype.map fun etype => { etype, isLiteralTokenValue := true, literalValueToken := token }

/-! ## Merging -/

/-- The literals of two literal types, each once. -/
def mergeOptions (options1 options2 : List GluaParserToken) : List GluaParserToken :=
  options2.foldl (fun options item =>
    if options.any fun item1 => item1.type = item.type && item1.token = item.token then options
    else options ++ [item]) options1

/-- `merge_union_types`, which changes the first or the second type in place where it is a union, and the
first where both are literal types. -/
def mergeUnionTypes (h : TypeHeap) (type1 type2 : TypeRef) : TypeHeap × TypeRef :=
  let newTypeInfo := h.length
  let h := h.create {}
  let t1 := h.deref type1
  let t2 := h.deref type2
  if t1.etype = .ltiUndefined then (h.store newTypeInfo (copyLuaTypeInfo {} t2), newTypeInfo)
  else if t1.isUnion then
    if t1.unionTypes = [] ∧ t2.isLiteralType then
      let t := copyLuaTypeInfo {} t2
      ((h.store newTypeInfo t).store type1 (copyLuaTypeInfo t1 t), newTypeInfo)
    else if !t2.isUnion then
      (h.store type1 { t1 with unionTypes := t1.unionTypes.insert type2 }, type1)
    else
      (h.store type1 { t1 with unionTypes := t2.unionTypes.foldl (fun l u => l.insert u) t1.unionTypes },
        type1)
  else if t2.isUnion then
    if t2.unionTypes = [] ∧ t1.isLiteralType then
      let t := copyLuaTypeInfo {} t1
      ((h.store newTypeInfo t).store type1 (copyLuaTypeInfo t1 t), newTypeInfo)
    else (h.store type2 { t2 with unionTypes := t2.unionTypes.insert type1 }, type2)
  else if t1.isLiteralType && t2.isLiteralType then
    let t : GluaTypeInfo :=
      { etype := .ltiLiteralType
        literalTypeOptions := mergeOptions t1.literalTypeOptions t2.literalTypeOptions }
    ((h.store newTypeInfo t).store type1 (copyLuaTypeInfo t1 t), newTypeInfo)
  else if t1.etype = t2.etype then (h, type2)
  else if t1.isRecord && t2.isNarrowTable then (h, type1)
  else (h.store newTypeInfo { etype := .ltiUnion, unionTypes := [type1, type2] }, newTypeInfo)

/-! ## Comparing -/

section Match

variable (h : TypeHeap) (isMatch : TypeRef → TypeRef → Bool → Bool)

/-- `is_same_record`. -/
def isSameRecord (declareType realType : TypeRef) : Bool :=
  let declare := h.deref declareType
  let real := h.deref realType
  declareType = realType ||
    declare.isRecord && real.isRecord &&
      (declare.recordName = real.recordName || declare.recordOriginName = real.recordOriginName) &&
      declare.recordProps.length = real.recordProps.length &&
      declare.recordAllGenerics.length = real.recordAllGenerics.length &&
      declare.recordGenerics.length = real.recordGenerics.length &&
      declare.recordAppliedGenerics.length = real.recordAppliedGenerics.length

/-- Two item types. A null pointer is not one. -/
def matchItems (declareItem realItem : Option TypeRef) (typeUp : Bool) : Bool :=
  declareItem.any fun d => realItem.any fun r => isMatch d r typeUp

def isObject (item : Option TypeRef) : Bool := item.any fun p => (h.deref p).etype = .ltiObject

/-- Two types that are like tables, as in the table of the source. -/
def matchTables (declareType realType : TypeRef) (typeUp : Bool) : Bool :=
  let declare := h.deref declareType
  let real := h.deref realType
  if declare.isNarrowTable then true
  else if declare.isRecord then
    if real.isNarrowTable || real.isMap then true
    else if real.isArray then false
    else isSameRecord h declareType realType
  else if declare.isMap then
    if real.isNarrowTable then true
    else if real.isRecord then false
    else if real.isMap && isObject h real.mapItemType && real.isLiteralEmptyTable then true
    else if real.isArray then false
    else matchItems isMatch declare.mapItemType real.mapItemType typeUp
  else
    if real.isNarrowTable then true
    else if real.isArray && isObject h real.arrayItemType && real.isLiteralEmptyTable then true
    else if real.isRecord then false
    else if real.isMap then false
    else matchItems isMatch declare.arrayItemType real.arrayItemType typeUp

/-- A declared union: each member of it against some member of a union as large, or one member. -/
def matchUnion (declare real : GluaTypeInfo) (realType : TypeRef) : Bool :=
  if real.isUnion then
    declare.unionTypes.length = real.unionTypes.length &&
      declare.unionTypes.all fun item1 => real.unionTypes.any fun item2 => isMatch item1 item2 true
  else declare.unionTypes.any fun item => isMatch item realType true

/-- A declared literal type: the literals of another, or a single token. -/
def matchLiteral (declare real : GluaTypeInfo) : Bool :=
  declare.matchLiteralType real ||
    real.isLiteralTokenValue && real.isLiteralItemType && declare.matchLiteralValue real.literalValueToken

/-- Two types of one kind. -/
def matchSameKind (declareType realType : TypeRef) : Bool :=
  let declare := h.deref declareType
  let real := h.deref realType
  match declare.etype with
  | .ltiRecord =>
    isSameRecord h declareType realType &&
      declare.recordProps.all fun p => (real.recordProps.lookup p.1).any fun other => isMatch p.2 other true
  | .ltiArray => matchItems isMatch declare.arrayItemType real.arrayItemType true
  | .ltiMap => matchItems isMatch declare.mapItemType real.mapItemType true
  | .ltiFunction =>
    declare.isAnyFunction ||
      declare.argTypes.length = real.argTypes.length && declare.retTypes.length = real.retTypes.length &&
        ((declare.argTypes.zip real.argTypes).all fun p => isMatch p.1 p.2 true) &&
        (declare.retTypes.zip real.retTypes).all fun p => isMatch p.1 p.2 true
  | _ => true

/-- One comparison, with the ones it makes. -/
def matchStep (declareType realType : TypeRef) (typeUp : Bool) : Bool :=
  let declare := h.deref declareType
  let real := h.deref realType
  if declareType = realType then true
  else if real.isNil then true
  else if declare.etype = .ltiObject then true
  else if declare.etype = .ltiNumber ∧ real.etype = .ltiInt then true
  else if typeUp ∧ declare.etype = .ltiInt ∧ real.etype = .ltiNumber then false
  else if declare.isLikeTable && real.isLikeTable then matchTables h isMatch declareType realType typeUp
  else if (declare.isNarrowTable || declare.isMap) && (real.isRecord || real.isArray || real.isMap) then true
  else if (declare.isRecord || real.isArray || real.isMap) && (real.isNarrowTable || real.isMap) then true
  else if declare.isUnion then matchUnion isMatch declare real realType
  else if declare.isLiteralType then matchLiteral declare real
  else if real.isLiteralType then declare.isLiteralItemType && real.containsLiteralItemType declare
  else if declare.isNarrowTable && (real.isArray || real.isMap) ||
      (declare.isArray || declare.isMap) && real.isNarrowTable then true
  else if declare.etype ≠ real.etype then false
  else matchSameKind h isMatch declareType realType

end Match

/-- `match_declare_type`, with as many comparisons inside of each other as the stack holds. -/
def matchDeclareType (h : TypeHeap) : Nat → TypeRef → TypeRef → Bool → Bool
  | 0 => fun _ _ _ => false
  | depth + 1 => matchStep h (matchDeclareType h depth)

end Achain.Glua
