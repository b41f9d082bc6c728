import Achain.Glua.Storage
import Achain.Glua.TokenParser

/-!
# Values as JSON

`json.dumps` copies a table into a map, in which it prints a table as an array if its keys look like
one. `json.loads` reads the tokens of a text, as `GluaTokenParser` finds them, into a map, and makes a
table of that.
-/

namespace Achain.Glua

inductive LuaKey where
  | integer (i : Int)
  | string (s : Str)
  deriving DecidableEq

/-- A value. The entries of a table are in the order of their keys as texts. -/
inductive LuaValue where
  | nil
  | boolean (b : Bool)
  | integer (i : Int64)
  | number (bits : UInt64)
  | string (s : Str)
  | stream (bytes : List UInt8)
  | table (entries : List (LuaKey × LuaValue))

/-- How floating point numbers are printed and read. -/
structure NumberFormat where
  print : UInt64 → Str
  read : Str → UInt64

/-- A string up to its first null. -/
def cString (s : Str) : Str := s.takeWhile (· != nullChar)

def decimal (i : Int) : Str :=
  if i < 0 then '-' :: Nat.toDigits 10 i.natAbs else Nat.toDigits 10 i.natAbs

/-! ## The map of a table -/

/-- `lua_table_less`. -/
def luaTableLess (a b : Str) : Bool :=
  if a.length != b.length then a.length < b.length else decide (a < b)

def tableMapSet (key : Str) (v : GluaStorageValue) :
    List (Str × GluaStorageValue) → List (Str × GluaStorageValue)
  | [] => [(key, v)]
  | e :: map =>
    if luaTableLess key e.1 then (key, v) :: e :: map
    else if luaTableLess e.1 key then e :: tableMapSet key v map
    else (e.1, v) :: map

namespace LuaKey

/-- The key of an entry in a map. -/
def text : LuaKey → Str
  | .integer i => decimal i
  | .string s => cString s

/-- A traversal comes to an index up to the length of the table before the other keys, and takes a key
for one if the last 32 bits of it are. -/
def isIndex (len : Nat) : LuaKey → Bool
  | .integer i => 0 < i && 0 ≤ i.bmod (2 ^ 32) && i.bmod (2 ^ 32) ≤ len
  | .string _ => false

end LuaKey

/-- `lua_len`: the keys from 1 on. -/
def luaLen (keys : List LuaKey) : Nat :=
  ((List.range keys.length).takeWhile fun i : Nat => decide (LuaKey.integer (i + 1) ∈ keys)).length

def packageKey : Str := ['p', 'a', 'c', 'k', 'a', 'g', 'e']

/-- `lua_table_to_map_traverser_with_nested`. -/
def addToMap (map : List (Str × GluaStorageValue)) (e : LuaKey × GluaStorageValue) :
    List (Str × GluaStorageValue) :=
  if e.1.text = packageKey then map else tableMapSet e.1.text e.2 map

/-- `luaL_traverse_table_with_nested`, of a table whose values have been converted. -/
def traverseTable (entries : List (LuaKey × GluaStorageValue)) : List (Str × GluaStorageValue) :=
  let len := luaLen (entries.map Prod.fst)
  let indexes := entries.filter fun e =>
    decide (∃ i ∈ List.range len, e.1 = LuaKey.integer (i + 1))
  let others := entries.filter fun e => !e.1.isIndex len
  (indexes ++ others).foldl addToMap []

def luaMapTraverserMaxDepth : Nat := 100

mutual

/-- `lua_type_to_storage_value_type_with_nested`. The depth goes up by two with every table. -/
def toStorageValue (depth : Nat) : LuaValue → GluaStorageValue
  | .nil => .null
  | .boolean b => if luaMapTraverserMaxDepth < depth then .null else .bool b
  | .integer i => if luaMapTraverserMaxDepth < depth then .null else .int i
  | .number x => if luaMapTraverserMaxDepth < depth then .null else .number x
  | .string s => if luaMapTraverserMaxDepth < depth then .null else .string (cString s)
  | .stream v => if luaMapTraverserMaxDepth < depth then .null else .stream v
  | .table entries =>
    let len := luaLen (entries.map Prod.fst)
    if luaMapTraverserMaxDepth < depth || 2 ^ 31 ≤ len then .null
    else .table (if 0 < len then .unknownArray else .unknownTable)
      (traverseTable (toStorageEntries (depth + 2) entries))

def toStorageEntries (depth : Nat) : List (LuaKey × LuaValue) → List (LuaKey × GluaStorageValue)
  | [] => []
  | (key, v) :: entries => (key, toStorageValue depth v) :: toStorageEntries depth entries

end

/-! ## Printing -/

/-- `std::stoi`, with nothing for what it throws at. -/
def stoi (s : Str) : Option Int :=
  let s := s.dropWhile isSpace
  let (negative, s) := match s with
    | '-' :: s => (true, s)
    | '+' :: s => (false, s)
    | s => (false, s)
  let digits := s.takeWhile isDigit
  let value : Int := if negative then -Nat.ofDigitChars 10 digits 0 else Nat.ofDigitChars 10 digits 0
  if digits.isEmpty || value < -2 ^ 31 || 2 ^ 31 ≤ value then none else some value

/-- The integer that a key is taken for. -/
def intKey (key : Str) : Option Int :=
  if key.isEmpty then none
  else if key = ['0'] then some 0
  else match stoi key with
    | some i => if i = 0 then none else some i
    | none => none

/-- The keys of a map are taken for those of an array. -/
def isArrayFormat (keys : List Str) : Bool :=
  match keys.mapM intKey with
  | none => false
  | some ints =>
    ints.mergeSort (fun a b => decide (a ≤ b)) == (List.range ints.length).map fun i : Nat => (i + 1 : Int)

/-- `replace_all` of a character from a position on. What is replaced is as many characters as the
position after the character found says. -/
def replaceAllFrom (c : Char) (target : Str) : Nat → Nat → Str → Str
  | 0, _, s => s
  | n + 1, start, s =>
    let pos := start + (s.drop start).findIdx (· == c)
    if s.length ≤ pos then s
    else replaceAllFrom c target n (pos + target.length) (s.take pos ++ target ++ s.drop (pos + (pos + 1)))

def replaceAll (s : Str) (c : Char) (target : Str) : Str := replaceAllFrom c target (s.length + 1) 0 s

def escapeString (s : Str) : Str :=
  replaceAll (replaceAll s '\\' ['\\', '\\']) '"' ['\\', '"']

variable (F : NumberFormat)

/-- A table as text, of the texts of its items. -/
def bracketed (isArray : Bool) (items : List Str) : Str :=
  (if isArray then ['['] else ['\x7b']) ++ [','].intercalate items ++
    (if isArray then [']'] else ['\x7d'])

def quoted (s : Str) : Str := ['"'] ++ escapeString s ++ ['"']

mutual

def jsonValue : GluaStorageValue → Str
  | .null => ['n', 'u', 'l', 'l']
  | .bool b => if b then ['t', 'r', 'u', 'e'] else ['f', 'a', 'l', 's', 'e']
  | .int i => decimal i.toInt
  | .number x => F.print x
  | .string s => quoted (cString s)
  -- the case of user data falls through to the default, which prints it again
  | .userdata => quoted ['u', 's', 'e', 'r', 'd', 'a', 't', 'a'] ++
      quoted ['u', 's', 'e', 'r', 'd', 'a', 't', 'a']
  | .stream _ | .notSupport => quoted ['u', 's', 'e', 'r', 'd', 'a', 't', 'a']
  | .table _ map =>
    let isArray := isArrayFormat (map.map Prod.fst)
    bracketed isArray (jsonItems isArray map)

def jsonItems (isArray : Bool) : List (Str × GluaStorageValue) → List Str
  | [] => []
  | (key, v) :: map =>
    ((if isArray then [] else quoted key ++ [':']) ++ jsonValue v) :: jsonItems isArray map

end

/-- `luatablemap_to_json_stream`. -/
def luatablemapToJsonStream (map : List (Str × GluaStorageValue)) : Str :=
  let isArray := isArrayFormat (map.map Prod.fst)
  bracketed isArray (jsonItems F isArray map)

/-- `json.dumps` of a table. -/
def dumps (entries : List (LuaKey × LuaValue)) : Str :=
  cString (luatablemapToJsonStream F (traverseTable (toStorageEntries 1 entries)))

/-! ## Reading -/

/-- `next`, which stays at the last token. -/
def nextToken : List GluaParserToken → List GluaParserToken
  | [] => []
  | [t] => [t]
  | _ :: tokens => tokens

/-- An integer read from a stream: of what begins with a digit, the digits are read. -/
def streamInt (s : Str) : Int64 :=
  Int64.ofInt (min (2 ^ 63 - 1) (Nat.ofDigitChars 10 (s.takeWhile isDigit) 0))

def scalarValue (t : GluaParserToken) : Option GluaStorageValue :=
  match t.type with
  | .ltkInt => some (.int (streamInt t.token))
  | .ltkFlt => some (.number (F.read t.token))
  | .ltkTrue | .ltkFalse | .ltkName =>
    if t.token = ['t', 'r', 'u', 'e'] then some (.bool true)
    else if t.token = ['f', 'a', 'l', 's', 'e'] then some (.bool false)
    else if t.token = ['n', 'u', 'l', 'l'] then some .null
    else none
  | .ltkString => some (.string t.token)
  | _ => none

mutual

/-- `tokens_to_lua_value`, with the tokens that the parser is left at. -/
def tokensToLuaValue : Nat → List GluaParserToken → Option (GluaStorageValue × List GluaParserToken)
  | 0, _ => none
  | _, [] => none
  | n + 1, t :: tokens =>
    if tokens.isEmpty || (t.type ≠ .char '\x7b' && t.type ≠ .char '[') then
      (scalarValue F t).map fun v => (v, nextToken (t :: tokens))
    else if t.type = .char '\x7b' then
      if (tokens.head?.map (·.type)) = some (.char '\x7d') then
        some (.table .unknownTable [], nextToken tokens)
      else objectLoop n [] tokens
    else
      if (tokens.head?.map (·.type)) = some (.char ']') then
        some (.table .unknownArray [], nextToken tokens)
      else arrayLoop n 0 [] tokens

def objectLoop : Nat → List (Str × GluaStorageValue) → List GluaParserToken →
    Option (GluaStorageValue × List GluaParserToken)
  | 0, _, _ => none
  | _, _, [] => none
  | n + 1, map, t :: tokens =>
    if t.type ≠ .ltkString then none
    else
      let tokens := nextToken (t :: tokens)
      if (tokens.head?.map (·.type)) ≠ some (.char ':') then none
      else match tokensToLuaValue n (nextToken tokens) with
        | none => none
        | some (v, tokens) =>
          let map := tableMapSet t.token v map
          if (tokens.head?.map (·.type)) = some (.char ',') then objectLoop n map (nextToken tokens)
          else if (tokens.head?.map (·.type)) = some (.char '\x7d') then
            some (.table .unknownTable map, nextToken tokens)
          else none

def arrayLoop : Nat → Nat → List (Str × GluaStorageValue) → List GluaParserToken →
    Option (GluaStorageValue × List GluaParserToken)
  | 0, _, _, _ => none
  | n + 1, count, map, tokens =>
    match tokensToLuaValue n tokens with
    | none => none
    | some (v, tokens) =>
      let count := count + 1
      let map := tableMapSet (decimal count) v map
      if (tokens.head?.map (·.type)) = some (.char ',') then arrayLoop n count map (nextToken tokens)
      else if (tokens.head?.map (·.type)) = some (.char ']') then
        some (.table .unknownArray map, nextToken tokens)
      else none

end

/-! ## The table of a map -/

namespace LuaKey

/-- The order of the entries of a table. -/
def less (a b : LuaKey) : Bool :=
  luaTableLess a.text b.text || (a.text = b.text && match a, b with
    | .integer _, .string _ => true
    | _, _ => false)

end LuaKey

/-- `lua_seti` and `lua_setfield` of a value that is not nil. -/
def putEntry (key : LuaKey) (v : LuaValue) : List (LuaKey × LuaValue) → List (LuaKey × LuaValue)
  | [] => [(key, v)]
  | e :: entries =>
    if key = e.1 then (key, v) :: entries
    else if key.less e.1 then (key, v) :: e :: entries
    else e :: putEntry key v entries

def setEntry (key : LuaKey) (v : LuaValue) (entries : List (LuaKey × LuaValue)) :
    List (LuaKey × LuaValue) :=
  match v with
  | .nil => entries.filter fun e => e.1 ≠ key
  | v => putEntry key v entries

def maxSupportArraySize : Nat := 10000000

/-- The items of an array are looked up one by one. -/
def pushArray (items : List (Str × LuaValue)) :
    Nat → Nat → List (LuaKey × LuaValue) → List (LuaKey × LuaValue)
  | 0, _, entries => entries
  | n + 1, count, entries =>
    match items.lookup (decimal (count + 1 : Nat)) with
    | none => entries
    | some v => pushArray items n (count + 1) (setEntry (.integer (count + 1 : Nat)) v entries)

mutual

/-- `lua_push_storage_value`. -/
def pushStorageValue : GluaStorageValue → LuaValue
  | .int i => .integer i
  | .bool b => .boolean b
  | .number x => .number x
  | .null => .nil
  | .string s => .string (cString s)
  | .stream v => .stream v
  | .table type map =>
    let items := pushItems map
    if type.isAnyArray then .table (pushArray items maxSupportArraySize 0 [])
    else .table (items.foldl (fun entries e => setEntry (.string (cString e.1)) e.2 entries) [])
  | .userdata | .notSupport => .nil

def pushItems : List (Str × GluaStorageValue) → List (Str × LuaValue)
  | [] => []
  | (key, v) :: map => (key, pushStorageValue v) :: pushItems map

end

/-- `json_to_lua` from the tokens of the text on. -/
def jsonToLua (tokens : List GluaParserToken) : Option LuaValue :=
  (tokensToLuaValue F (2 * tokens.length + 2) tokens).map fun r => pushStorageValue r.1

/-- `json.loads` of a text that parses, with nothing for an error. -/
def loads (text : Str) : Option LuaValue :=
  match GluaTokenParser.parse (cString text) with
  | .error _ => none
  | .ok p => (tokensToLuaValue F (2 * p.tokens.length + 2) p.tokens).map fun r => pushStorageValue r.1

end Achain.Glua
