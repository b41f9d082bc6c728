import Achain.Glua.Json

/-!
# Runs of the token parser

The loops of `GluaTokenParser` pass by pass, with no limit to how many passes there are. A run is always
in one loop, and knows what to do after it. What only records an error goes on: a long string that
fails gives the last token again, and leaves the buffer full. `json.loads` reads a value from the
tokens of a run.
-/

namespace Achain.Glua

/-- What the equals signs after a bracket are counted for. -/
inductive SepUse where
  | comment
  | bracket
  | closing (isString : Bool) (sep : Int) (line : Nat)
  deriving DecidableEq

/-- The loop that a run is in: of `parse`, of `_parse_next_token`, or of what reads a kind of token. -/
inductive Reading where
  | tokens
  | token
  | name
  | numeral (dotexist : Bool)
  | string (delimiter : Char) (literal : Str)
  | utf8 (delimiter : Char) (literal : Str) (r : Int)
  | sep (s : Char) (count : Int) (use : SepUse)
  | long (isString : Bool) (sep : Int) (line : Nat)
  deriving DecidableEq

structure TokenRun where
  cycleCount : Nat
  parser : GluaTokenParser
  reading : Reading

/-- What ends a run, other than that it returns: an exception, or a look at the last of no tokens. -/
inductive RunFailure where
  | thrown (e : TokenError)
  | noLastToken
  deriving DecidableEq

/-- What a pass does: it goes on, or the run returns. -/
abbrev RunPass := Except RunFailure (TokenRun ⊕ GluaTokenParser)

namespace TokenRun

def start (code : Str) : TokenRun := ⟨0, .start code, .tokens⟩

variable (cycles : Nat) (p : GluaTokenParser)

/-- `_parse_next_token` returns a token to `parse`. -/
def got (token : GluaParserToken) : RunPass :=
  if token.type = .ltkEos then .ok (.inr p) else .ok (.inl ⟨cycles, p, .tokens⟩)

/-- `_parse_next_token` returns the token that has been pushed. -/
def gotLast : RunPass := got cycles p p.lastToken

/-- A pass of `parse`, with how `_parse_next_token` begins. -/
def tokensPass : RunPass :=
  if p.rest.isEmpty || 1000000 ≤ cycles then .ok (.inr p)
  else
    let p := { p with cycleCount := p.cycleCount + 1 }
    if GluaTokenParser.endCycle p.cycleCount then got (cycles + 1) p eofToken
    else .ok (.inl ⟨cycles + 1, p, .token⟩)

def namePass : RunPass :=
  let p := p.saveCurrent
  if isNameChar p.currentChar then .ok (.inl ⟨cycles, p, .name⟩)
  else gotLast cycles (p.pushNewToken .ltkName 0)

def numeralPass (dotexist : Bool) : RunPass :=
  match GluaTokenParser.numeralPass (p, dotexist) with
  | .error e => .error (.thrown e)
  | .ok (.inl (p, dotexist)) => .ok (.inl ⟨cycles, p, .numeral dotexist⟩)
  | .ok (.inr (p, isFloat)) =>
    gotLast cycles ((p.saveToBuff nullChar).pushNewToken (if isFloat then .ltkFlt else .ltkInt) 0)

/-- How `_read_string` ends. -/
def endString (literal : Str) : GluaTokenParser :=
  let literal := literal ++ [p.currentChar]
  let p := p.saveCurrent.pushNewToken .ltkString 0
  let token := p.lastToken
  let token := { token with
    token := token.token.tail.take (token.token.length - 2)
    sourceToken := literal }
  { p with tokens := p.tokens.dropLast ++ [token] }

def stringPass (delimiter : Char) (literal : Str) : RunPass :=
  let c := p.currentChar
  if c == delimiter then gotLast cycles (endString p literal)
  else
    let literal := if c != '\\' || p.nextTokenChar != 'z' then literal ++ [c] else literal
    if c == eofTokenChar || isNewLineStart c then .error (.thrown .unfinishedString)
    else if c == '\\' then
      let p := p.saveCurrent
      if p.currentChar == 'u' then
        let p := p.advance.unsave
        if p.currentChar != '\x7b' then .error (.thrown .utf8NeedsBrace)
        else
          let p := p.advance
          .ok (.inl ⟨cycles, p, .utf8 delimiter (literal ++ ['u', '\x7b'])
            (hexcharToBase10 p.currentChar)⟩)
      else match p.escape literal with
        | .error e => .error (.thrown e)
        | .ok (p, literal) => .ok (.inl ⟨cycles, p, .string delimiter literal⟩)
    else .ok (.inl ⟨cycles, p.saveCurrent, .string delimiter literal⟩)

def utf8Pass (delimiter : Char) (literal : Str) (r : Int) : RunPass :=
  match GluaTokenParser.utf8Pass ((p, literal), r) with
  | .error e => .error (.thrown e)
  | .ok (.inl ((p, literal), r)) => .ok (.inl ⟨cycles, p, .utf8 delimiter literal r⟩)
  | .ok (.inr (p, literal)) =>
    if p.currentChar != '\x7d' then .error (.thrown .utf8MissesBrace)
    else .ok (.inl ⟨cycles, p.advance, .string delimiter (literal ++ ['\x7d'])⟩)

/-! ## Long strings and comments -/

/-- `_read_long_string` returns at its end. -/
def endLong (isString : Bool) (line : Nat) : RunPass :=
  if isString then gotLast cycles (p.pushNewToken .ltkString line)
  else .ok (.inl ⟨cycles, p.resetParseBuff, .token⟩)

/-- `_read_long_string` returns before its end. Where a string should be, the last token is taken. -/
def leaveLong (isString : Bool) : RunPass :=
  if isString then
    if p.tokens.isEmpty then .error .noLastToken else gotLast cycles p
  else .ok (.inl ⟨cycles, p.resetParseBuff, .token⟩)

/-- How `_read_long_string` begins. -/
def enterLong (isString : Bool) (sep : Int) : RunPass :=
  let p := { p with cycleCount := p.cycleCount + 1 }
  if GluaTokenParser.endCycle p.cycleCount then leaveLong cycles p isString
  else
    let line := p.parsingLinenumber
    let p := p.saveCurrent
    let p := if isNewLineStart p.currentChar then p.incLine else p
    .ok (.inl ⟨cycles, p, .long isString sep line⟩)

/-- A pass of `_read_long_string` over a character. -/
def longCharPass (isString : Bool) (sep : Int) (line : Nat) : RunPass :=
  let c := p.currentChar
  if c == eofTokenChar then leaveLong cycles p isString
  else if c == ']' then
    if !isString && p.nextTokenChar == ']' then
      endLong cycles p.saveCurrent.saveCurrent isString line
    else .ok (.inl ⟨cycles, p.saveCurrent, .sep c 0 (.closing isString sep line)⟩)
  else if isNewLineStart c then
    .ok (.inl ⟨cycles, (p.saveToBuff c).incLine, .long isString sep line⟩)
  else .ok (.inl ⟨cycles, p.saveCurrent, .long isString sep line⟩)

/-- A pass of `_read_long_string`. A string that fills the buffer is left, and a comment is not kept. -/
def longPass (isString : Bool) (sep : Int) (line : Nat) : RunPass :=
  if p.rest.isEmpty then endLong cycles p isString line
  else if !p.full then longCharPass cycles p isString sep line
  else if isString then leaveLong cycles p isString
  else longCharPass cycles p.resetParseBuff isString sep line

def shortComment : GluaTokenParser := { p with
  rest := p.rest.dropWhile fun c => !isNewLineStart c && c != eofTokenChar }

/-- What `_skip_sep` returns. -/
def sepCount (s : Char) (count : Int) : Int := if p.currentChar == s then count else -count - 1

/-- A pass of `_skip_sep`, and what its result is used for. -/
def sepPass (s : Char) (count : Int) (use : SepUse) : RunPass :=
  if p.currentChar == '=' then
    .ok (.inl ⟨cycles, p.saveToBuffAndNext '=', .sep s (count + 1) use⟩)
  else
    let sep := sepCount p s count
    match use with
    | .comment =>
      if 0 ≤ sep then enterLong cycles p false sep
      else .ok (.inl ⟨cycles, shortComment p, .token⟩)
    | .bracket =>
      if 0 ≤ sep then enterLong cycles p true sep
      else if sep ≠ -1 then .error (.thrown .invalidLongStringDelimiter)
      else gotLast cycles (p.pushNewToken (.char '[') 0)
    | .closing isString opened line =>
      if sep = opened then endLong cycles p.saveCurrent isString line
      else if isString then .ok (.inl ⟨cycles, p.saveCurrent, .long isString opened line⟩)
      else .ok (.inl ⟨cycles, p.advance, .long isString opened line⟩)

/-! ## Tokens -/

/-- A pass of `_parse_next_token`. A token with no loop of its own is read as `tokenPass` does. -/
def tokenPass : RunPass :=
  if p.rest.isEmpty then got cycles p eofToken
  else
    let c := p.currentChar
    if c == '-' && p.nextTokenChar == '-' then
      let p := p.advance.advance
      if p.currentChar == '[' then .ok (.inl ⟨cycles, p.saveCurrent, .sep '[' 0 .comment⟩)
      else .ok (.inl ⟨cycles, shortComment p, .token⟩)
    else if c == '[' then .ok (.inl ⟨cycles, p.saveCurrent, .sep '[' 0 .bracket⟩)
    else if c == '"' || c == '\'' then .ok (.inl ⟨cycles, p.saveCurrent, .string c [c]⟩)
    else if isDigit c then .ok (.inl ⟨cycles, p.saveCurrent, .numeral false⟩)
    else if isAlpha c || c == '_' then .ok (.inl ⟨cycles, p, .name⟩)
    else match p.tokenPass with
      | .error e => .error (.thrown e)
      | .ok (.inl p) => .ok (.inl ⟨cycles, p, .token⟩)
      | .ok (.inr (p, token)) => got cycles p token

/-- A pass of the loop that a run is in. -/
def pass (r : TokenRun) : RunPass :=
  match r.reading with
  | .tokens => tokensPass r.cycleCount r.parser
  | .token => tokenPass r.cycleCount r.parser
  | .name => namePass r.cycleCount r.parser
  | .numeral dotexist => numeralPass r.cycleCount r.parser dotexist
  | .string delimiter literal => stringPass r.cycleCount r.parser delimiter literal
  | .utf8 delimiter literal v => utf8Pass r.cycleCount r.parser delimiter literal v
  | .sep s count use => sepPass r.cycleCount r.parser s count use
  | .long isString sep line => longPass r.cycleCount r.parser isString sep line

/-- `parse` returns, or throws. -/
def ParseEnds (code : Str) : Prop :=
  ∃ r, Loops.Reaches pass (start code) r ∧
    ((∃ p, pass r = .ok (.inr p)) ∨ ∃ e, pass r = .error (.thrown e))

end TokenRun

/-! ## Reading a value -/

variable (F : NumberFormat)

mutual

/-- `tokens_to_lua_value` in so many calls and passes, with nothing where that many do not do. -/
def valueWithin : Nat → List GluaParserToken →
    Option (Option (GluaStorageValue × List GluaParserToken))
  | 0, _ => none
  | _, [] => some none
  | n + 1, t :: tokens =>
    if tokens.isEmpty || (t.type ≠ .char '\x7b' && t.type ≠ .char '[') then
      some ((scalarValue F t).map fun v => (v, nextToken (t :: tokens)))
    else if t.type = .char '\x7b' then
      if (tokens.head?.map (·.type)) = some (.char '\x7d') then
        some (some (.table .unknownTable [], nextToken tokens))
      else objectWithin n [] tokens
    else
      if (tokens.head?.map (·.type)) = some (.char ']') then
        some (some (.table .unknownArray [], nextToken tokens))
      else arrayWithin n 0 [] tokens

def objectWithin : Nat → List (Str × GluaStorageValue) → List GluaParserToken →
    Option (Option (GluaStorageValue × List GluaParserToken))
  | 0, _, _ => none
  | _, _, [] => some none
  | n + 1, map, t :: tokens =>
    if t.type ≠ .ltkString then some none
    else
      let tokens := nextToken (t :: tokens)
      if (tokens.head?.map (·.type)) ≠ some (.char ':') then some none
      else match valueWithin n (nextToken tokens) with
        | none => none
        | some none => some none
        | some (some (v, tokens)) =>
          let map := tableMapSet t.token v map
          if (tokens.head?.map (·.type)) = some (.char ',') then
            objectWithin n map (nextToken tokens)
          else if (tokens.head?.map (·.type)) = some (.char '\x7d') then
            some (some (.table .unknownTable map, nextToken tokens))
          else some none

def arrayWithin : Nat → Nat → List (Str × GluaStorageValue) → List GluaParserToken →
    Option (Option (GluaStorageValue × List GluaParserToken))
  | 0, _, _, _ => none
  | n + 1, count, map, tokens =>
    match valueWithin n tokens with
    | none => none
    | some none => some none
    | some (some (v, tokens)) =>
      let count := count + 1
      let map := tableMapSet (decimal count) v map
      if (tokens.head?.map (·.type)) = some (.char ',') then
        arrayWithin n count map (nextToken tokens)
      else if (tokens.head?.map (·.type)) = some (.char ']') then
        some (some (.table .unknownArray map, nextToken tokens))
      else some none

end

/-- `json.loads` returns to the contract, or an exception of the parser comes through. -/
def LoadsReturns (text : Str) : Prop :=
  ∃ r, Loops.Reaches TokenRun.pass (.start (cString text)) r ∧
    ((∃ p n v, TokenRun.pass r = .ok (.inr p) ∧ valueWithin F n p.tokens = some v) ∨
      ∃ e, TokenRun.pass r = .error (.thrown e))

end Achain.Glua
