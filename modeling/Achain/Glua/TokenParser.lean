import Achain.Lib.Loops
import Achain.Types

/-!
# The token parser

`GluaTokenParser` turns a text into tokens and prints tokens as a text. It reads a token into a buffer
of limited size; the text is what has not been read yet. A character from 128 on is a negative number,
and 255 is also the end of the text.
-/

namespace Achain.Glua

open Loops

/-- A token of one character has the character for its type. -/
inductive TokenType where
  | char (c : Char)
  | ltkAnd | ltkBreak | ltkDo | ltkElse | ltkElseif | ltkEnd | ltkFalse | ltkFor | ltkFunction
  | ltkGoto | ltkIf | ltkIn | ltkLocal | ltkLet | ltkOffline | ltkNil | ltkNot | ltkOr | ltkRepeat
  | ltkReturn | ltkThen | ltkTrue | ltkUntil | ltkWhile | ltkDefault | ltkType
  | ltkIdiv | ltkConcat | ltkDots | ltkEq | ltkGe | ltkLe | ltkNe | ltkFunctionArrow
  | ltkOptionalColon | ltkShl | ltkShr | ltkDbcolon | ltkEos | ltkFlt | ltkInt | ltkName | ltkString
  deriving DecidableEq

structure GluaParserToken where
  token : Str
  sourceToken : Str
  type : TokenType
  linenumber : Nat
  deriving DecidableEq

def eofToken : GluaParserToken := ⟨[], [], .ltkEos, 0⟩

/-- What ends a parse: an exception, an error that is recorded, or a loop that does not end. -/
inductive TokenError where
  | hexWrongFormat | utf8NeedsBrace | utf8TooLarge | utf8MissesBrace | decimalEscapeTooLarge
  | numberFormatError | unfinishedString | invalidEscapeSequence | invalidLongStringDelimiter
  | tooLongToken | undefinedLongString | endless
  deriving DecidableEq

def luaTokenMaxLength : Nat := 10240
def maxTokenParserCyclesCount : Nat := 10086
def eofTokenChar : Char := Char.ofNat 255
def nullChar : Char := Char.ofNat 0

def isNewLineStart (c : Char) : Bool := c == '\n' || c == '\r'
def isDigit (c : Char) : Bool := '0' ≤ c && c ≤ '9'
def isBase16Digit (c : Char) : Bool :=
  isDigit c || ('a' ≤ c && c ≤ 'f') || ('A' ≤ c && c ≤ 'F')
def isBigAlpha (c : Char) : Bool := 'A' ≤ c && c ≤ 'Z'
def isAlpha (c : Char) : Bool := ('a' ≤ c && c ≤ 'z') || isBigAlpha c
def isNameChar (c : Char) : Bool := isAlpha c || c == '_' || isDigit c
def isSpace (c : Char) : Bool :=
  isNewLineStart c || c == ' ' || c == '\x0c' || c == '\t' || c == '\x0b'

/-- A character as a number. -/
def charValue (c : Char) : Int := if c.toNat < 128 then c.toNat else c.toNat - 256

/-- `hexchar_to_base10`, which takes any other character for a small letter. -/
def hexcharToBase10 (c : Char) : Int :=
  if isDigit c then charValue c - 48
  else if isBigAlpha c then charValue c - 55
  else charValue c - 87

/-- The conversion of a number to a character. -/
def toChar (value : Int) : Char := Char.ofNat (value % 256).toNat

def symbolNameTokenTypeMapping : List (Str × TokenType) :=
  [(['i', 'f'], .ltkIf), (['e', 'l', 's', 'e'], .ltkElse),
    (['e', 'l', 's', 'e', 'i', 'f'], .ltkElseif), (['w', 'h', 'i', 'l', 'e'], .ltkWhile),
    (['u', 'n', 't', 'i', 'l'], .ltkUntil), (['r', 'e', 'p', 'e', 'a', 't'], .ltkRepeat),
    (['e', 'n', 'd'], .ltkEnd), (['f', 'u', 'n', 'c', 't', 'i', 'o', 'n'], .ltkFunction),
    (['t', 'r', 'u', 'e'], .ltkTrue), (['f', 'a', 'l', 's', 'e'], .ltkFalse),
    (['t', 'h', 'e', 'n'], .ltkThen), (['r', 'e', 't', 'u', 'r', 'n'], .ltkReturn),
    (['a', 'n', 'd'], .ltkAnd), (['o', 'r'], .ltkOr), (['n', 'o', 't'], .ltkNot),
    (['n', 'i', 'l'], .ltkNil), (['l', 'o', 'c', 'a', 'l'], .ltkLocal),
    (['l', 'e', 't'], .ltkLet), (['o', 'f', 'f', 'l', 'i', 'n', 'e'], .ltkOffline),
    (['d', 'e', 'f', 'a', 'u', 'l', 't'], .ltkDefault), (['t', 'y', 'p', 'e'], .ltkType),
    (['i', 'n'], .ltkIn), (['g', 'o', 't', 'o'], .ltkGoto), (['f', 'o', 'r'], .ltkFor),
    (['d', 'o'], .ltkDo), (['b', 'r', 'e', 'a', 'k'], .ltkBreak)]

def getTokenTypeBySymbolName (token : Str) : TokenType :=
  (symbolNameTokenTypeMapping.lookup token).getD .ltkName

structure GluaTokenParser where
  rest : Str
  parsingLinenumber : Nat
  parsingBuff : Str
  cycleCount : Nat
  tokens : List GluaParserToken

namespace GluaTokenParser

/-- A new parser, about to parse a text. -/
def start (code : Str) : GluaTokenParser where
  rest := code
  parsingLinenumber := 1
  parsingBuff := []
  cycleCount := 0
  tokens := []

variable (p : GluaTokenParser)

def currentChar : Char := p.rest.headD eofTokenChar

def nextTokenChar : Char := p.rest.tail.headD eofTokenChar

def advance : GluaTokenParser := { p with rest := p.rest.tail }

/-! ## The buffer -/

def resetParseBuff : GluaTokenParser := { p with parsingBuff := [] }

def full : Bool := luaTokenMaxLength - 1 ≤ p.parsingBuff.length

def saveToBuff (c : Char) : GluaTokenParser :=
  if p.full then p else { p with parsingBuff := p.parsingBuff ++ [c] }

/-- A full buffer keeps the parser from going on in the text, too. -/
def saveToBuffAndNext (c : Char) : GluaTokenParser :=
  if p.full then p else { p with
    parsingBuff := p.parsingBuff ++ [c]
    rest := p.rest.tail }

/-- The last character saved is taken back. -/
def unsave : GluaTokenParser := { p with parsingBuff := p.parsingBuff.dropLast }

def saveCurrent : GluaTokenParser := p.saveToBuffAndNext p.currentChar

/-- Two different characters of a new line are one new line. -/
def incLine : GluaTokenParser :=
  match p.rest with
  | [] => p
  | [_] => { p with
      rest := []
      parsingLinenumber := p.parsingLinenumber + 1 }
  | a :: b :: s => { p with
      rest := if (a == '\n' && b == '\r') || (a == '\r' && b == '\n') then s else b :: s
      parsingLinenumber := p.parsingLinenumber + 1 }

/-- `_push_new_token`: the token ends before the first null of the buffer. -/
def pushNewToken (type : TokenType) (line : Nat) : GluaTokenParser :=
  let tokenStr := p.parsingBuff.takeWhile (· != nullChar)
  let token : GluaParserToken :=
    { token := tokenStr
      sourceToken := []
      type := if type = .ltkName then getTokenTypeBySymbolName tokenStr else type
      linenumber := if 0 < line then line else p.parsingLinenumber }
  { p with
    tokens := p.tokens ++ [token]
    parsingBuff := [] }

def lastToken : GluaParserToken := p.tokens.getLast?.getD eofToken

/-- `_skip_sep`: the number of equals signs after a bracket, up to another one, or a negative number. -/
def skipSep : Except TokenError (GluaTokenParser × Int) :=
  let s := p.currentChar
  let p := p.saveToBuffAndNext s
  do
    let (p, count) ← iterate .endless (fun (p, count) =>
      if p.currentChar == '=' then .ok (.inl (p.saveToBuffAndNext '=', count + 1))
      else .ok (.inr (p, count))) (p.rest.length + 1) (p, (0 : Int))
    pure (p, if p.currentChar == s then count else -count - 1)

/-! ## Numerals -/

/-- A pass over a numeral, with whether it has a dot. -/
def numeralPass : GluaTokenParser × Bool →
    Except TokenError ((GluaTokenParser × Bool) ⊕ (GluaTokenParser × Bool))
  | (p, dotexist) =>
    if isBase16Digit p.currentChar then .ok (.inl (p.saveCurrent, dotexist))
    else if p.currentChar == '.' then
      if dotexist then .error .numberFormatError else .ok (.inl (p.saveCurrent, true))
    else .ok (.inr (p, dotexist))

/-- `_read_numeral`. Exponents are looked for, but nothing is done about them. -/
def readNumeral : Except TokenError GluaTokenParser := do
  let p := p.saveCurrent
  let (p, isFloat) ← iterate .endless numeralPass (p.rest.length + 1) (p, false)
  let p := p.saveToBuff nullChar
  pure (p.pushNewToken (if isFloat then .ltkFlt else .ltkInt) 0)

/-! ## Strings -/

/-- `_loadhexaesc`: the decimal digits of the character are saved. -/
def loadhexaesc (literal : Str) : Except TokenError (GluaTokenParser × Str) :=
  let p := p.unsave
  let c₁ := p.currentChar
  let p := p.advance
  let c₂ := p.currentChar
  let p := p.advance
  if !isBase16Digit c₁ || !isBase16Digit c₂ then .error .hexWrongFormat
  else
    let d := (hexcharToBase10 c₁ * 16 + hexcharToBase10 c₂).toNat
    .ok ((Nat.toDigits 10 d).foldl saveToBuff p, literal ++ [c₁, c₂])

/-- A pass over the digits of a character in braces. The value is taken one digit too early, and a
zero ends the digits. -/
def utf8Pass : (GluaTokenParser × Str) × Int →
    Except TokenError (((GluaTokenParser × Str) × Int) ⊕ (GluaTokenParser × Str))
  | ((p, literal), r) =>
    if isBase16Digit p.currentChar then
      let c := p.currentChar
      let p := p.saveToBuffAndNext (toChar (hexcharToBase10 c))
      let literal := literal ++ [c]
      if hexcharToBase10 c = 0 then .ok (.inr (p, literal))
      else
        let r := (r * 16 + hexcharToBase10 p.currentChar) % 2 ^ 64
        if 0x10FFFF < r then .error .utf8TooLarge else .ok (.inl ((p, literal), r))
    else .ok (.inr (p, literal))

/-- `_loadutf8esc`: the values of the digits are saved. -/
def loadutf8esc (literal : Str) : Except TokenError (GluaTokenParser × Str) :=
  let p := p.unsave
  if p.currentChar != '\x7b' then .error .utf8NeedsBrace
  else do
    let p := p.advance
    let (p, literal) ← iterate .endless utf8Pass (p.rest.length + 8)
      ((p, literal), hexcharToBase10 p.currentChar)
    if p.currentChar != '\x7d' then .error .utf8MissesBrace else pure (p.advance, literal)

/-- `_loaddecesc`, with how many digits may follow: the values of the digits are saved. -/
def loaddecesc : Nat → Int → GluaTokenParser × Str → Except TokenError (GluaTokenParser × Str)
  | 0, r, s => if 0xff < r then .error .decimalEscapeTooLarge else .ok s
  | n + 1, r, (p, literal) =>
    if isDigit p.currentChar then
      let c := p.currentChar
      loaddecesc n (10 * r + charValue c - 48)
        (p.saveToBuffAndNext (toChar (charValue c - 48)), literal ++ [c])
    else if 0xff < r then .error .decimalEscapeTooLarge else .ok (p, literal)

/-- The white space after `\z`. -/
def zap : Nat → GluaTokenParser → GluaTokenParser
  | 0, p => p
  | n + 1, p =>
    if isSpace p.currentChar then
      zap n (if isNewLineStart p.currentChar then p.incLine else p.advance)
    else p

/-- `only_save`: a character takes the place of the last one saved. -/
def onlySave (c : Char) : GluaTokenParser := p.unsave.saveToBuff c

/-- `read_save`: a character stands for the one that the parser is at. -/
def readSave (literal : Str) (c : Char) : GluaTokenParser × Str :=
  (p.saveCurrent.onlySave c, literal ++ [p.currentChar])

/-- What comes after a backslash. -/
def escape (literal : Str) : Except TokenError (GluaTokenParser × Str) :=
  match p.currentChar with
  | 'a' => .ok (p.readSave literal '\x07')
  | 'b' => .ok (p.readSave literal '\x08')
  | 'f' => .ok (p.readSave literal '\x0c')
  | 'n' => .ok (p.readSave literal '\n')
  | 'r' => .ok (p.readSave literal '\r')
  | 't' => .ok (p.readSave literal '\t')
  | 'v' => .ok (p.readSave literal '\x0b')
  | 'x' => p.advance.loadhexaesc (literal ++ ['x'])
  | 'u' => do
    let (p, literal) ← p.advance.loadutf8esc (literal ++ ['u', '\x7b'])
    pure (p, literal ++ ['\x7d'])
  | 'z' =>
    let p := p.unsave.advance
    .ok (p.zap p.rest.length, literal)
  | c =>
    if isNewLineStart c then .ok (p.incLine.onlySave '\n', literal)
    else if c == '\\' || c == '"' || c == '\'' then .ok (p.readSave literal c)
    else if c == eofTokenChar then .ok (p, literal)
    else if isDigit c then loaddecesc 3 0 (p, literal)
    else .error .invalidEscapeSequence

/-- A pass over a string, with the spelling that is kept of it. -/
def stringPass (delimiter : Char) : GluaTokenParser × Str →
    Except TokenError ((GluaTokenParser × Str) ⊕ (GluaTokenParser × Str))
  | (p, literal) =>
    let c := p.currentChar
    if c == delimiter then .ok (.inr (p, literal))
    else
      let literal := if c != '\\' || p.nextTokenChar != 'z' then literal ++ [c] else literal
      if c == eofTokenChar || isNewLineStart c then .error .unfinishedString
      else if c == '\\' then do
        let s ← p.saveCurrent.escape literal
        pure (.inl s)
      else .ok (.inl (p.saveCurrent, literal))

/-- `_read_string`. -/
def readString (delimiter : Char) : Except TokenError GluaTokenParser := do
  let (p, literal) ← iterate .endless (stringPass delimiter) (p.rest.length + 2)
    (p.saveCurrent, [p.currentChar])
  let literal := literal ++ [p.currentChar]
  let p := p.saveCurrent.pushNewToken .ltkString 0
  let token := p.lastToken
  let token := { token with
    token := token.token.tail.take (token.token.length - 2)
    sourceToken := literal }
  pure { p with tokens := p.tokens.dropLast ++ [token] }

def endCycle (cycleCount : Nat) : Bool := maxTokenParserCyclesCount < cycleCount

/-- A pass over a long string or comment, which ends with the text or after its closing bracket. A
comment is not kept, and ends at two brackets of any level. -/
def longStringPass (isString : Bool) (sep : Int) (p : GluaTokenParser) :
    Except TokenError (GluaTokenParser ⊕ GluaTokenParser) :=
  if p.rest.isEmpty then .ok (.inr p)
  else if p.full && isString then .error .tooLongToken
  else
    let p := if p.full then p.resetParseBuff else p
    let c := p.currentChar
    if c == eofTokenChar then .error .undefinedLongString
    else if c == ']' then
      if !isString && p.nextTokenChar == ']' then .ok (.inr p.saveCurrent.saveCurrent)
      else do
        let (p, count) ← p.skipSep
        if count = sep then pure (.inr p.saveCurrent)
        else if isString then pure (.inl p.saveCurrent)
        else pure (.inl p.advance)
    else if isNewLineStart c then .ok (.inl (p.saveToBuff c).incLine)
    else .ok (.inl p.saveCurrent)

/-- `_read_long_string`, from the second bracket on. -/
def readLongString (isString : Bool) (sep : Int) : Except TokenError GluaTokenParser :=
  let p := { p with cycleCount := p.cycleCount + 1 }
  if endCycle p.cycleCount then .ok p
  else
    let line := p.parsingLinenumber
    let p := p.saveCurrent
    let p := if isNewLineStart p.currentChar then p.incLine else p
    do
      let p ← iterate .endless (longStringPass isString sep) (p.rest.length + 1) p
      pure (if isString then p.pushNewToken .ltkString line else p.resetParseBuff)

/-! ## Tokens -/

/-- What a pass over the text does: it goes on, or ends with a token. -/
abbrev Passed := Except TokenError (GluaTokenParser ⊕ (GluaTokenParser × GluaParserToken))

def gotToken : Passed := .ok (.inr (p, p.lastToken))

def singleCharToken (type : TokenType) : Passed := (p.saveCurrent.pushNewToken type 0).gotToken

def doubleCharsToken (type : TokenType) : Passed :=
  (p.saveCurrent.saveCurrent.pushNewToken type 0).gotToken

def threeCharsToken (type : TokenType) : Passed :=
  (p.saveCurrent.saveCurrent.saveCurrent.pushNewToken type 0).gotToken

def namePass (p : GluaTokenParser) : Except TokenError (GluaTokenParser ⊕ GluaTokenParser) :=
  let p := p.saveCurrent
  .ok (if isNameChar p.currentChar then .inl p else .inr p)

/-- A minus, or a comment. What `_skip_sep` saves of a short comment stays in the buffer. -/
def minusOrComment : Passed :=
  let p := p.advance
  if p.currentChar != '-' then
    let token : GluaParserToken :=
      { token := ['-']
        sourceToken := []
        type := .char '-'
        linenumber := p.parsingLinenumber }
    .ok (.inr ({ p with tokens := p.tokens ++ [token] }, token))
  else
    let p := p.advance
    let short (p : GluaTokenParser) : GluaTokenParser := { p with
      rest := p.rest.dropWhile fun c => !isNewLineStart c && c != eofTokenChar }
    if p.currentChar == '[' then do
      let (p, sep) ← p.skipSep
      if 0 ≤ sep then
        let p ← p.readLongString false sep
        pure (.inl p.resetParseBuff)
      else pure (.inl (short p))
    else .ok (.inl (short p))

/-- A bracket, or a long string. -/
def bracketOrLongString : Passed := do
  let (p, sep) ← p.skipSep
  if 0 ≤ sep then
    let p ← p.readLongString true sep
    p.gotToken
  else if sep ≠ -1 then .error .invalidLongStringDelimiter
  else (p.pushNewToken (.char '[') 0).gotToken

def tokenPass (p : GluaTokenParser) : Passed :=
  if p.rest.isEmpty then .ok (.inr (p, eofToken))
  else
    match p.currentChar with
    | '\n' | '\r' => .ok (.inl p.incLine)
    | ' ' | '\x0c' | '\t' | '\x0b' => .ok (.inl p.advance)
    | '-' => p.minusOrComment
    | '[' => p.bracketOrLongString
    | '?' =>
      if p.nextTokenChar == ':' then p.doubleCharsToken .ltkOptionalColon
      else p.singleCharToken (.char '?')
    | '=' =>
      if p.nextTokenChar == '=' then p.doubleCharsToken .ltkEq
      else if p.nextTokenChar == '>' then p.doubleCharsToken .ltkFunctionArrow
      else p.singleCharToken (.char '=')
    | '<' =>
      if p.nextTokenChar == '=' then p.doubleCharsToken .ltkLe
      else if p.nextTokenChar == '<' then p.doubleCharsToken .ltkShl
      else p.singleCharToken (.char '<')
    | '>' =>
      if p.nextTokenChar == '=' then p.doubleCharsToken .ltkGe
      else if p.nextTokenChar == '>' then p.doubleCharsToken .ltkShr
      else p.singleCharToken (.char '>')
    | '/' =>
      if p.nextTokenChar == '/' then p.doubleCharsToken .ltkIdiv
      else p.singleCharToken (.char '/')
    | '~' =>
      if p.nextTokenChar == '=' then p.doubleCharsToken .ltkNe
      else p.singleCharToken (.char '~')
    | ':' =>
      if p.nextTokenChar == ':' then p.doubleCharsToken .ltkDbcolon
      else p.singleCharToken (.char ':')
    | '"' => do
      let p ← p.readString '"'
      p.gotToken
    | '\'' => do
      let p ← p.readString '\''
      p.gotToken
    | '.' =>
      if p.nextTokenChar == '.' then
        if p.advance.nextTokenChar == '.' then p.threeCharsToken .ltkDots
        else p.doubleCharsToken .ltkConcat
      else p.singleCharToken (.char '.')
    | c =>
      if isDigit c then do
        let p ← p.readNumeral
        p.gotToken
      else if c == eofTokenChar then (p.pushNewToken .ltkEos 0).gotToken
      else if charValue c < 0 then .ok (.inl p.advance)
      else if isAlpha c || c == '_' then do
        let p ← iterate .endless namePass (p.rest.length + 1) p
        (p.pushNewToken .ltkName 0).gotToken
      else (p.saveToBuffAndNext c |>.pushNewToken (.char c) 0).gotToken

/-- `_parse_next_token`, with the token that it returns. -/
def parseNextToken : Except TokenError (GluaTokenParser × GluaParserToken) :=
  let p := { p with cycleCount := p.cycleCount + 1 }
  if endCycle p.cycleCount then .ok (p, eofToken)
  else iterate .endless tokenPass (p.rest.length + 1) p

def parseLoop : Nat → GluaTokenParser → Except TokenError GluaTokenParser
  | 0, p => .ok p
  | n + 1, p =>
    if p.rest.isEmpty then .ok p
    else
      match p.parseNextToken with
      | .error e => .error e
      | .ok (p, token) => if token.type = .ltkEos then .ok p else parseLoop n p

/-- `parse`, with a new parser. -/
def parse (code : Str) : Except TokenError GluaTokenParser := parseLoop 1000000 (.start code)

end GluaTokenParser

/-! ## Printing tokens -/

def stringLinesCount (s : Str) : Nat := s.count '\n' + 1

namespace GluaParserToken

variable (t : GluaParserToken)

/-- What `dump` prints for a token. -/
def text : Str :=
  if t.type = .ltkString then if t.sourceToken.isEmpty then t.token else t.sourceToken
  else t.token

/-- What `dump` prints before a token, after one on some line and of some lines. -/
def separator (lastline lasttokenLinesCount : Nat) : Str :=
  if t.linenumber ≠ lastline ∧ 1 < t.linenumber then
    List.replicate (max 1 (t.linenumber - lastline - lasttokenLinesCount + 1 : Int).toNat) '\n'
  else if t.type = .char '.' ∨ t.type = .char ':' ∨ t.type = .char '(' ∨ t.type = .char ')' ∨
      t.type = .char '[' ∨ t.type = .char ']' then []
  else [' ']

end GluaParserToken

def dumpLoop : Nat → Nat → List GluaParserToken → Str
  | _, _, [] => []
  | lastline, lasttokenLinesCount, t :: tokens =>
    t.separator lastline lasttokenLinesCount ++ t.text ++
      dumpLoop t.linenumber (stringLinesCount t.text) tokens

/-- `dump`. -/
def dump (tokens : List GluaParserToken) : Str := dumpLoop 1 0 tokens

end Achain.Glua
