import Achain.Glua.TokenParser

/-!
# The parser combinators

A parser functor reads an input, which is a position among the tokens, and changes the context all
parsers of a grammar share. Of the context, the tokens and the token that was last read to be matched
are modelled; the rest is a parameter. A result that a parser adds to is its own until it is returned,
so results are values.
-/

namespace Achain.Glua

structure Input where
  pos : Nat
  endSkippedSize : Nat
  deriving DecidableEq

inductive ParserState where
  | success | failure | error
  deriving DecidableEq

/-- What was matched, with the name and the parser it was given and the input after it. -/
inductive MatchResult where
  | final (nodeName : Str) (parser : Option Nat) (nextInput : Input) (token : GluaParserToken)
  | complex (nodeName : Str) (parser : Option Nat) (nextInput : Input) (items : List MatchResult)

structure ParseResult where
  state : ParserState
  result : MatchResult

structure ParserContext (ρ : Type) where
  tokens : List GluaParserToken
  lastMatchToken : GluaParserToken
  rest : ρ

/-- A parser's number, name and requirement. -/
structure ParserNode where
  id : Nat
  nodeName : Str
  resultRequirement : Option (Input → MatchResult → Bool)

structure ParserFunctor (ρ : Type) extends ParserNode where
  tryParse : Input → Nat → Bool → StateM (ParserContext ρ) ParseResult

/-! ## Inputs and results -/

/-- A token read where there is none. -/
def noToken : GluaParserToken := ⟨[], [], .char nullChar, 0⟩

namespace Input

variable (input : Input)

def incPos (offset : Nat) : Input := { input with pos := input.pos + offset }

/-- The tokens left out at the end are subtracted without a check. -/
def canRead (tokens : List GluaParserToken) (n skipEndSize : Nat) : Bool :=
  decide (n < 1) ||
    decide ((input.pos + n : Int) ≤
      ((tokens.length : Int) - input.endSkippedSize - skipEndSize) % 2 ^ 64)

def read (tokens : List GluaParserToken) (skipEndSize : Nat) : GluaParserToken :=
  if input.canRead tokens 1 skipEndSize then tokens.getD input.pos eofToken else noToken

end Input

namespace MatchResult

def nodeName : MatchResult → Str
  | final name _ _ _ => name
  | complex name _ _ _ => name

def setNodeName (name : Str) : MatchResult → MatchResult
  | final _ parser input token => final name parser input token
  | complex _ parser input items => complex name parser input items

def setParser (parser : Nat) : MatchResult → MatchResult
  | final name _ input token => final name (some parser) input token
  | complex name _ input items => complex name (some parser) input items

def nextInput : MatchResult → Input
  | final _ _ input _ => input
  | complex _ _ input _ => input

def setInput (input : Input) : MatchResult → MatchResult
  | final name parser _ token => final name parser input token
  | complex name parser _ items => complex name parser input items

def items : MatchResult → List MatchResult
  | final _ _ _ _ => []
  | complex _ _ _ items => items

def addItem : MatchResult → MatchResult → MatchResult
  | final name parser input token, _ => final name parser input token
  | complex name parser input items, r => complex name parser input (items ++ [r])

mutual

/-- The line of the first token. -/
def headLine : MatchResult → Nat
  | final _ _ _ token => token.linenumber
  | complex _ _ _ items => headLineOfItems items

def headLineOfItems : List MatchResult → Nat
  | [] => 0
  | r :: _ => headLine r

end

end MatchResult

/-! ## The parsers -/

section Parsers

variable {ρ : Type}

def setLastMatchToken (token : GluaParserToken) (ctx : ParserContext ρ) : ParserContext ρ :=
  { ctx with lastMatchToken := token }

/-- `set_last_match_token` of the token that an input reads. -/
def matchToken (input : Input) : StateM (ParserContext ρ) Unit :=
  modify fun ctx => setLastMatchToken (input.read ctx.tokens 0) ctx

namespace ParserNode

variable (this : ParserNode)

def accepts (input : Input) (r : MatchResult) : Bool :=
  this.resultRequirement.all fun requirement => requirement input r

/-- `after_match`. -/
def afterMatch (input : Input) (pr : ParseResult) : ParseResult :=
  match pr.state with
  | .success =>
    let r := if pr.result.nodeName.isEmpty then pr.result.setNodeName this.nodeName else pr.result
    ⟨if this.accepts input r then .success else .failure, r⟩
  | _ => pr

/-- `EmptyParserFunctor`. -/
def emptyParse (input : Input) : StateM (ParserContext ρ) ParseResult :=
  return ⟨.success, .complex [] (some this.id) input []⟩

/-- `FailureParserFunctor`. -/
def failureParse (input : Input) : StateM (ParserContext ρ) ParseResult := do
  matchToken input
  return ⟨.failure, .complex [] (some this.id) input []⟩

/-- `set_items_in_same_line`. -/
def itemsInSameLine (_ : Input) : MatchResult → Bool
  | .complex _ _ _ (r :: r' :: items) =>
    (r' :: items).all fun item => item.headLine == r.headLine
  | _ => true

/-- `LuaTokenTypeParserFunctor`. -/
def tokenTypeParse (failure : ParserNode) (type : TokenType) (input : Input) (skipEndSize : Nat)
    (_ : Bool) : StateM (ParserContext ρ) ParseResult := do
  let ctx ← get
  let token := input.read ctx.tokens skipEndSize
  if input.canRead ctx.tokens 1 skipEndSize && decide (token.type = type) then
    return this.afterMatch input ⟨.success, .final [] (some this.id) (input.incPos 1) token⟩
  else failure.failureParse input

end ParserNode

variable (empty failure this : ParserNode) (parser : ParserFunctor ρ)

/-- The rounds of `RepeatStarParserFunctor`, of two items each. The result of the repetition grows. -/
def repeatStarLoop (input : Input) (skipEndSize : Nat) (isOptional : Bool) :
    Nat → Input → MatchResult → StateM (ParserContext ρ) ParseResult
  | 0, _, _ => failure.failureParse input
  | n + 1, curInput, r => do
    let pr ← parser.tryParse curInput skipEndSize isOptional
    match pr.state with
    | .error => return pr
    | .failure => return ⟨.success, r⟩
    | .success =>
      let ninput := pr.result.nextInput
      let r := (r.addItem pr.result).setInput ninput
      let pr2 ← parser.tryParse ninput skipEndSize isOptional
      if pr2.state ≠ .success then return this.afterMatch input ⟨.success, r⟩
      else
        let curInput := pr2.result.nextInput
        repeatStarLoop input skipEndSize isOptional n curInput
          ((r.addItem pr2.result).setInput curInput)

def maxCycle : Nat := 10086

/-- `RepeatStarParserFunctor`. -/
def repeatStarParse (input : Input) (skipEndSize : Nat) (isOptional : Bool) :
    StateM (ParserContext ρ) ParseResult := do
  matchToken input
  let pr ← empty.emptyParse input
  repeatStarLoop failure this parser input skipEndSize isOptional maxCycle input
    (pr.result.setParser this.id)

end Parsers

end Achain.Glua
