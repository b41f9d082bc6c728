import Achain.Glua.ParserCombinator
import Mathlib.Algebra.Order.Ring.Nat

/-!
# Repetition of a parser

`repeatStar` tries its parser twice in a round, and only a stop at the second try of a round is checked
as the claim of a repetition has it: a stop at the first try leaves out the requirement, and an error at
the second one is taken for the end.
-/

namespace Achain.Glua

variable {ρ : Type} {parser : ParserFunctor ρ} {skipEndSize : Nat} {isOptional : Bool}

/-- The parser succeeds with these results, one after the other, each at the input after the last. -/
inductive Succeeds (parser : ParserFunctor ρ) (skipEndSize : Nat) (isOptional : Bool) :
    ParserContext ρ → Input → List MatchResult → ParserContext ρ → Input → Prop
  | nil (ctx : ParserContext ρ) (input : Input) :
    Succeeds parser skipEndSize isOptional ctx input [] ctx input
  | cons {ctx ctx' ctx'' : ParserContext ρ} {input input' : Input} {r : MatchResult}
    {results : List MatchResult}
    (first : parser.tryParse input skipEndSize isOptional ctx = (⟨.success, r⟩, ctx'))
    (rest : Succeeds parser skipEndSize isOptional ctx' r.nextInput results ctx'' input') :
    Succeeds parser skipEndSize isOptional ctx input (r :: results) ctx'' input'

namespace ParserNode

variable (this : ParserNode)

/-- The result of a repetition: the items in order and the input after the last one. -/
def repeated (results : List MatchResult) (input : Input) : MatchResult :=
  .complex this.nodeName (some this.id) input results

/-- What iteration until the parser stops comes to. -/
def IteratesUntil (input : Input) (results : List MatchResult) (input' : Input) (stop : ParserState)
    (pr : ParseResult) : Prop :=
  if stop = .error then pr.state = .error
  else pr.result.items = results ∧ pr.result.nextInput = input' ∧
    pr.state = if this.accepts input (this.repeated results input') then .success else .failure

/-- Where the rounds end: at the first try of one, or at the second. -/
def roundsEnd (input : Input) (results : List MatchResult) (input' : Input) (stop : ParseResult) :
    ParseResult :=
  let r := .complex [] (some this.id) input' results
  if Even results.length then if stop.state = .error then stop else ⟨.success, r⟩
  else this.afterMatch input ⟨.success, r⟩

end ParserNode

variable {this failure : ParserNode} {input input' : Input}
  {ctx ctx' ctx'' : ParserContext ρ} {results : List MatchResult} {stop : ParseResult}

theorem bind_of_run {σ α β : Type} {x : StateM σ α} {f : α → StateM σ β} {s s' : σ} {a : α}
    (h : x s = (a, s')) : (x >>= f) s = f a s' := by
  simp only [bind, StateT.bind]
  rw [h]

/-- A round, with the items that came before it, and the rounds that are left. -/
theorem repeatStarLoop_run (hne : stop.state ≠ .success) :
    ∀ (n : Nat) (cur : Input) (before results : List MatchResult) (ctx : ParserContext ρ),
      Even before.length → results.length < 2 * n →
      Succeeds parser skipEndSize isOptional ctx cur results ctx' input' →
      parser.tryParse input' skipEndSize isOptional ctx' = (stop, ctx'') →
      repeatStarLoop failure this parser input skipEndSize isOptional n cur
          (.complex [] (some this.id) cur before) ctx =
        (this.roundsEnd input (before ++ results) input' stop, ctx'')
  | 0, _, _, _, _, _, hn, _ => by omega
  | n + 1, cur, before, results, ctx, heven, hn, hrun => by
    obtain - | ⟨first, rest⟩ := hrun
    · intro hstop
      rw [repeatStarLoop, bind_of_run hstop, ParserNode.roundsEnd, List.append_nil, if_pos heven]
      cases hstate : stop.state with
      | success => exact absurd hstate hne
      | failure => rfl
      | error => rfl
    rename_i ctx₁ r results
    rw [repeatStarLoop, bind_of_run first]
    simp only [MatchResult.addItem, MatchResult.setInput]
    obtain - | ⟨second, rest⟩ := rest <;> intro hstop
    · have hodd : ¬ Even (before ++ [r]).length := by
        rw [List.length_append, List.length_singleton, Nat.even_add_one]
        exact not_not.2 heven
      rw [bind_of_run hstop, if_pos hne, ParserNode.roundsEnd, if_neg hodd]
      rfl
    · rename_i ctx₂ r' results
      rw [bind_of_run second, if_neg (by simp)]
      have hbefore : Even (before ++ [r] ++ [r']).length := by
        rw [List.length_append, List.length_append, List.length_singleton, add_assoc]
        exact heven.add even_two
      have hrest := repeatStarLoop_run hne n r'.nextInput (before ++ [r] ++ [r']) results ctx₂
        hbefore (by simp only [List.length_cons] at hn; omega) rest hstop
      rw [hrest, List.append_assoc, List.append_assoc]
      rfl

/-- The context in which a repetition tries its parser first. -/
def startContext (input : Input) (ctx : ParserContext ρ) : ParserContext ρ :=
  setLastMatchToken (input.read ctx.tokens 0) ctx

theorem repeatStarParse_run (empty : ParserNode) (hlength : results.length < 2 * maxCycle)
    (hrun : Succeeds parser skipEndSize isOptional (startContext input ctx) input results ctx' input')
    (hstop : parser.tryParse input' skipEndSize isOptional ctx' = (stop, ctx''))
    (hne : stop.state ≠ .success) :
    repeatStarParse empty failure this parser input skipEndSize isOptional ctx =
      (this.roundsEnd input results input' stop, ctx'') := by
  have hloop : repeatStarLoop failure this parser input skipEndSize isOptional maxCycle input
      (.complex [] (some this.id) input []) (startContext input ctx) =
        (this.roundsEnd input results input' stop, ctx'') :=
    repeatStarLoop_run hne maxCycle input [] results (startContext input ctx) (by simp) hlength hrun hstop
  have hmatch : matchToken input ctx = ((), startContext input ctx) := rfl
  have hempty : empty.emptyParse input (startContext input ctx) =
      (⟨.success, .complex [] (some empty.id) input []⟩, startContext input ctx) := rfl
  rw [repeatStarParse, bind_of_run hmatch, bind_of_run hempty]
  exact hloop

theorem afterMatch_repeated : this.afterMatch input ⟨.success, .complex [] (some this.id) input' results⟩ =
    ⟨if this.accepts input (this.repeated results input') then .success else .failure,
      this.repeated results input'⟩ := rfl

/-- The rounds come to an iteration unless the requirement is left out or an error is missed. -/
theorem iteratesUntil_roundsEnd_iff (hne : stop.state ≠ .success) :
    this.IteratesUntil input results input' stop.state (this.roundsEnd input results input' stop) ↔
      if Even results.length then
        stop.state = .failure → this.accepts input (this.repeated results input') = true
      else stop.state ≠ .error := by
  unfold ParserNode.IteratesUntil ParserNode.roundsEnd
  by_cases heven : Even results.length
  · rw [if_pos heven, if_pos heven]
    by_cases herror : stop.state = .error
    · simp [herror]
    · have hfailure : stop.state = .failure := by
        cases hstate : stop.state with
        | success => exact absurd hstate hne
        | failure => rfl
        | error => exact absurd hstate herror
      by_cases haccepts : this.accepts input (this.repeated results input') = true
      · simp [hfailure, haccepts, MatchResult.items, MatchResult.nextInput]
      · simp [hfailure, haccepts]
  · rw [if_neg heven, if_neg heven]
    by_cases herror : stop.state = .error
    · rw [if_pos herror, afterMatch_repeated]
      split_ifs <;> simp [herror]
    · simp [herror, afterMatch_repeated, ParserNode.repeated, MatchResult.items, MatchResult.nextInput]

/-- A repetition is greedy iteration if and only if, after an even number of results, the requirement
holds of them where the parser fails, and after an odd number the parser does not stop with an error. -/
theorem repeatStar_iterates_iff (empty : ParserNode) (hlength : results.length < 20000)
    (hrun : Succeeds parser skipEndSize isOptional (startContext input ctx) input results ctx' input')
    (hstop : parser.tryParse input' skipEndSize isOptional ctx' = (stop, ctx''))
    (hne : stop.state ≠ .success) :
    this.IteratesUntil input results input' stop.state
        (repeatStarParse empty failure this parser input skipEndSize isOptional ctx).1 ↔
      if Even results.length then
        stop.state = .failure → this.accepts input (this.repeated results input') = true
      else stop.state ≠ .error := by
  rw [repeatStarParse_run empty (by rw [maxCycle]; omega) hrun hstop hne]
  exact iteratesUntil_roundsEnd_iff hne

/-! ## Two names on two lines -/

def emptyNode : ParserNode := ⟨0, [], none⟩

def failureNode : ParserNode := ⟨1, [], none⟩

def nameNode : ParserNode := ⟨2, [], none⟩

def nameParser : ParserFunctor Unit where
  toParserNode := nameNode
  tryParse := nameNode.tokenTypeParse failureNode .ltkName

/-- A repetition whose items have to be in one line. -/
def sameLineNode : ParserNode := ⟨3, [], some ParserNode.itemsInSameLine⟩

def nameToken (name : Str) (line : Nat) : GluaParserToken := ⟨name, name, .ltkName, line⟩

def twoLines : ParserContext Unit := ⟨[nameToken ['a'] 1, nameToken ['b'] 2], noToken, ()⟩

def nameResult (name : Str) (line : Nat) : MatchResult :=
  .final [] (some 2) ⟨line, 0⟩ (nameToken name line)

def twoResults : List MatchResult := [nameResult ['a'] 1, nameResult ['b'] 2]

theorem nameParser_succeeds : Succeeds nameParser 0 true (startContext ⟨0, 0⟩ twoLines) ⟨0, 0⟩
    twoResults (startContext ⟨0, 0⟩ twoLines) ⟨2, 0⟩ :=
  .cons rfl (.cons rfl (.nil _ _))

theorem nameParser_stops : nameParser.tryParse ⟨2, 0⟩ 0 true (startContext ⟨0, 0⟩ twoLines) =
    (⟨.failure, .complex [] (some 1) ⟨2, 0⟩ []⟩, setLastMatchToken noToken twoLines) := rfl

/-- The repetition of a name returns two names on two lines though its items have to be in one. -/
theorem repeatStar_two_lines :
    (repeatStarParse emptyNode failureNode sameLineNode nameParser ⟨0, 0⟩ 0 true twoLines).1.state =
        .success ∧
      ¬ sameLineNode.IteratesUntil ⟨0, 0⟩ twoResults ⟨2, 0⟩ .failure
        (repeatStarParse emptyNode failureNode sameLineNode nameParser ⟨0, 0⟩ 0 true twoLines).1 := by
  rw [repeatStarParse_run emptyNode (by decide) nameParser_succeeds nameParser_stops (by decide)]
  refine ⟨rfl, fun h => ?_⟩
  exact absurd h.2.2 (by decide)

/-- Without a requirement the repetition is greedy iteration. -/
theorem repeatStar_iterates_names : nameNode.IteratesUntil ⟨0, 0⟩ twoResults ⟨2, 0⟩ .failure
    (repeatStarParse emptyNode failureNode nameNode nameParser ⟨0, 0⟩ 0 true twoLines).1 :=
  (repeatStar_iterates_iff emptyNode (by decide) nameParser_succeeds nameParser_stops
    (by decide)).2 (by decide)

end Achain.Glua
