import Mathlib.Data.Prod.Lex
import Achain.Glua.TokenRun

/-!
# When the token parser ends

A loop of the token parser goes on forever if the buffer is full before a character that the loop goes
on with: what is not saved is not passed over either. In every other state a pass goes down: of the
cycles left, the text left, the loop and how often it may go on without passing over text, the first
that changes becomes less.
-/

namespace Achain.Glua

open Loops

namespace GluaTokenParser

variable {p q s : GluaTokenParser} {c : Char} {literal literal' : Str} {a b : Nat}

/-! ## What is done between two loops -/

/-- A parser is not before another in the text, and no further outside its buffer. -/
structure Later (p q : GluaTokenParser) : Prop where
  rest : q.rest.length ≤ p.rest.length
  cycles : p.cycleCount ≤ q.cycleCount
  fits : p.parsingBuff.length < luaTokenMaxLength → q.parsingBuff.length < luaTokenMaxLength

/-- Of the buffer, no more than so many characters are lost. -/
structure Saved (lost : Nat) (p q : GluaTokenParser) : Prop extends Later p q where
  kept : p.parsingBuff.length ≤ q.parsingBuff.length + lost
  cycle : q.cycleCount = p.cycleCount

theorem Later.trans (h : Later p q) (h' : Later q s) : Later p s :=
  ⟨h'.rest.trans h.rest, h.cycles.trans h'.cycles, fun hfits => h'.fits (h.fits hfits)⟩

theorem Saved.refl (p : GluaTokenParser) : Saved 0 p p := ⟨⟨le_rfl, le_rfl, id⟩, le_rfl, rfl⟩

theorem Saved.trans (h : Saved a p q) (h' : Saved b q s) : Saved (b + a) p s := by
  refine ⟨h.toLater.trans h'.toLater, ?_, h'.cycle.trans h.cycle⟩
  have := h.kept
  have := h'.kept
  omega

theorem Saved.mono (h : Saved a p q) (hab : a ≤ b) : Saved b p q :=
  ⟨h.toLater, h.kept.trans (Nat.add_le_add_left hab _), h.cycle⟩

theorem not_full (h : p.full = false) : p.parsingBuff.length < luaTokenMaxLength - 1 :=
  lt_of_not_ge (by simpa only [full, decide_eq_false_iff_not] using h)

theorem saveToBuff_eq_self (h : p.full = true) : p.saveToBuff c = p := if_pos h

theorem saveToBuffAndNext_eq_self (h : p.full = true) : p.saveToBuffAndNext c = p := if_pos h

theorem saveToBuff_eq (h : p.full = false) : p.saveToBuff c = { p with
    parsingBuff := p.parsingBuff ++ [c] } := by
  simp [saveToBuff, h]

theorem saveToBuffAndNext_eq (h : p.full = false) : p.saveToBuffAndNext c = { p with
    parsingBuff := p.parsingBuff ++ [c]
    rest := p.rest.tail } := by
  simp [saveToBuffAndNext, h]

theorem saved_saveToBuff : Saved 0 p (p.saveToBuff c) := by
  cases h : p.full with
  | true =>
    rw [saveToBuff_eq_self h]
    exact .refl p
  | false =>
    have := not_full h
    rw [saveToBuff_eq h]
    refine ⟨⟨le_rfl, le_rfl, fun _ => ?_⟩, by simp, rfl⟩
    rw [List.length_append, List.length_singleton]
    omega

theorem saved_saveToBuffAndNext : Saved 0 p (p.saveToBuffAndNext c) := by
  cases h : p.full with
  | true =>
    rw [saveToBuffAndNext_eq_self h]
    exact .refl p
  | false =>
    have := not_full h
    rw [saveToBuffAndNext_eq h]
    refine ⟨⟨by simp, le_rfl, fun _ => ?_⟩, by simp, rfl⟩
    rw [List.length_append, List.length_singleton]
    omega

theorem saved_saveCurrent : Saved 0 p p.saveCurrent := saved_saveToBuffAndNext

theorem saved_advance : Saved 0 p p.advance := ⟨⟨by simp [advance], le_rfl, id⟩, le_rfl, rfl⟩

theorem saved_unsave : Saved 1 p p.unsave := by
  refine ⟨⟨le_rfl, le_rfl, fun h => lt_of_le_of_lt (by simp [unsave]) h⟩, ?_, rfl⟩
  simp only [unsave, List.length_dropLast]
  omega

theorem later_cycle : Later p { p with cycleCount := p.cycleCount + 1 } :=
  ⟨le_rfl, Nat.le_succ _, id⟩

theorem later_shortComment : Later p (TokenRun.shortComment p) :=
  ⟨(List.dropWhile_sublist _).length_le, le_rfl, id⟩

theorem later_resetParseBuff : Later p p.resetParseBuff :=
  ⟨le_rfl, le_rfl, fun _ => by simp [resetParseBuff, luaTokenMaxLength]⟩

theorem later_pushNewToken {type : TokenType} {line : Nat} : Later p (p.pushNewToken type line) :=
  ⟨le_rfl, le_rfl, fun _ => by simp [pushNewToken, luaTokenMaxLength]⟩

/-- A new line is passed over. -/
theorem incLine_lt (h : p.rest ≠ []) : p.incLine.rest.length < p.rest.length := by
  unfold incLine
  split
  · rename_i hnil
    exact absurd hnil h
  · rename_i a ha
    simp [ha]
  · rename_i a b x hx
    rw [hx]
    dsimp only
    split
    · exact Nat.lt_add_right 1 (Nat.lt_succ_self _)
    · exact Nat.lt_succ_self _

theorem saved_incLine : Saved 0 p p.incLine := by
  by_cases h : p.rest = []
  · have : p.incLine = p := by
      unfold incLine
      rw [h]
    rw [this]
    exact .refl p
  · refine ⟨⟨(incLine_lt h).le, ?_, ?_⟩, ?_, ?_⟩ <;>
    · unfold incLine
      split <;> simp

theorem saved_beginLong : Saved 0 p
    (if isNewLineStart p.saveCurrent.currentChar then p.saveCurrent.incLine else p.saveCurrent) := by
  split
  · exact saved_saveCurrent.trans saved_incLine
  · exact saved_saveCurrent

theorem advance_lt (h : p.rest ≠ []) : p.advance.rest.length < p.rest.length := by
  have := List.length_pos_iff.mpr h
  simp only [advance, List.length_tail]
  omega

/-- What is saved is passed over, if the buffer is not full. -/
theorem saveCurrent_lt (hfull : p.full = false) (h : p.rest ≠ []) :
    p.saveCurrent.rest.length < p.rest.length := by
  rw [saveCurrent, saveToBuffAndNext_eq hfull]
  exact advance_lt h

theorem saveCurrent_ne_nil : p.saveCurrent.parsingBuff ≠ [] := by
  cases h : p.full with
  | true =>
    rw [saveCurrent, saveToBuffAndNext_eq_self h]
    intro hnil
    simp [full, hnil, luaTokenMaxLength] at h
  | false =>
    rw [saveCurrent, saveToBuffAndNext_eq h]
    simp

/-- After a character is saved in a string, one may be taken back. -/
theorem Saved.ne_nil (h : Saved 1 p.saveCurrent q) (hp : p.parsingBuff ≠ []) : q.parsingBuff ≠ [] := by
  have hkept := h.kept
  have hpos := List.length_pos_iff.mpr hp
  have htwo : 2 ≤ p.saveCurrent.parsingBuff.length := by
    cases hfull : p.full with
    | true =>
      rw [saveCurrent, saveToBuffAndNext_eq_self hfull]
      exact le_trans (by decide) (of_decide_eq_true hfull)
    | false =>
      rw [saveCurrent, saveToBuffAndNext_eq hfull, List.length_append, List.length_singleton]
      omega
  exact List.length_pos_iff.mp (by omega)

theorem rest_ne_nil (h : p.currentChar ≠ eofTokenChar) : p.rest ≠ [] := by
  intro hnil
  exact h (by rw [currentChar, hnil, List.headD_nil])

/-! ## Escapes -/

theorem saved_zap : ∀ (n : Nat) (p : GluaTokenParser), Saved 0 p (p.zap n)
  | 0, p => .refl p
  | n + 1, p => by
    rw [zap]
    split
    · refine Saved.trans (a := 0) ?_ (saved_zap n _)
      split
      · exact saved_incLine
      · exact saved_advance
    · exact .refl p

theorem saved_foldl_saveToBuff : ∀ (digits : Str) (p : GluaTokenParser),
    Saved 0 p (digits.foldl saveToBuff p)
  | [], p => .refl p
  | _ :: digits, _ => saved_saveToBuff.trans (saved_foldl_saveToBuff digits _)

theorem saved_loaddecesc : ∀ {n : Nat} {v : Int} {p : GluaTokenParser} {literal : Str},
    loaddecesc n v (p, literal) = .ok (q, literal') → Saved 0 p q
  | 0, v, p, literal, h => by
    rw [loaddecesc] at h
    split at h
    · nomatch h
    · obtain ⟨rfl, -⟩ := Prod.mk.inj (Except.ok.inj h)
      exact .refl p
  | n + 1, v, p, literal, h => by
    rw [loaddecesc] at h
    split at h
    · exact saved_saveToBuffAndNext.trans (saved_loaddecesc h)
    · split at h
      · nomatch h
      · obtain ⟨rfl, -⟩ := Prod.mk.inj (Except.ok.inj h)
        exact .refl p

theorem saved_loadhexaesc (h : p.loadhexaesc literal = .ok (q, literal')) : Saved 1 p q := by
  unfold loadhexaesc at h
  dsimp only at h
  split at h
  · nomatch h
  · obtain ⟨rfl, -⟩ := Prod.mk.inj (Except.ok.inj h)
    exact ((saved_unsave.trans saved_advance).trans saved_advance).trans (saved_foldl_saveToBuff _ _)

theorem saved_onlySave : Saved 1 p (p.onlySave c) := saved_unsave.trans saved_saveToBuff

theorem saved_readSave (h : p.readSave literal c = (q, literal')) : Saved 1 p q := by
  obtain ⟨rfl, -⟩ := Prod.mk.inj h
  exact saved_saveCurrent.trans saved_onlySave

/-- An escape takes back no more than its backslash. That of a character in braces has a loop. -/
theorem saved_escape (hu : p.currentChar ≠ 'u') (h : p.escape literal = .ok (q, literal')) :
    Saved 1 p q := by
  unfold escape at h
  split at h
  iterate 7 exact saved_readSave (Except.ok.inj h)
  · exact saved_advance.trans (saved_loadhexaesc h)
  · exact absurd ‹_› hu
  · obtain ⟨rfl, -⟩ := Prod.mk.inj (Except.ok.inj h)
    exact (saved_unsave.trans saved_advance).trans (saved_zap _ _)
  · split_ifs at h
    · obtain ⟨rfl, -⟩ := Prod.mk.inj (Except.ok.inj h)
      exact saved_incLine.trans saved_onlySave
    · exact saved_readSave (Except.ok.inj h)
    · obtain ⟨rfl, -⟩ := Prod.mk.inj (Except.ok.inj h)
      exact (Saved.refl p).mono (Nat.zero_le 1)
    · exact (saved_loaddecesc h).mono (Nat.zero_le 1)

/-! ## Tokens with no loop of their own -/

/-- A pass over the text that goes on is further in it. -/
def MovesOn (p : GluaTokenParser) : Passed → Prop
  | .ok (.inl q) => q.rest.length < p.rest.length ∧ Later p q
  | .ok (.inr (q, _)) => Later p q
  | .error _ => True

variable {type : TokenType}

theorem movesOn_gotToken (h : Later p q) : MovesOn p q.gotToken := h

theorem movesOn_singleCharToken : MovesOn p (p.singleCharToken type) :=
  movesOn_gotToken (saved_saveCurrent.toLater.trans later_pushNewToken)

theorem movesOn_doubleCharsToken : MovesOn p (p.doubleCharsToken type) :=
  movesOn_gotToken ((saved_saveCurrent.trans saved_saveCurrent).toLater.trans later_pushNewToken)

theorem movesOn_threeCharsToken : MovesOn p (p.threeCharsToken type) :=
  movesOn_gotToken (((saved_saveCurrent.trans saved_saveCurrent).trans
    saved_saveCurrent).toLater.trans later_pushNewToken)

theorem movesOn_advance (h : p.rest ≠ []) : MovesOn p (.ok (.inl p.advance)) :=
  ⟨advance_lt h, saved_advance.toLater⟩

theorem movesOn_minus (h : p.nextTokenChar ≠ '-') : MovesOn p p.minusOrComment := by
  have hc : (p.advance.currentChar != '-') = true := by
    rw [bne_iff_ne]
    exact h
  unfold minusOrComment
  dsimp only
  rw [if_pos hc]
  exact ⟨saved_advance.rest, le_rfl, id⟩

/-- A token that is read without a loop of its own. -/
def Simple (p : GluaTokenParser) : Prop :=
  ¬(p.currentChar = '-' ∧ p.nextTokenChar = '-') ∧ p.currentChar ≠ '[' ∧ p.currentChar ≠ '"' ∧
    p.currentChar ≠ '\'' ∧ isDigit p.currentChar = false ∧ isAlpha p.currentChar = false ∧
    p.currentChar ≠ '_'

theorem movesOn_tokenPass (hrest : p.rest ≠ []) (h : Simple p) : MovesOn p p.tokenPass := by
  obtain ⟨hminus, hbracket, hdouble, hsingle, hdigit, halpha, hunder⟩ := h
  unfold tokenPass
  rw [if_neg (by simpa using hrest)]
  split
  · exact ⟨incLine_lt hrest, saved_incLine.toLater⟩
  · exact ⟨incLine_lt hrest, saved_incLine.toLater⟩
  iterate 4 exact movesOn_advance hrest
  · exact movesOn_minus fun hnext => hminus ⟨‹_›, hnext⟩
  · exact absurd ‹_› hbracket
  iterate 7
    · repeat' split
      all_goals first
      | exact movesOn_singleCharToken
      | exact movesOn_doubleCharsToken
  · exact absurd ‹_› hdouble
  · exact absurd ‹_› hsingle
  · repeat' split
    · exact movesOn_threeCharsToken
    · exact movesOn_doubleCharsToken
    · exact movesOn_singleCharToken
  · rw [hdigit, halpha]
    simp only [Bool.false_eq_true, if_false, Bool.false_or, beq_iff_eq, if_neg hunder]
    split_ifs
    · exact movesOn_gotToken later_pushNewToken
    · exact movesOn_advance hrest
    · exact movesOn_gotToken (saved_saveToBuffAndNext.toLater.trans later_pushNewToken)

end GluaTokenParser

/-! ## What becomes less -/

namespace Reading

/-- The loops, in an order in which a loop that passes over nothing comes after another. -/
def rank : Reading → Nat
  | .tokens => 0
  | .name | .numeral _ | .string _ _ | .long true _ _ => 1
  | .utf8 _ _ _ | .sep _ _ .bracket | .sep _ _ (.closing true _ _) => 2
  | .token => 3
  | .long false _ _ => 4
  | .sep _ _ _ => 5

/-- How often a loop may go on without passing over text: a numeral has one dot, and the value of the
digits in braces becomes too large. -/
def room : Reading → Nat
  | .numeral dotexist => if dotexist then 0 else 1
  | .utf8 _ _ v => if 0 ≤ v ∧ v ≤ 0x10FFFF then (0x10FFFF - v).toNat else 0x110000
  | _ => 0

def inString : Reading → Bool
  | .string _ _ | .utf8 _ _ _ => true
  | _ => false

end Reading

namespace TokenRun

def cyclesLeft (p : GluaTokenParser) : Nat := maxTokenParserCyclesCount + 1 - p.cycleCount

def height (r : TokenRun) : Nat ×ₗ Nat ×ₗ Nat ×ₗ Nat :=
  toLex (cyclesLeft r.parser, toLex (r.parser.rest.length, toLex (r.reading.rank, r.reading.room)))

def Lower (r' r : TokenRun) : Prop := r'.height < r.height

theorem lower_wf : WellFounded Lower := InvImage.wf height wellFounded_lt

/-- The buffer is full, and the loop goes on with the character that the parser is at. -/
def Stuck (r : TokenRun) : Prop :=
  r.parser.full = true ∧
    match r.reading with
    | .name => isNameChar r.parser.currentChar = true
    | .numeral _ => isBase16Digit r.parser.currentChar = true
    | .string delimiter _ => r.parser.currentChar ≠ delimiter ∧ r.parser.currentChar ≠ eofTokenChar ∧
        isNewLineStart r.parser.currentChar = false
    | .sep _ _ _ => r.parser.currentChar = '='
    | _ => False

/-- What is written goes into the buffer: a token has room for a null at its end, and what is taken
back in a string has been saved. -/
def Inside (r : TokenRun) : Prop :=
  r.parser.parsingBuff.length < luaTokenMaxLength ∧
    (r.reading.inString = true → r.parser.parsingBuff ≠ [])

/-- What is true of a pass that goes on. -/
structure Moves (r r' : TokenRun) : Prop where
  inside : Inside r → Inside r'
  lower : ¬ Stuck r → Lower r' r

variable {cycles cycles' : Nat} {p q : GluaTokenParser} {rd rd' : Reading} {r r' : TokenRun}

open GluaTokenParser

theorem lower_of_later (h : Later p q) (hlower : q.rest.length < p.rest.length ∨ rd'.rank < rd.rank ∨
    rd'.rank = rd.rank ∧ rd'.room < rd.room) : Lower ⟨cycles', q, rd'⟩ ⟨cycles, p, rd⟩ := by
  have hrest := h.rest
  have hcycles : cyclesLeft q ≤ cyclesLeft p := Nat.sub_le_sub_left h.cycles _
  simp only [Lower, height, Prod.Lex.toLex_lt_toLex]
  omega

theorem moves_of_later (h : Later p q)
    (hstring : rd'.inString = true → (rd.inString = true → p.parsingBuff ≠ []) → q.parsingBuff ≠ [])
    (hlower : ¬ Stuck ⟨cycles, p, rd⟩ → q.rest.length < p.rest.length ∨ rd'.rank < rd.rank ∨
      rd'.rank = rd.rank ∧ rd'.room < rd.room) : Moves ⟨cycles, p, rd⟩ ⟨cycles', q, rd'⟩ where
  inside hr := ⟨h.fits hr.1, fun hrd => hstring hrd hr.2⟩
  lower hstuck := lower_of_later h (hlower hstuck)

/-- A loop that is not of a string comes after another. -/
theorem moves_of_rank (h : Later p q) (hstring : rd'.inString = false) (hrank : rd'.rank < rd.rank) :
    Moves ⟨cycles, p, rd⟩ ⟨cycles', q, rd'⟩ :=
  moves_of_later h (fun hrd => by simp [hstring] at hrd) fun _ => .inr (.inl hrank)

/-- Text is passed over, in a loop that is not of a string. -/
theorem moves_of_rest (h : Later p q) (hstring : rd'.inString = false)
    (hrest : ¬ Stuck ⟨cycles, p, rd⟩ → q.rest.length < p.rest.length) :
    Moves ⟨cycles, p, rd⟩ ⟨cycles', q, rd'⟩ :=
  moves_of_later h (fun hrd => by simp [hstring] at hrd) fun hstuck => .inl (hrest hstuck)

theorem moves_of_cycle (h : Later p q) (hstring : rd'.inString = false)
    (hcycle : p.cycleCount < q.cycleCount) (hend : endCycle q.cycleCount = false) :
    Moves ⟨cycles, p, rd⟩ ⟨cycles', q, rd'⟩ := by
  refine ⟨fun hr => ⟨h.fits hr.1, fun hrd => by simp [hstring] at hrd⟩, fun _ => ?_⟩
  have hend := of_decide_eq_false hend
  simp only [Lower, height, Prod.Lex.toLex_lt_toLex, cyclesLeft]
  omega

theorem moves_got {token : GluaParserToken} (h : Later p q) (hrank : 0 < rd.rank)
    (hgot : got cycles q token = .ok (.inl r')) : Moves ⟨cycles, p, rd⟩ r' := by
  unfold got at hgot
  split at hgot
  · cases hgot
  · cases hgot
    exact moves_of_rank h rfl hrank

theorem not_full_of_not_stuck (h : ¬ Stuck ⟨cycles, p, rd⟩)
    (hgoes : p.full = true → Stuck ⟨cycles, p, rd⟩) : p.full = false := by
  cases hfull : p.full with
  | true => exact absurd (hgoes hfull) h
  | false => rfl

/-! ## The loops -/

theorem moves_tokensPass (h : tokensPass cycles p = .ok (.inl r')) :
    Moves ⟨cycles, p, .tokens⟩ r' := by
  unfold tokensPass at h
  split at h
  · cases h
  · dsimp only at h
    split at h
    · cases h
    · rename_i hcycle
      cases h
      exact moves_of_cycle later_cycle rfl (Nat.lt_succ_self _) (by simpa using hcycle)

/-- After a pass that goes on with a character, there was text to pass over. -/
theorem saveCurrent_lt_of_next (hfull : p.full = false)
    (hnext : p.saveCurrent.currentChar ≠ eofTokenChar) :
    p.saveCurrent.rest.length < p.rest.length := by
  refine saveCurrent_lt hfull fun hnil => rest_ne_nil hnext ?_
  rw [saveCurrent, saveToBuffAndNext_eq hfull, hnil, List.tail_nil]

theorem ne_eof_of_isNameChar {c : Char} (h : isNameChar c = true) : c ≠ eofTokenChar := by
  rintro rfl
  exact absurd h (by decide)

theorem ne_eof_of_isBase16Digit {c : Char} (h : isBase16Digit c = true) : c ≠ eofTokenChar := by
  rintro rfl
  exact absurd h (by decide)

theorem moves_namePass (h : namePass cycles p = .ok (.inl r')) : Moves ⟨cycles, p, .name⟩ r' := by
  unfold namePass at h
  dsimp only at h
  split at h
  · rename_i hname
    cases h
    refine moves_of_rest saved_saveCurrent.toLater rfl fun hstuck => ?_
    have hfull := not_full_of_not_stuck hstuck fun hfull =>
      ⟨hfull, by rwa [saveCurrent, saveToBuffAndNext_eq_self hfull] at hname⟩
    exact saveCurrent_lt_of_next hfull (ne_eof_of_isNameChar hname)
  · exact moves_got (saved_saveCurrent.toLater.trans later_pushNewToken) Nat.one_pos h

theorem moves_numeralPass {dotexist : Bool} (h : numeralPass cycles p dotexist = .ok (.inl r')) :
    Moves ⟨cycles, p, .numeral dotexist⟩ r' := by
  unfold numeralPass GluaTokenParser.numeralPass at h
  dsimp only at h
  by_cases hdigit : isBase16Digit p.currentChar = true
  · rw [if_pos hdigit] at h
    cases h
    refine moves_of_rest saved_saveCurrent.toLater rfl fun hstuck => ?_
    exact saveCurrent_lt (not_full_of_not_stuck hstuck fun hfull => ⟨hfull, hdigit⟩)
      (rest_ne_nil (ne_eof_of_isBase16Digit hdigit))
  · rw [if_neg hdigit] at h
    by_cases hdot : p.currentChar = '.'
    · rw [if_pos (by simpa using hdot)] at h
      cases dotexist with
      | true => cases h
      | false =>
        cases h
        exact moves_of_later saved_saveCurrent.toLater (fun hrd => by cases hrd)
          fun _ => .inr (.inr ⟨rfl, Nat.one_pos⟩)
    · rw [if_neg (by simpa using hdot)] at h
      exact moves_got (saved_saveToBuff.toLater.trans later_pushNewToken) Nat.one_pos h

theorem moves_stringPass {delimiter : Char} {literal : Str}
    (h : stringPass cycles p delimiter literal = .ok (.inl r')) :
    Moves ⟨cycles, p, .string delimiter literal⟩ r' := by
  unfold stringPass at h
  dsimp only at h
  by_cases hdelimiter : p.currentChar = delimiter
  · rw [if_pos (by simpa using hdelimiter)] at h
    refine moves_got ?_ Nat.one_pos h
    have hpush : Later p (p.saveCurrent.pushNewToken .ltkString 0) :=
      saved_saveCurrent.toLater.trans later_pushNewToken
    exact hpush.trans ⟨le_rfl, le_rfl, id⟩
  · rw [if_neg (by simpa using hdelimiter)] at h
    by_cases hend : (p.currentChar == eofTokenChar || isNewLineStart p.currentChar) = true
    · rw [if_pos hend] at h
      cases h
    · rw [if_neg hend] at h
      obtain ⟨heof, hline⟩ : p.currentChar ≠ eofTokenChar ∧ isNewLineStart p.currentChar = false := by
        simpa using hend
      have hlt (hstuck : ¬ Stuck ⟨cycles, p, .string delimiter literal⟩) :
          p.saveCurrent.rest.length < p.rest.length :=
        saveCurrent_lt (not_full_of_not_stuck hstuck fun hfull => ⟨hfull, hdelimiter, heof, hline⟩)
          (rest_ne_nil heof)
      by_cases hback : p.currentChar = '\\'
      · rw [if_pos (by simpa using hback)] at h
        by_cases hu : p.saveCurrent.currentChar = 'u'
        · rw [if_pos (by simpa using hu)] at h
          split at h
          · cases h
          · cases h
            have hsaved := (saved_advance.trans (saved_unsave (p := p.saveCurrent.advance))).trans
              saved_advance
            exact moves_of_later (saved_saveCurrent.trans hsaved).toLater
              (fun _ hp => hsaved.ne_nil (hp rfl))
              fun hstuck => .inl (lt_of_le_of_lt hsaved.rest (hlt hstuck))
        · rw [if_neg (by simpa using hu)] at h
          split at h
          · cases h
          · rename_i q literal' hescape
            cases h
            have hsaved := saved_escape hu hescape
            exact moves_of_later (saved_saveCurrent.trans hsaved).toLater
              (fun _ hp => hsaved.ne_nil (hp rfl))
              fun hstuck => .inl (lt_of_le_of_lt hsaved.rest (hlt hstuck))
      · rw [if_neg (by simpa using hback)] at h
        cases h
        exact moves_of_later saved_saveCurrent.toLater (fun _ _ => saveCurrent_ne_nil)
          fun hstuck => .inl (hlt hstuck)

theorem hexcharToBase10_mem {c : Char} (h : isBase16Digit c = true) :
    0 ≤ hexcharToBase10 c ∧ hexcharToBase10 c < 16 := by
  have hle (a : Char) : a ≤ c ↔ a.toNat ≤ c.toNat := by
    rw [Char.le_def, UInt32.le_iff_toNat_le]
    rfl
  have hge (a : Char) : c ≤ a ↔ c.toNat ≤ a.toNat := by
    rw [Char.le_def, UInt32.le_iff_toNat_le]
    rfl
  unfold hexcharToBase10 charValue
  simp only [isBase16Digit, isDigit, isBigAlpha, Bool.or_eq_true, Bool.and_eq_true, decide_eq_true_eq,
    hle, hge, Char.reduceToNat] at h ⊢
  split_ifs <;> omega

/-- The value of the digits in braces goes up while the same digit is read again. -/
theorem room_utf8 {delimiter : Char} {literal literal' : Str} {v d : Int} (hd : 0 < d) (hd' : d < 16)
    (hsmall : ¬0x10FFFF < (v * 16 + d) % 2 ^ 64) :
    (Reading.utf8 delimiter literal' ((v * 16 + d) % 2 ^ 64)).room <
      (Reading.utf8 delimiter literal v).room := by
  simp only [Reading.room]
  split_ifs <;> omega

theorem moves_utf8Pass {delimiter : Char} {literal : Str} {v : Int}
    (h : utf8Pass cycles p delimiter literal v = .ok (.inl r')) :
    Moves ⟨cycles, p, .utf8 delimiter literal v⟩ r' := by
  unfold utf8Pass GluaTokenParser.utf8Pass at h
  dsimp only at h
  have hbuff (hp : p.parsingBuff ≠ []) {c : Char} : (p.saveToBuffAndNext c).parsingBuff ≠ [] :=
    List.length_pos_iff.mp ((List.length_pos_iff.mpr hp).trans_le saved_saveToBuffAndNext.kept)
  by_cases hdigit : isBase16Digit p.currentChar = true
  · rw [if_pos hdigit] at h
    by_cases hzero : hexcharToBase10 p.currentChar = 0
    · rw [if_pos hzero] at h
      dsimp only at h
      split at h
      · cases h
      · cases h
        have hsaved := saved_saveToBuffAndNext.trans (saved_advance (p := p.saveToBuffAndNext
          (toChar (hexcharToBase10 p.currentChar))))
        exact moves_of_later hsaved.toLater (fun _ hp => hbuff (hp rfl))
          fun _ => .inr (.inl Nat.one_lt_two)
    · rw [if_neg hzero] at h
      by_cases hlarge : 0x10FFFF < (v * 16 + hexcharToBase10 (p.saveToBuffAndNext
          (toChar (hexcharToBase10 p.currentChar))).currentChar) % 2 ^ 64
      · rw [if_pos hlarge] at h
        cases h
      · rw [if_neg hlarge] at h
        cases h
        refine moves_of_later saved_saveToBuffAndNext.toLater (fun _ hp => hbuff (hp rfl)) fun _ => ?_
        cases hfull : p.full with
        | true =>
          rw [saveToBuffAndNext_eq_self hfull] at hlarge ⊢
          have hmem := hexcharToBase10_mem hdigit
          exact .inr (.inr ⟨rfl, room_utf8 (by omega) hmem.2 hlarge⟩)
        | false =>
          rw [saveToBuffAndNext_eq hfull]
          exact .inl (advance_lt (rest_ne_nil (ne_eof_of_isBase16Digit hdigit)))
  · rw [if_neg hdigit] at h
    dsimp only at h
    split at h
    · cases h
    · cases h
      exact moves_of_later saved_advance.toLater (fun _ hp => hp rfl)
        fun _ => .inr (.inl Nat.one_lt_two)

/-! ## Long strings and comments -/

theorem moves_endLong {isString : Bool} {line : Nat} (h : Later p q)
    (hrank : if isString then 0 < rd.rank else 3 < rd.rank)
    (hend : endLong cycles q isString line = .ok (.inl r')) : Moves ⟨cycles, p, rd⟩ r' := by
  unfold endLong at hend
  cases isString with
  | true => exact moves_got (h.trans later_pushNewToken) hrank hend
  | false =>
    cases hend
    exact moves_of_rank (h.trans later_resetParseBuff) rfl hrank

theorem moves_leaveLong {isString : Bool} (h : Later p q)
    (hrank : if isString then 0 < rd.rank else 3 < rd.rank)
    (hleave : leaveLong cycles q isString = .ok (.inl r')) : Moves ⟨cycles, p, rd⟩ r' := by
  unfold leaveLong at hleave
  cases isString with
  | true =>
    rw [if_pos rfl] at hleave
    split at hleave
    · cases hleave
    · exact moves_got h hrank hleave
  | false =>
    cases hleave
    exact moves_of_rank (h.trans later_resetParseBuff) rfl hrank

theorem moves_enterLong {isString : Bool} {sep : Int} (h : Later p q)
    (hrank : if isString then 0 < rd.rank else 3 < rd.rank)
    (henter : enterLong cycles q isString sep = .ok (.inl r')) : Moves ⟨cycles, p, rd⟩ r' := by
  unfold enterLong at henter
  dsimp only at henter
  split at henter
  · exact moves_leaveLong (h.trans later_cycle) hrank henter
  · rename_i hcycle
    cases henter
    have hbegin := saved_beginLong (p := { q with cycleCount := q.cycleCount + 1 })
    refine moves_of_cycle (h.trans (later_cycle.trans hbegin.toLater)) rfl ?_ ?_
    · rw [hbegin.cycle]
      exact Nat.lt_succ_of_le h.cycles
    · rw [hbegin.cycle]
      simpa using hcycle

theorem rank_long {isString : Bool} {sep : Int} {line : Nat} :
    if isString then 0 < (Reading.long isString sep line).rank
      else 3 < (Reading.long isString sep line).rank := by
  cases isString <;> simp [Reading.rank]

theorem moves_longCharPass {isString : Bool} {sep : Int} {line : Nat} (hlater : Later p q)
    (hroom : q.full = false) (hrest : q.rest = p.rest) (hnil : p.rest ≠ [])
    (h : longCharPass cycles q isString sep line = .ok (.inl r')) :
    Moves ⟨cycles, p, .long isString sep line⟩ r' := by
  have hlt : q.saveCurrent.rest.length < p.rest.length :=
    hrest ▸ saveCurrent_lt hroom (hrest ▸ hnil)
  unfold longCharPass at h
  dsimp only at h
  split at h
  · exact moves_leaveLong hlater rank_long h
  split at h
  · split at h
    · exact moves_endLong (hlater.trans (saved_saveCurrent.trans saved_saveCurrent).toLater) rank_long h
    · cases h
      exact moves_of_rest (hlater.trans saved_saveCurrent.toLater) rfl fun _ => hlt
  split at h
  · cases h
    refine moves_of_rest (hlater.trans (saved_saveToBuff.trans saved_incLine).toLater) rfl fun _ => ?_
    rw [saveToBuff_eq hroom, ← hrest]
    exact incLine_lt (p := { q with parsingBuff := q.parsingBuff ++ [q.currentChar] }) (hrest ▸ hnil)
  · cases h
    exact moves_of_rest (hlater.trans saved_saveCurrent.toLater) rfl fun _ => hlt

theorem moves_longPass {isString : Bool} {sep : Int} {line : Nat}
    (h : longPass cycles p isString sep line = .ok (.inl r')) :
    Moves ⟨cycles, p, .long isString sep line⟩ r' := by
  unfold longPass at h
  split at h
  · exact moves_endLong (Saved.refl p).toLater rank_long h
  rename_i hrest
  have hnil : p.rest ≠ [] := by simpa using hrest
  split at h
  · rename_i hroom
    exact moves_longCharPass (Saved.refl p).toLater (by simpa using hroom) rfl hnil h
  split at h
  · exact moves_leaveLong (Saved.refl p).toLater rank_long h
  · exact moves_longCharPass later_resetParseBuff rfl rfl hnil h

theorem moves_sepPass {c : Char} {count : Int} {use : SepUse}
    (h : sepPass cycles p c count use = .ok (.inl r')) : Moves ⟨cycles, p, .sep c count use⟩ r' := by
  unfold sepPass at h
  by_cases hequals : p.currentChar = '='
  · rw [if_pos (by simpa using hequals)] at h
    cases h
    refine moves_of_rest saved_saveToBuffAndNext.toLater rfl fun hstuck => ?_
    have hfull := not_full_of_not_stuck hstuck fun hfull => ⟨hfull, hequals⟩
    rw [saveToBuffAndNext_eq hfull]
    exact advance_lt (rest_ne_nil (by rw [hequals]; decide))
  · rw [if_neg (by simpa using hequals)] at h
    dsimp only at h
    cases use with
    | comment =>
      dsimp only at h
      split at h
      · exact moves_enterLong (Saved.refl p).toLater (by simp [Reading.rank]) h
      · cases h
        exact moves_of_rank later_shortComment rfl (by simp [Reading.rank])
    | bracket =>
      dsimp only at h
      split at h
      · exact moves_enterLong (Saved.refl p).toLater (by simp [Reading.rank]) h
      split at h
      · cases h
      · exact moves_got later_pushNewToken (by simp [Reading.rank]) h
    | closing isString opened line =>
      dsimp only at h
      split at h
      · refine moves_endLong saved_saveCurrent.toLater ?_ h
        cases isString <;> simp [Reading.rank]
      split at h
      · cases h
        rename_i hstring
        subst hstring
        exact moves_of_rank saved_saveCurrent.toLater rfl (by simp [Reading.rank])
      · cases h
        rename_i hcomment
        obtain rfl : isString = false := by simpa using hcomment
        exact moves_of_rank saved_advance.toLater rfl (by simp [Reading.rank])

/-! ## Tokens -/

theorem simple_of_neg (hminus : ¬(p.currentChar == '-' && p.nextTokenChar == '-') = true)
    (hbracket : ¬(p.currentChar == '[') = true)
    (hstring : ¬(p.currentChar == '"' || p.currentChar == '\'') = true)
    (hdigit : ¬isDigit p.currentChar = true)
    (hname : ¬(isAlpha p.currentChar || p.currentChar == '_') = true) : Simple p := by
  simp only [Bool.and_eq_true, Bool.or_eq_true, beq_iff_eq, not_or, Bool.not_eq_true] at *
  exact ⟨hminus, hbracket, hstring.1, hstring.2, hdigit, hname⟩

theorem moves_tokenPass (h : tokenPass cycles p = .ok (.inl r')) :
    Moves ⟨cycles, p, .token⟩ r' := by
  unfold tokenPass at h
  split at h
  · exact moves_got (Saved.refl p).toLater (by simp [Reading.rank]) h
  rename_i hrest
  have hrest : p.rest ≠ [] := by simpa using hrest
  dsimp only at h
  split at h
  · -- two minuses have been passed over
    have hlt : p.advance.advance.rest.length < p.rest.length :=
      lt_of_le_of_lt saved_advance.rest (advance_lt hrest)
    have hlater := (saved_advance.trans (saved_advance (p := p.advance))).toLater
    split at h
    · cases h
      exact moves_of_rest (hlater.trans saved_saveCurrent.toLater) rfl
        fun _ => lt_of_le_of_lt saved_saveCurrent.rest hlt
    · cases h
      exact moves_of_rest (hlater.trans later_shortComment) rfl
        fun _ => lt_of_le_of_lt later_shortComment.rest hlt
  split at h
  · cases h
    exact moves_of_rank saved_saveCurrent.toLater rfl (by simp [Reading.rank])
  split at h
  · cases h
    exact moves_of_later saved_saveCurrent.toLater (fun _ _ => saveCurrent_ne_nil)
      fun _ => .inr (.inl (by simp [Reading.rank]))
  split at h
  · cases h
    exact moves_of_rank saved_saveCurrent.toLater rfl (by simp [Reading.rank])
  split at h
  · cases h
    exact moves_of_rank (Saved.refl p).toLater rfl (by simp [Reading.rank])
  have hmoves := movesOn_tokenPass hrest (simple_of_neg ‹_› ‹_› ‹_› ‹_› ‹_›)
  split at h
  · cases h
  · rename_i hpass
    cases h
    rw [hpass] at hmoves
    exact moves_of_rest hmoves.2 rfl fun _ => hmoves.1
  · rename_i hpass
    rw [hpass] at hmoves
    exact moves_got hmoves (by simp [Reading.rank]) h

theorem moves_pass (h : pass r = .ok (.inl r')) : Moves r r' := by
  obtain ⟨cycles, p, reading⟩ := r
  cases reading with
  | tokens => exact moves_tokensPass h
  | token => exact moves_tokenPass h
  | name => exact moves_namePass h
  | numeral dotexist => exact moves_numeralPass h
  | string delimiter literal => exact moves_stringPass h
  | utf8 delimiter literal v => exact moves_utf8Pass h
  | sep c count use => exact moves_sepPass h
  | long isString sep line => exact moves_longPass h

/-! ## A full buffer -/

theorem full_onlySave {c : Char} (h : p.full = true) :
    (p.onlySave c).full = true ∧ (p.onlySave c).rest = p.rest := by
  have hlen : luaTokenMaxLength - 1 ≤ p.parsingBuff.length := of_decide_eq_true h
  rw [onlySave]
  cases hfull : p.unsave.full with
  | true =>
    rw [saveToBuff_eq_self hfull]
    exact ⟨hfull, rfl⟩
  | false =>
    rw [saveToBuff_eq hfull]
    refine ⟨decide_eq_true ?_, rfl⟩
    rw [List.length_append, List.length_singleton, unsave, List.length_dropLast]
    omega

/-- A backslash that is not saved is taken for the character after it. -/
theorem escape_backslash {literal : Str} (h : p.currentChar = '\\') :
    p.escape literal = .ok (p.readSave literal '\\') := by
  unfold escape
  rw [h]
  rfl

theorem goes_of_stuck (h : Stuck r) : ∃ r', Goes pass r r' ∧ Stuck r' := by
  obtain ⟨cycles, p, reading⟩ := r
  obtain ⟨hfull, hgoes⟩ := h
  dsimp only at hfull hgoes
  have hsave : p.saveCurrent = p := saveToBuffAndNext_eq_self hfull
  cases reading with
  | tokens | token | utf8 | long => exact hgoes.elim
  | name =>
    refine ⟨⟨cycles, p, .name⟩, ?_, hfull, hgoes⟩
    simp [Goes, pass, namePass, hsave, hgoes]
  | numeral dotexist =>
    refine ⟨⟨cycles, p, .numeral dotexist⟩, ?_, hfull, hgoes⟩
    simp [Goes, pass, numeralPass, GluaTokenParser.numeralPass, hsave, hgoes]
  | sep c count use =>
    refine ⟨⟨cycles, p, .sep c (count + 1) use⟩, ?_, hfull, hgoes⟩
    simp [Goes, pass, sepPass, saveToBuffAndNext_eq_self hfull, hgoes]
  | string delimiter literal =>
    obtain ⟨hdelimiter, heof, hline⟩ := hgoes
    by_cases hback : p.currentChar = '\\'
    · obtain ⟨hfull', hrest⟩ := full_onlySave (p := p) (c := '\\') hfull
      have hchar : (p.onlySave '\\').currentChar = p.currentChar := by
        rw [currentChar, hrest]
        rfl
      let literal' := if p.currentChar != '\\' || p.nextTokenChar != 'z' then
        literal ++ [p.currentChar] else literal
      refine ⟨⟨cycles, p.onlySave '\\', .string delimiter (literal' ++ [p.currentChar])⟩, ?_, hfull', ?_⟩
      · simp only [Goes, pass, stringPass, hsave, beq_eq_false_iff_ne.mpr hdelimiter,
          beq_eq_false_iff_ne.mpr heof, hline, Bool.or_false, Bool.false_eq_true, if_false]
        rw [if_pos (by simpa using hback), if_neg (by rw [hback]; decide), escape_backslash hback]
        simp only [readSave, hsave, literal']
      dsimp only
      rw [hchar]
      exact ⟨hdelimiter, heof, hline⟩
    · refine ⟨⟨cycles, p, .string delimiter (literal ++ [p.currentChar])⟩, ?_, hfull, hdelimiter, heof,
        hline⟩
      simp [Goes, pass, stringPass, hsave, hdelimiter, heof, hline, hback]

/-! ## No token to take again -/

/-- A long string is left before its end, and there is no token yet. -/
def Lost (r : TokenRun) : Prop :=
  r.parser.tokens = [] ∧
    match r.reading with
    | .long isString _ _ => isString = true ∧ r.parser.rest ≠ [] ∧
        (r.parser.full = true ∨ r.parser.currentChar = eofTokenChar)
    | .sep c count use => use = .bracket ∧ r.parser.currentChar ≠ '=' ∧
        0 ≤ sepCount r.parser c count ∧ endCycle (r.parser.cycleCount + 1) = true
    | _ => False

theorem got_ne_noLastToken {token : GluaParserToken} : got cycles p token ≠ .error .noLastToken := by
  unfold got
  split <;> nofun

theorem endLong_ne_noLastToken {isString : Bool} {line : Nat} :
    endLong cycles p isString line ≠ .error .noLastToken := by
  unfold endLong
  split
  · exact got_ne_noLastToken
  · nofun

theorem leaveLong_eq_noLastToken {isString : Bool} :
    leaveLong cycles p isString = .error .noLastToken ↔ isString = true ∧ p.tokens = [] := by
  unfold leaveLong
  cases isString with
  | false => simp
  | true =>
    by_cases htokens : p.tokens = []
    · simp [htokens]
    · simpa [htokens, gotLast] using got_ne_noLastToken

theorem enterLong_eq_noLastToken {isString : Bool} {sep : Int} :
    enterLong cycles p isString sep = .error .noLastToken ↔
      isString = true ∧ p.tokens = [] ∧ endCycle (p.cycleCount + 1) = true := by
  unfold enterLong
  dsimp only
  split
  · rename_i hcycle
    rw [leaveLong_eq_noLastToken]
    simp [hcycle]
  · rename_i hcycle
    simp [hcycle]

theorem longCharPass_eq_noLastToken {isString : Bool} {sep : Int} {line : Nat} :
    longCharPass cycles p isString sep line = .error .noLastToken ↔
      isString = true ∧ p.tokens = [] ∧ p.currentChar = eofTokenChar := by
  unfold longCharPass
  dsimp only
  by_cases heof : p.currentChar = eofTokenChar
  · rw [if_pos (by simpa using heof), leaveLong_eq_noLastToken]
    simp [heof]
  · rw [if_neg (by simpa using heof)]
    refine iff_of_false (fun h => ?_) fun h => heof h.2.2
    repeat' split at h
    · exact endLong_ne_noLastToken h
    all_goals cases h

theorem longPass_eq_noLastToken {isString : Bool} {sep : Int} {line : Nat} :
    longPass cycles p isString sep line = .error .noLastToken ↔
      Lost ⟨cycles, p, .long isString sep line⟩ := by
  unfold longPass Lost
  dsimp only
  by_cases hrest : p.rest = []
  · rw [if_pos (by simpa using hrest)]
    exact iff_of_false endLong_ne_noLastToken fun h => h.2.2.1 hrest
  rw [if_neg (by simpa using hrest)]
  cases hfull : p.full with
  | false =>
    rw [if_pos (Bool.not_false), longCharPass_eq_noLastToken]
    simp only [ne_eq, hrest, not_false_eq_true, true_and, Bool.false_eq_true, false_or]
    exact and_left_comm
  | true =>
    rw [if_neg (by simp)]
    cases isString with
    | true =>
      rw [if_pos rfl, leaveLong_eq_noLastToken]
      simp [hrest]
    | false =>
      rw [if_neg (by simp), longCharPass_eq_noLastToken]
      simp

theorem sepPass_eq_noLastToken {c : Char} {count : Int} {use : SepUse} :
    sepPass cycles p c count use = .error .noLastToken ↔ Lost ⟨cycles, p, .sep c count use⟩ := by
  unfold sepPass Lost
  dsimp only
  by_cases hequals : p.currentChar = '='
  · rw [if_pos (by simpa using hequals)]
    exact iff_of_false nofun fun h => h.2.2.1 hequals
  rw [if_neg (by simpa using hequals)]
  cases use with
  | comment =>
    refine iff_of_false ?_ fun h => nomatch h.2.1
    dsimp only
    split
    · rw [enterLong_eq_noLastToken]
      nofun
    · nofun
  | bracket =>
    dsimp only
    by_cases hsep : 0 ≤ sepCount p c count
    · rw [if_pos hsep, enterLong_eq_noLastToken]
      simp [hsep, hequals]
    · rw [if_neg hsep]
      refine iff_of_false ?_ fun h => hsep h.2.2.2.1
      split
      · nofun
      · exact got_ne_noLastToken
  | closing isString opened line =>
    refine iff_of_false ?_ fun h => nomatch h.2.1
    dsimp only
    repeat' split
    · exact endLong_ne_noLastToken
    · nofun
    · nofun

theorem pass_eq_noLastToken : pass r = .error .noLastToken ↔ Lost r := by
  obtain ⟨cycles, p, reading⟩ := r
  cases reading with
  | sep c count use => exact sepPass_eq_noLastToken
  | long isString sep line => exact longPass_eq_noLastToken
  | tokens =>
    refine iff_of_false (fun h => ?_) fun h => h.2
    simp only [pass, tokensPass] at h
    split at h
    · cases h
    · split at h
      · exact got_ne_noLastToken h
      · cases h
  | token =>
    refine iff_of_false (fun h => ?_) fun h => h.2
    simp only [pass, tokenPass] at h
    repeat' split at h
    all_goals first
    | cases h
    | exact got_ne_noLastToken h
  | name =>
    refine iff_of_false (fun h => ?_) fun h => h.2
    simp only [pass, namePass] at h
    split at h
    · cases h
    · exact got_ne_noLastToken h
  | numeral dotexist =>
    refine iff_of_false (fun h => ?_) fun h => h.2
    simp only [pass, numeralPass] at h
    split at h
    · cases h
    · cases h
    · exact got_ne_noLastToken h
  | string delimiter literal =>
    refine iff_of_false (fun h => ?_) fun h => h.2
    simp only [pass, stringPass] at h
    repeat' split at h
    all_goals first
    | cases h
    | exact got_ne_noLastToken h
  | utf8 delimiter literal v =>
    refine iff_of_false (fun h => ?_) fun h => h.2
    simp only [pass, utf8Pass] at h
    repeat' split at h
    all_goals cases h

/-! ## The end of a run -/

/-- No loop of a run goes on with a character after a full buffer, and no token is taken again before
there is one. -/
def Passable (code : Str) : Prop :=
  ∀ r, Reaches pass (start code) r → ¬ Stuck r ∧ ¬ Lost r

theorem inside_of_reaches {code : Str} (h : Reaches pass (start code) r) : Inside r :=
  h.keeps (fun _ _ hr hgoes => (moves_pass hgoes).inside hr) ⟨Nat.zero_lt_succ _, nofun⟩

theorem parseEnds_iff_passable (code : Str) : ParseEnds code ↔ Passable code := by
  constructor
  · rintro ⟨t, ht, hend⟩ r hr
    have hlast : ∀ t', ¬ Goes pass t t' := by
      intro t' hgoes
      rw [Goes] at hgoes
      obtain ⟨p, hp⟩ | ⟨e, he⟩ := hend
      · simp [hp] at hgoes
      · simp [he] at hgoes
    refine ⟨fun hstuck => not_halts_of_stuck (fun _ => goes_of_stuck) hr hstuck ⟨t, ht, hlast⟩,
      fun hlost => ?_⟩
    have hfail := pass_eq_noLastToken.mpr hlost
    obtain rfl : t = r := ht.last_unique hr hlast fun r' hgoes => by simp [Goes, hfail] at hgoes
    obtain ⟨p, hp⟩ | ⟨e, he⟩ := hend
    · simp [hp] at hfail
    · simp [he] at hfail
  · intro h
    obtain ⟨t, ht, hlast⟩ := halts_of_lower lower_wf fun r hr r' hgoes =>
      (moves_pass hgoes).lower (h r hr).1
    refine ⟨t, ht, ?_⟩
    cases hpass : pass t with
    | error e =>
      cases e with
      | thrown e => exact .inr ⟨e, rfl⟩
      | noLastToken => exact absurd (pass_eq_noLastToken.mp hpass) (h t ht).2
    | ok next =>
      cases next with
      | inl t' => exact absurd hpass (hlast t')
      | inr p => exact .inl ⟨p, rfl⟩

end TokenRun

end Achain.Glua
