import Achain.Proofs.TokenReading
import Mathlib.Data.List.TakeWhile

/-!
# Printed tokens

What `dump` prints for a token is read as that token again, unless it is printed right after one that
would go on with it.
-/

namespace Achain.Glua

open Loops

/-- What is compared of two tokens. -/
def GluaParserToken.content (t : GluaParserToken) : TokenType × Str × Str :=
  (t.type, t.token, t.sourceToken)

namespace GluaTokenParser

variable {p q : GluaTokenParser} {x y r b : Str} {c d : Char} {t : GluaParserToken}

/-- A parser that has pushed a token, before what is left of the text. -/
def pushed (p : GluaTokenParser) (x : Str) (t : GluaParserToken) : GluaTokenParser := { p with
  rest := x
  parsingBuff := []
  tokens := p.tokens ++ [t] }

@[simp] theorem pushed_cycleCount {t : GluaParserToken} :
    (p.pushed x t).cycleCount = p.cycleCount := rfl

/-- The parser in the next cycle. -/
def nextCycle (p : GluaTokenParser) : GluaTokenParser := { p with cycleCount := p.cycleCount + 1 }

theorem gotToken_pushed {t : GluaParserToken} :
    (p.pushed x t).gotToken = .ok (.inr (p.pushed x t, t)) := by
  simp [gotToken, lastToken, pushed]

theorem pushNewToken_reading {ty : TokenType} (hb : ∀ c ∈ b, c ≠ nullChar) :
    (p.reading x b).pushNewToken ty 0 = p.pushed x
      { token := b
        sourceToken := []
        type := if ty = .ltkName then getTokenTypeBySymbolName b else ty
        linenumber := p.parsingLinenumber } := by
  have htake : b.takeWhile (· != nullChar) = b :=
    List.takeWhile_eq_self_iff.2 fun c hc => bne_iff_ne.2 (hb c hc)
  simp [pushNewToken, pushed, htake, reading]

/-- The characters that `dump` can put right after a token. -/
def separators : List Char := [eofTokenChar, ' ', '\n', '(', ')', ']', '.', ':', '[']

/-- A token of a type would go on with a character. -/
def touches : TokenType → Char → Bool
  | .ltkInt, c | .ltkFlt, c | .ltkConcat, c | .char '.', c => c == '.'
  | .char ':', c | .char '?', c => c == ':'
  | .char '[', c => c == '['
  | _, _ => false

/-- The characters that a token of some type would go on with. -/
def joinable : List Char := ['.', ':', '[']

theorem joinable_of_touches {ty : TokenType} (h : touches ty c = true) : c ∈ joinable := by
  unfold touches at h
  split at h
  all_goals first
    | cases h
    | rw [beq_iff_eq.1 h]; decide

/-- The character that a parser is at makes a token of its own. -/
def alone (p : GluaTokenParser) (c : Char) : Bool :=
  p.currentChar == c && p.nextTokenChar != c && !(c == '[' && p.nextTokenChar == '=')

/-- A token of a type ends before a character. -/
def Follows (ty : TokenType) (c : Char) : Prop := c ∈ separators ∧ touches ty c = false

theorem Follows.ne {ty : TokenType} (h : Follows ty c) (hd : d ∉ separators) : c ≠ d := by
  rintro rfl
  exact hd h.1

/-- A parser has pushed a token, which is read again from its text wherever that stands. -/
structure Reread (p q : GluaTokenParser) (t : GluaParserToken) : Prop where
  tokens : q.tokens = p.tokens ++ [t]
  not_eos : t.type ≠ .ltkEos
  ne_nil : t.text ≠ []
  symbol : ∀ c, t.type = .char c → t.text = [c]
  alone : ∀ c ∈ joinable, t.type = .char c → t.linenumber = p.parsingLinenumber ∧ p.alone c = true
  again : ∀ (s : GluaTokenParser) (r : Str), Follows t.type (firstChar r) → (q.rest = [] → r = []) →
    s.cycleCount ≤ p.cycleCount → ∃ s' t', tokenPass (s.reading (t.text ++ r) []) = .ok (.inr (s', t')) ∧
      s'.rest = r ∧ s'.parsingBuff = [] ∧ s'.tokens = s.tokens ++ [t'] ∧
      s'.cycleCount ≤ q.cycleCount ∧ t'.content = t.content

/-- A token that is no string is read again from its characters. -/
theorem reread_chars {ty : TokenType} {line : Nat} (hq : q.tokens = p.tokens ++ [⟨b, [], ty, line⟩])
    (hcycles : p.cycleCount ≤ q.cycleCount) (hstring : ty ≠ .ltkString) (heos : ty ≠ .ltkEos)
    (hne : b ≠ []) (hchar : ∀ c, ty = .char c → b = [c])
    (halone : ∀ c ∈ joinable, ty = .char c → line = p.parsingLinenumber ∧ p.alone c = true)
    (hagain : ∀ (s : GluaTokenParser) (r : Str), Follows ty (firstChar r) →
      ∃ line, tokenPass (s.reading (b ++ r) []) = .ok (.inr (s.pushed r ⟨b, [], ty, line⟩,
        ⟨b, [], ty, line⟩))) : Reread p q ⟨b, [], ty, line⟩ := by
  have htext : (⟨b, [], ty, line⟩ : GluaParserToken).text = b := if_neg hstring
  refine ⟨hq, heos, by rwa [htext], by rwa [htext], halone, fun s r hr _ hs => ?_⟩
  obtain ⟨line', heq⟩ := hagain s r hr
  rw [htext]
  exact ⟨_, _, heq, rfl, rfl, rfl, hs.trans hcycles, rfl⟩

/-! ## Symbols -/

theorem room_short (hb : b.length < 4) : Room b := hb.trans (by decide)

/-- A type is one of a symbol of some characters. -/
def isSymbol : TokenType → Str → Bool
  | .ltkName, _ | .ltkString, _ | .ltkEos, _ => false
  | .char c, b => b == [c] && c != nullChar
  | _, b => b.all (· != nullChar) && !b.isEmpty

structure SymbolType (ty : TokenType) (b : Str) : Prop where
  not_null : ∀ c ∈ b, c ≠ nullChar
  not_name : ty ≠ .ltkName
  not_string : ty ≠ .ltkString
  not_eos : ty ≠ .ltkEos
  ne_nil : b ≠ []
  char : ∀ c, ty = .char c → b = [c]

theorem symbolType {ty : TokenType} (h : isSymbol ty b = true) : SymbolType ty b := by
  refine ⟨?_, ?_, ?_, ?_, ?_, ?_⟩ <;> cases ty <;> simp_all [isSymbol]

theorem SymbolType.push {ty : TokenType} (h : SymbolType ty b) :
    ((p.reading x b).pushNewToken ty 0).gotToken =
      .ok (.inr (p.pushed x ⟨b, [], ty, p.parsingLinenumber⟩, ⟨b, [], ty, p.parsingLinenumber⟩)) := by
  rw [pushNewToken_reading h.not_null, if_neg h.not_name, gotToken_pushed]

theorem singleCharToken_reading {ty : TokenType} (h : SymbolType ty [c]) :
    (p.reading (c :: x) []).singleCharToken ty =
      .ok (.inr (p.pushed x ⟨[c], [], ty, p.parsingLinenumber⟩, ⟨[c], [], ty, p.parsingLinenumber⟩)) := by
  rw [singleCharToken, saveCurrent_reading (room_short (by simp))]
  exact h.push

theorem doubleCharsToken_reading {ty : TokenType} (h : SymbolType ty [c, d]) :
    (p.reading (c :: d :: x) []).doubleCharsToken ty = .ok (.inr
      (p.pushed x ⟨[c, d], [], ty, p.parsingLinenumber⟩, ⟨[c, d], [], ty, p.parsingLinenumber⟩)) := by
  rw [doubleCharsToken, saveCurrent_reading (room_short (by simp)), saveCurrent_reading (room_short (by simp))]
  exact h.push

theorem threeCharsToken_reading {ty : TokenType} {e : Char} (h : SymbolType ty [c, d, e]) :
    (p.reading (c :: d :: e :: x) []).threeCharsToken ty = .ok (.inr
      (p.pushed x ⟨[c, d, e], [], ty, p.parsingLinenumber⟩,
        ⟨[c, d, e], [], ty, p.parsingLinenumber⟩)) := by
  rw [threeCharsToken, saveCurrent_reading (room_short (by simp)),
    saveCurrent_reading (room_short (by simp)), saveCurrent_reading (room_short (by simp))]
  exact h.push

/-- A symbol that has been pushed is read again, if its characters make it before what follows it. -/
theorem SymbolType.reread {ty : TokenType} (h : SymbolType ty b)
    (hpass : (.ok (.inr (p.pushed x ⟨b, [], ty, p.parsingLinenumber⟩,
      ⟨b, [], ty, p.parsingLinenumber⟩)) : Passed) = .ok (.inr (q, t)))
    (halone : ∀ c ∈ joinable, ty = .char c → p.alone c = true)
    (hagain : ∀ (s : GluaTokenParser) (r : Str), Follows ty (firstChar r) →
      tokenPass (s.reading (b ++ r) []) = .ok (.inr (s.pushed r ⟨b, [], ty, s.parsingLinenumber⟩,
        ⟨b, [], ty, s.parsingLinenumber⟩))) : Reread p q t := by
  cases hpass
  exact reread_chars rfl le_rfl h.not_string h.not_eos h.ne_nil h.char
    (fun c hc hty => ⟨rfl, halone c hc hty⟩) fun s r hr => ⟨_, hagain s r hr⟩

/-- A symbol that may be the first character of another one. -/
theorem reread_single {ty : TokenType} (h : SymbolType ty [c])
    (hpass : (p.reading (c :: x) []).singleCharToken ty = .ok (.inr (q, t)))
    (halone : ∀ e ∈ joinable, ty = .char e → (p.reading (c :: x) []).alone e = true)
    (hagain : ∀ (s : GluaTokenParser) (r : Str), Follows ty (firstChar r) →
      tokenPass (s.reading (c :: r) []) = (s.reading (c :: r) []).singleCharToken ty) :
    Reread (p.reading (c :: x) []) q t :=
  h.reread ((singleCharToken_reading h).symm.trans hpass) halone fun s r hr =>
    (hagain s r hr).trans (singleCharToken_reading h)

theorem reread_double {ty : TokenType} (h : SymbolType ty [c, d])
    (hpass : (p.reading (c :: d :: x) []).doubleCharsToken ty = .ok (.inr (q, t)))
    (hagain : ∀ (s : GluaTokenParser) (r : Str), Follows ty (firstChar r) →
      tokenPass (s.reading (c :: d :: r) []) = (s.reading (c :: d :: r) []).doubleCharsToken ty) :
    Reread (p.reading (c :: d :: x) []) q t :=
  h.reread ((doubleCharsToken_reading h).symm.trans hpass)
    (fun e _ hty => by simpa using h.char e hty) fun s r hr =>
    (hagain s r hr).trans (doubleCharsToken_reading h)

/-- A character that makes a symbol of its own, or another one with a character after it. -/
theorem reread_branch {ty ty' : TokenType} (h : SymbolType ty [c, d]) (h' : SymbolType ty' [c])
    (hseparator : d ∉ separators ∨ touches ty' d = true)
    (hself : ∀ e ∈ joinable, ty' = .char e → d = e ∧ e ≠ '[')
    (hbranch : ∀ (s : GluaTokenParser) (r : Str), tokenPass (s.reading (c :: r) []) =
      if firstChar r == d then (s.reading (c :: r) []).doubleCharsToken ty
      else (s.reading (c :: r) []).singleCharToken ty') (hd : d ≠ eofTokenChar)
    (hpass : tokenPass (p.reading (c :: x) []) = .ok (.inr (q, t))) :
    Reread (p.reading (c :: x) []) q t := by
  rw [hbranch] at hpass
  split_ifs at hpass with hfirst
  · obtain ⟨y, rfl⟩ := eq_cons_of_firstChar (beq_iff_eq.1 hfirst) hd
    refine reread_double h hpass fun s r _ => ?_
    rw [hbranch, firstChar_cons, beq_self_eq_true, if_pos rfl]
  · refine reread_single h' hpass (fun e he hty => ?_) fun s r hr => ?_
    · obtain rfl := List.singleton_inj.1 (h'.char e hty)
      obtain ⟨rfl, hne⟩ := hself _ he hty
      simp only [Bool.not_eq_true] at hfirst
      simp [alone, bne, hfirst, hne]
    rw [hbranch, if_neg]
    rw [beq_iff_eq]
    rcases hseparator with hd | hd
    · exact hr.ne hd
    · intro heq
      have hfalse := hr.2
      rw [heq, hd] at hfalse
      cases hfalse

/-- The same with another character after it, too. -/
theorem reread_branches {ty₁ ty₂ ty : TokenType} {d₁ d₂ : Char} (h₁ : SymbolType ty₁ [c, d₁])
    (h₂ : SymbolType ty₂ [c, d₂]) (h : SymbolType ty [c]) (hd₁ : d₁ ∉ separators)
    (hd₂ : d₂ ∉ separators) (hne : d₂ ≠ d₁) (hself : ∀ e ∈ joinable, ty ≠ .char e)
    (hbranch : ∀ (s : GluaTokenParser) (r : Str), tokenPass (s.reading (c :: r) []) =
      if firstChar r == d₁ then (s.reading (c :: r) []).doubleCharsToken ty₁
      else if firstChar r == d₂ then (s.reading (c :: r) []).doubleCharsToken ty₂
      else (s.reading (c :: r) []).singleCharToken ty)
    (hpass : tokenPass (p.reading (c :: x) []) = .ok (.inr (q, t))) :
    Reread (p.reading (c :: x) []) q t := by
  have heof {d : Char} (hd : d ∉ separators) : d ≠ eofTokenChar := by
    rintro rfl
    exact hd (by decide)
  rw [hbranch] at hpass
  split_ifs at hpass with hfirst hfirst'
  · obtain ⟨y, rfl⟩ := eq_cons_of_firstChar (beq_iff_eq.1 hfirst) (heof hd₁)
    refine reread_double h₁ hpass fun s r _ => ?_
    rw [hbranch, firstChar_cons, beq_self_eq_true, if_pos rfl]
  · obtain ⟨y, rfl⟩ := eq_cons_of_firstChar (beq_iff_eq.1 hfirst') (heof hd₂)
    refine reread_double h₂ hpass fun s r _ => ?_
    rw [hbranch, firstChar_cons, beq_false_of_ne hne, if_neg (by simp), beq_self_eq_true, if_pos rfl]
  · refine reread_single h hpass (fun e he hty => absurd hty (hself e he)) fun s r hr => ?_
    rw [hbranch, beq_false_of_ne (hr.ne hd₁), beq_false_of_ne (hr.ne hd₂), if_neg (by simp),
      if_neg (by simp)]

theorem reread_question (hpass : tokenPass (p.reading ('?' :: x) []) = .ok (.inr (q, t))) :
    Reread (p.reading ('?' :: x) []) q t :=
  reread_branch (symbolType rfl) (symbolType rfl) (.inr rfl) (forall_mem_of_all rfl)
    (fun _ _ => rfl) (by decide) hpass

theorem reread_equals (hpass : tokenPass (p.reading ('=' :: x) []) = .ok (.inr (q, t))) :
    Reread (p.reading ('=' :: x) []) q t :=
  reread_branches (symbolType rfl) (symbolType rfl) (symbolType rfl) (by decide) (by decide) (by decide)
    (forall_mem_of_all rfl) (fun _ _ => rfl) hpass

theorem reread_less (hpass : tokenPass (p.reading ('<' :: x) []) = .ok (.inr (q, t))) :
    Reread (p.reading ('<' :: x) []) q t :=
  reread_branches (symbolType rfl) (symbolType rfl) (symbolType rfl) (by decide) (by decide) (by decide)
    (forall_mem_of_all rfl) (fun _ _ => rfl) hpass

theorem reread_greater (hpass : tokenPass (p.reading ('>' :: x) []) = .ok (.inr (q, t))) :
    Reread (p.reading ('>' :: x) []) q t :=
  reread_branches (symbolType rfl) (symbolType rfl) (symbolType rfl) (by decide) (by decide) (by decide)
    (forall_mem_of_all rfl) (fun _ _ => rfl) hpass

theorem reread_slash (hpass : tokenPass (p.reading ('/' :: x) []) = .ok (.inr (q, t))) :
    Reread (p.reading ('/' :: x) []) q t :=
  reread_branch (symbolType rfl) (symbolType rfl) (.inl (by decide)) (forall_mem_of_all rfl)
    (fun _ _ => rfl) (by decide) hpass

theorem reread_tilde (hpass : tokenPass (p.reading ('~' :: x) []) = .ok (.inr (q, t))) :
    Reread (p.reading ('~' :: x) []) q t :=
  reread_branch (symbolType rfl) (symbolType rfl) (.inl (by decide)) (forall_mem_of_all rfl)
    (fun _ _ => rfl) (by decide) hpass

theorem reread_colon (hpass : tokenPass (p.reading (':' :: x) []) = .ok (.inr (q, t))) :
    Reread (p.reading (':' :: x) []) q t :=
  reread_branch (symbolType rfl) (symbolType rfl) (.inr rfl) (forall_mem_of_all rfl)
    (fun _ _ => rfl) (by decide) hpass

theorem tokenPass_dot (s : GluaTokenParser) (r : Str) : tokenPass (s.reading ('.' :: r) []) =
    if firstChar r == '.' then
      if firstChar r.tail == '.' then (s.reading ('.' :: r) []).threeCharsToken .ltkDots
      else (s.reading ('.' :: r) []).doubleCharsToken .ltkConcat
    else (s.reading ('.' :: r) []).singleCharToken (.char '.') := rfl

/-- One to three dots. -/
theorem reread_dot (hpass : tokenPass (p.reading ('.' :: x) []) = .ok (.inr (q, t))) :
    Reread (p.reading ('.' :: x) []) q t := by
  have hne {ty : TokenType} {c : Char} (hty : touches ty '.' = true) (hc : Follows ty c) :
      (c == '.') = false := by
    rw [beq_eq_false_iff_ne]
    rintro rfl
    rw [hc.2] at hty
    cases hty
  rw [tokenPass_dot] at hpass
  split_ifs at hpass with hfirst hsecond
  · obtain ⟨y, rfl⟩ := eq_cons_of_firstChar (beq_iff_eq.1 hfirst) (by decide)
    obtain ⟨z, rfl⟩ := eq_cons_of_firstChar (beq_iff_eq.1 hsecond) (by decide)
    have hdots : SymbolType .ltkDots ['.', '.', '.'] := symbolType rfl
    exact hdots.reread ((threeCharsToken_reading hdots).symm.trans hpass) (fun _ _ => TokenType.noConfusion)
      fun s r _ => threeCharsToken_reading hdots
  · obtain ⟨y, rfl⟩ := eq_cons_of_firstChar (beq_iff_eq.1 hfirst) (by decide)
    refine reread_double (symbolType rfl) hpass fun s r hr => ?_
    rw [tokenPass_dot, firstChar_cons, List.tail_cons, hne rfl hr]
    rfl
  · refine reread_single (symbolType rfl) hpass (fun e _ hty => ?_) fun s r hr => ?_
    · obtain rfl := TokenType.char.inj hty
      simp only [Bool.not_eq_true] at hfirst
      simp [alone, bne, hfirst]
    rw [tokenPass_dot, hne rfl hr]
    rfl

/-- A minus, which leaves the buffer as it is. -/
theorem reread_minus (hpass : tokenPass (p.reading ('-' :: x) b) = .ok (.inr (q, t))) :
    Reread (p.reading ('-' :: x) b) q t := by
  have hminus (s : GluaTokenParser) (r b : Str) (hr : firstChar r ≠ '-') :
      tokenPass (s.reading ('-' :: r) b) = .ok (.inr ({ s.reading r b with
        tokens := s.tokens ++ [⟨['-'], [], .char '-', s.parsingLinenumber⟩] },
          ⟨['-'], [], .char '-', s.parsingLinenumber⟩)) := by
    change (if firstChar r != '-' then _ else _) = _
    rw [if_pos (bne_iff_ne.2 hr)]
    rfl
  by_cases hfirst : firstChar x = '-'
  · change (if firstChar x != '-' then _ else _) = _ at hpass
    rw [if_neg (by simp [hfirst])] at hpass
    dsimp only at hpass
    split_ifs at hpass
    · obtain ⟨⟨u, k⟩, -, hpass⟩ := Result.bind_eq_ok.1 hpass
      dsimp only at hpass
      split_ifs at hpass
      · obtain ⟨v, -, hpass⟩ := Result.bind_eq_ok.1 hpass
        cases hpass
      · cases hpass
    · cases hpass
  · rw [hminus p x b hfirst] at hpass
    cases hpass
    exact reread_chars rfl le_rfl (by decide) (by decide) (by decide) (by rintro c ⟨⟩; rfl)
      (fun e he hty => absurd (TokenType.char.inj hty ▸ he) (by decide))
      fun s r hr => ⟨_, hminus s r [] (hr.ne (by decide))⟩

/-- The characters that a pass over the text looks for. -/
def specialChars : List Char :=
  ['\n', '\r', ' ', '\x0c', '\t', '\x0b', '-', '[', '?', '=', '<', '>', '/', '~', ':', '"', '\'', '.']

theorem joinable_special : ∀ c ∈ joinable, c ∈ specialChars := forall_mem_of_all rfl

theorem tokenPass_default (hc : c ∉ specialChars) : tokenPass (p.reading (c :: x) b) =
    if isDigit c then do
      let p ← (p.reading (c :: x) b).readNumeral
      p.gotToken
    else if c == eofTokenChar then ((p.reading (c :: x) b).pushNewToken .ltkEos 0).gotToken
    else if charValue c < 0 then .ok (.inl (p.reading x b))
    else if isAlpha c || c == '_' then do
      let p ← iterate .endless namePass ((c :: x).length + 1) (p.reading (c :: x) b)
      (p.pushNewToken .ltkName 0).gotToken
    else ((p.reading (c :: x) b).saveToBuffAndNext c |>.pushNewToken (.char c) 0).gotToken := by
  have hne {d : Char} (hd : d ∈ specialChars) : (p.reading (c :: x) b).currentChar ≠ d := by
    rintro rfl
    exact hc hd
  unfold tokenPass
  rw [if_neg (by simp)]
  split
  iterate 18 exact absurd ‹_› (hne (by decide))
  rfl

theorem separators_spec : ∀ c ∈ separators, isNameChar c = false ∧ isBase16Digit c = false :=
  forall_mem_of_all rfl

theorem isNameChar_null : isNameChar nullChar = false := by decide

/-- The type of a name is that of a name or of a word. -/
theorem symbolName_type (b : Str) : getTokenTypeBySymbolName b ≠ .ltkString ∧
    getTokenTypeBySymbolName b ≠ .ltkEos ∧ ∀ c, getTokenTypeBySymbolName b ≠ .char c := by
  have hwords : ∀ ty ∈ symbolNameTokenTypeMapping.map Prod.snd,
      ty ≠ .ltkString ∧ ty ≠ .ltkEos ∧ ∀ c, ty ≠ .char c := by
    simp [symbolNameTokenTypeMapping]
  rw [getTokenTypeBySymbolName]
  cases hword : symbolNameTokenTypeMapping.lookup b with
  | none => simp
  | some ty =>
    obtain ⟨l₁, l₂, heq, -⟩ := List.lookup_eq_some_iff.1 hword
    exact hwords ty (by rw [heq]; simp)

theorem reread_name (hspecial : c ∉ specialChars) (hdigit : isDigit c = false) (heof : c ≠ eofTokenChar)
    (hsign : ¬charValue c < 0) (hname : (isAlpha c || c == '_') = true)
    (hpass : tokenPass (p.reading (c :: x) []) = .ok (.inr (q, t))) :
    Reread (p.reading (c :: x) []) q t := by
  have hsame (s : GluaTokenParser) (r : Str) : tokenPass (s.reading (c :: r) []) = (do
      let p ← iterate .endless namePass ((c :: r).length + 1) (s.reading (c :: r) [])
      (p.pushNewToken .ltkName 0).gotToken) := by
    rw [tokenPass_default hspecial, hdigit, beq_false_of_ne heof, if_neg (by simp), if_neg (by simp),
      if_neg hsign, if_pos hname]
  have hc : isNameChar c = true := by
    rw [isNameChar, hname]
    rfl
  rw [hsame] at hpass
  obtain ⟨u, hloop, hpass⟩ := Result.bind_eq_ok.1 hpass
  obtain ⟨ds, y, rfl, rfl, hds, hagain⟩ := name_again (room_short (by simp)) hloop
  have hnull : ∀ d ∈ c :: ds, d ≠ nullChar := by
    rintro d hd rfl
    rcases List.mem_cons.1 hd with rfl | hd
    · rw [isNameChar_null] at hc
      cases hc
    · have hd := hds _ hd
      rw [isNameChar_null] at hd
      cases hd
  obtain ⟨hstring, heos, hchar⟩ := symbolName_type (c :: ds)
  rw [List.nil_append, pushNewToken_reading hnull, if_pos rfl, gotToken_pushed] at hpass
  cases hpass
  refine reread_chars rfl le_rfl hstring heos (by simp) (fun d hd => absurd hd (hchar d))
    (fun d _ hd => absurd hd (hchar d)) fun s r hr => ?_
  have hread := hagain s r ((c :: (ds ++ r)).length + 1) (separators_spec _ hr.1).1 (by simp; omega)
  refine ⟨s.parsingLinenumber, ?_⟩
  rw [List.cons_append, hsame, hread, Result.ok_bind, List.nil_append, pushNewToken_reading hnull, if_pos rfl,
    gotToken_pushed]

/-- The token of a numeral, whose buffer ends with a null if that fits. -/
theorem pushNewToken_null {ty : TokenType} (hb : ∀ c ∈ b, c ≠ nullChar) (hty : ty ≠ .ltkName) :
    ((p.reading x b).saveToBuff nullChar).pushNewToken ty 0 =
      p.pushed x ⟨b, [], ty, p.parsingLinenumber⟩ := by
  by_cases hroom : Room b
  · have htake : (b ++ [nullChar]).takeWhile (· != nullChar) = b := by
      rw [List.takeWhile_append_of_pos fun c hc => bne_iff_ne.2 (hb c hc)]
      simp
    rw [saveToBuff_reading hroom]
    simp [pushNewToken, pushed, reading, htake, hty]
  · rw [saveToBuff_of_full hroom, pushNewToken_reading hb, if_neg hty]

theorem readNumeral_reading : (p.reading (c :: x) []).readNumeral =
    iterate .endless numeralPass (x.length + 1) (p.reading x [c], false) >>= fun s =>
      pure ((s.1.saveToBuff nullChar).pushNewToken (if s.2 then .ltkFlt else .ltkInt) 0) := by
  simp only [readNumeral, saveCurrent_reading (room_short (b := []) (by simp)), List.nil_append, reading_rest]

theorem reread_numeral (hspecial : c ∉ specialChars) (hdigit : isDigit c = true)
    (hpass : tokenPass (p.reading (c :: x) []) = .ok (.inr (q, t))) :
    Reread (p.reading (c :: x) []) q t := by
  rw [tokenPass_default hspecial, if_pos hdigit] at hpass
  obtain ⟨u, hread, hpass⟩ := Result.bind_eq_ok.1 hpass
  rw [readNumeral_reading] at hread
  obtain ⟨⟨v, isFloat⟩, hloop, hread⟩ := Result.bind_eq_ok.1 hread
  obtain ⟨ds, y, rfl, hv, hds, hagain⟩ := numeral_again hloop
  obtain rfl : v = p.reading y (c :: ds) := hv
  have hnull : ∀ d ∈ c :: ds, d ≠ nullChar := by
    rintro d hd rfl
    rcases List.mem_cons.1 hd with rfl | hd
    · exact absurd hdigit (by decide)
    · exact hds _ hd rfl
  have hty : (if isFloat = true then TokenType.ltkFlt else .ltkInt) ≠ .ltkName := by
    split_ifs <;> decide
  rw [pushNewToken_null hnull hty] at hread
  cases hread
  rw [gotToken_pushed] at hpass
  cases hpass
  refine reread_chars rfl le_rfl (by split_ifs <;> decide) (by split_ifs <;> decide) (by simp)
    (by split_ifs <;> simp) (by split_ifs <;> simp) fun s r hr => ⟨s.parsingLinenumber, ?_⟩
  have hdot : firstChar r ≠ '.' := by
    intro heq
    have htouches := hr.2
    rw [heq] at htouches
    revert htouches
    split_ifs <;> decide
  have hread := hagain s r ((ds ++ r).length + 1) (separators_spec _ hr.1).2 hdot
    (by rw [List.length_append]; omega)
  rw [List.cons_append, tokenPass_default hspecial, if_pos hdigit, readNumeral_reading, hread,
    Result.ok_bind]
  change (pure _ >>= _) = _
  rw [pure_bind, List.singleton_append, pushNewToken_null hnull hty, gotToken_pushed]

/-- A character of no other meaning. -/
theorem reread_single_default (hspecial : c ∉ specialChars) (hnull : c ≠ nullChar)
    (hdigit : isDigit c = false) (heof : c ≠ eofTokenChar) (hsign : ¬charValue c < 0)
    (hname : (isAlpha c || c == '_') = false)
    (hpass : tokenPass (p.reading (c :: x) []) = .ok (.inr (q, t))) :
    Reread (p.reading (c :: x) []) q t := by
  have hsame (s : GluaTokenParser) (r : Str) : tokenPass (s.reading (c :: r) []) =
      (s.reading (c :: r) []).singleCharToken (.char c) := by
    rw [tokenPass_default hspecial, hdigit, beq_false_of_ne heof, if_neg (by simp), if_neg (by simp),
      if_neg hsign, hname, if_neg (by simp)]
    rfl
  have hsymbol : isSymbol (.char c) [c] = true := by simp [isSymbol, hnull]
  rw [hsame] at hpass
  refine reread_single (symbolType hsymbol) hpass (fun e he hty => ?_) fun s r _ => hsame s r
  obtain rfl := TokenType.char.inj hty
  exact absurd he fun he => hspecial (joinable_special _ he)

/-! ## Strings -/

/-- The token of a string whose characters and spelling have been read. -/
def stringToken (b literal : Str) (line : Nat) : GluaParserToken where
  token := (b.takeWhile (· != nullChar)).tail.take ((b.takeWhile (· != nullChar)).length - 2)
  sourceToken := literal
  type := .ltkString
  linenumber := line

theorem tokenPass_quote (hd : d = '"' ∨ d = '\'') : tokenPass (p.reading (d :: x) []) =
    iterate .endless (stringPass d) (x.length + 3) (p.reading x [d], [d]) >>= fun s =>
      let u := s.1.saveCurrent.pushNewToken .ltkString 0
      let token := u.lastToken
      let token := { token with
        token := token.token.tail.take (token.token.length - 2)
        sourceToken := s.2 ++ [s.1.currentChar] }
      { u with tokens := u.tokens.dropLast ++ [token] }.gotToken := by
  have hpass : tokenPass (p.reading (d :: x) []) = (p.reading (d :: x) []).readString d >>= gotToken := by
    rcases hd with rfl | rfl <;> rfl
  rw [hpass]
  simp only [readString, saveCurrent_reading (room_short (b := []) (by simp)), List.nil_append, reading_rest,
    currentChar_reading, firstChar_cons, List.length_cons, bind_assoc, pure_bind]

/-- The end of a string. -/
theorem stringEnd (hb : Room b) (literal : Str) (line : Nat) :
    let u := ((p.reading (d :: x) b).atLine line).saveCurrent.pushNewToken .ltkString 0
    let token := u.lastToken
    let token := { token with
      token := token.token.tail.take (token.token.length - 2)
      sourceToken := literal }
    { u with tokens := u.tokens.dropLast ++ [token] }.gotToken = .ok (.inr
      ((p.atLine line).pushed x (stringToken (b ++ [d]) literal line), stringToken (b ++ [d]) literal line)) := by
  have hsave : ((p.reading (d :: x) b).atLine line).saveCurrent = ((p.atLine line).reading x (b ++ [d])) :=
    saveCurrent_reading (p := p.atLine line) hb
  rw [hsave]
  simp [pushNewToken, lastToken, gotToken, pushed, stringToken, reading, atLine]

theorem reread_string (hd : d = '"' ∨ d = '\'')
    (hclean : Through (fun s => stringClean s = true) (stringPass d) (x.length + 3) (p.reading x [d], [d]))
    (hpass : tokenPass (p.reading (d :: x) []) = .ok (.inr (q, t))) : Reread p q t := by
  rw [tokenPass_quote hd] at hpass
  obtain ⟨⟨u, literal⟩, hloop, hpass⟩ := Result.bind_eq_ok.1 hpass
  obtain ⟨g, y, line, rfl, hu, hroom, -, hagain⟩ := string_again hd (ends_of_iterate hloop hclean)
  generalize hb : u.parsingBuff = b at hu hroom hagain
  obtain rfl : u = (p.reading (d :: y) b).atLine line := hu
  have hpass := (stringEnd (p := p) hroom ([d] ++ g ++ [d]) line).symm.trans hpass
  cases hpass
  have htext : (stringToken (b ++ [d]) ([d] ++ g ++ [d]) line).text = d :: (g ++ [d]) := rfl
  refine ⟨rfl, TokenType.noConfusion, by rw [htext]; exact List.cons_ne_nil _ _,
    fun c hc => TokenType.noConfusion hc, fun c _ hc => TokenType.noConfusion hc,
    fun s r _ _ hs => ?_⟩
  refine ⟨(s.atLine s.parsingLinenumber).pushed r (stringToken (b ++ [d]) ([d] ++ g ++ [d]) s.parsingLinenumber),
    _, ?_, rfl, rfl, rfl, hs, rfl⟩
  simp only [reading_parsingBuff] at hagain
  have hread := hagain s [d] r ((g ++ d :: r).length + 3) (by simp; omega)
  rw [htext, List.cons_append, List.append_assoc, List.singleton_append, tokenPass_quote hd, hread]
  exact stringEnd (p := s) hroom ([d] ++ g ++ [d]) s.parsingLinenumber

/-! ## Brackets -/

/-- The parser at the text of a long string, whose second bracket it is at. -/
def longBody (p : GluaTokenParser) : GluaTokenParser :=
  let p := p.nextCycle.saveCurrent
  if isNewLineStart p.currentChar then p.incLine else p

theorem readLongString_eq {sep : Int} : p.readLongString true sep =
    if endCycle (p.cycleCount + 1) then .ok p.nextCycle
    else iterate .endless (longStringPass true sep) (p.longBody.rest.length + 1) p.longBody >>= fun u =>
      pure (u.pushNewToken .ltkString p.parsingLinenumber) := rfl

/-- A long string, if it is read at all, can be read again from what is kept of it: it loses no second
new line at its start, and nothing of what comes after. -/
def LongStringClean (sep : Int) (p : GluaTokenParser) : Prop :=
  endCycle (p.cycleCount + 1) = true ∨ isNewLineStart p.longBody.currentChar = false ∧
    Through (fun p => longClean sep p = true) (longStringPass true sep) (p.longBody.rest.length + 1)
      p.longBody

instance (sep : Int) (p : GluaTokenParser) : Decidable (LongStringClean sep p) :=
  inferInstanceAs (Decidable (_ ∨ _))

theorem bracketOrLongString_eq : p.bracketOrLongString = p.skipSep >>= fun s =>
    if 0 ≤ s.2 then s.1.readLongString true s.2 >>= gotToken
    else if s.2 ≠ -1 then .error .invalidLongStringDelimiter
    else (s.1.pushNewToken (.char '[') 0).gotToken := rfl

theorem tokenPass_bracket {m : Nat} (hb : Room ('[' :: equals m)) (hy : firstChar y ≠ '=') :
    tokenPass (p.reading ('[' :: (equals m ++ y)) []) =
      if 0 ≤ sepOf '[' m (firstChar y) then
        (p.reading y ('[' :: equals m)).readLongString true (sepOf '[' m (firstChar y)) >>= gotToken
      else if sepOf '[' m (firstChar y) ≠ -1 then .error .invalidLongStringDelimiter
      else ((p.reading y ('[' :: equals m)).pushNewToken (.char '[') 0).gotToken := by
  change bracketOrLongString _ = _
  rw [bracketOrLongString_eq, skipSep_reading (b := []) hb hy]
  rfl

/-- A bracket. -/
theorem reread_bracket {m : Nat} (hy : firstChar y ≠ '=') (hone : sepOf '[' m (firstChar y) = -1)
    (hpass : ((p.reading y ('[' :: equals m)).pushNewToken (.char '[') 0).gotToken = .ok (.inr (q, t))) :
    Reread (p.reading ('[' :: (equals m ++ y)) []) q t := by
  have hnot : firstChar y ≠ '[' := by
    intro heq
    rw [sepOf, if_pos heq] at hone
    omega
  obtain rfl : m = 0 := by
    rw [sepOf, if_neg hnot] at hone
    omega
  have hsymbol : SymbolType (.char '[') ['['] := symbolType rfl
  refine hsymbol.reread (hsymbol.push.symm.trans hpass) (fun e _ hty => ?_) fun s r hr => ?_
  · obtain rfl := TokenType.char.inj hty
    simp [alone, equals, hnot, hy]
  have hfirst : firstChar r ≠ '[' := by
    intro heq
    have htouches := hr.2
    rw [heq] at htouches
    cases htouches
  have hread := tokenPass_bracket (p := s) (m := 0) (y := r) (room_short (by simp [equals]))
    (hr.ne (by decide))
  have hk : sepOf '[' 0 (firstChar r) = -1 := if_neg hfirst
  rw [hk, if_neg (by decide), if_neg (by decide)] at hread
  exact hread.trans hsymbol.push

theorem longBody_reading (hb : Room b) : (p.reading (c :: x) b).longBody =
    if isNewLineStart (firstChar x) then (p.nextCycle.reading x (b ++ [c])).incLine
    else p.nextCycle.reading x (b ++ [c]) := by
  have hsave : (p.reading (c :: x) b).nextCycle.saveCurrent = p.nextCycle.reading x (b ++ [c]) :=
    saveCurrent_reading (p := p.nextCycle) hb
  rw [longBody, hsave]
  rfl

/-- The text of a long string has not been saved. -/
theorem longBody_spec (hb : Room b) : ∃ z line,
    (p.reading (c :: x) b).longBody = (p.nextCycle.reading z (b ++ [c])).atLine line := by
  rw [longBody_reading hb]
  split_ifs with hline
  · obtain _ | ⟨d, y⟩ := x
    · exact absurd hline (by decide)
    obtain ⟨line, z, heq, -⟩ := incLine_space (p := p.nextCycle) (c := d) (x := y) (b := b ++ [c])
    exact ⟨z, line, heq⟩
  · exact ⟨x, p.parsingLinenumber, rfl⟩

theorem pushNewToken_string (line : Nat) (hb : ∀ c ∈ b, c ≠ nullChar) :
    (p.reading x b).pushNewToken .ltkString line =
      p.pushed x ⟨b, [], .ltkString, if 0 < line then line else p.parsingLinenumber⟩ := by
  have htake : b.takeWhile (· != nullChar) = b :=
    List.takeWhile_eq_self_iff.2 fun c hc => bne_iff_ne.2 (hb c hc)
  simp [pushNewToken, pushed, htake, reading]

theorem tokenPass_longString {m line : Nat} (hroom : Room ('[' :: equals m))
    (hx : isNewLineStart (firstChar x) = false) (hcycle : endCycle (p.cycleCount + 1) = false)
    (hb : ∀ c ∈ b, c ≠ nullChar)
    (hloop : iterate .endless (longStringPass true m) (x.length + 1)
      (p.nextCycle.reading x ('[' :: equals m ++ ['['])) = .ok ((p.nextCycle.reading r b).atLine line)) :
    ∃ line', tokenPass (p.reading ('[' :: (equals m ++ '[' :: x)) []) = .ok (.inr
      ((p.nextCycle.atLine line).pushed r ⟨b, [], .ltkString, line'⟩, ⟨b, [], .ltkString, line'⟩)) := by
  have hsep : sepOf '[' m (firstChar ('[' :: x)) = m := if_pos rfl
  have hbody : (p.reading ('[' :: x) ('[' :: equals m)).longBody =
      p.nextCycle.reading x ('[' :: equals m ++ ['[']) := by
    rw [longBody_reading hroom, hx, if_neg (by simp)]
  have hread : (p.reading ('[' :: x) ('[' :: equals m)).readLongString true m =
      .ok (((p.nextCycle.reading r b).atLine line).pushNewToken .ltkString p.parsingLinenumber) := by
    rw [readLongString_eq, hbody, reading_rest, hloop]
    exact if_neg (Bool.eq_false_iff.1 hcycle)
  have hpush := pushNewToken_string (p := p.nextCycle.atLine line) (x := r) p.parsingLinenumber hb
  have hgot := (congrArg gotToken hpush).trans gotToken_pushed
  refine ⟨_, Eq.trans ?_ hgot⟩
  rw [tokenPass_bracket hroom (by simp), hsep, if_pos (by omega), hread, Result.ok_bind]
  rfl

/-- A long string, if it is read at all. -/
theorem reread_longString {m : Nat} (hclean : LongStringClean m (p.reading ('[' :: y) ('[' :: equals m)))
    (hpass : (p.reading ('[' :: y) ('[' :: equals m)).readLongString true m >>= gotToken = .ok (.inr (q, t))) :
    Reread p q t ∨ q.tokens = p.tokens ∧ endCycle q.cycleCount = true := by
  obtain ⟨u, hread, hpass⟩ := Result.bind_eq_ok.1 hpass
  rw [readLongString_eq] at hread
  split_ifs at hread with hcycle
  · cases hread
    cases hpass
    exact .inr ⟨rfl, hcycle⟩
  left
  have hclean := hclean.resolve_left hcycle
  obtain ⟨v, hloop, hread⟩ := Result.bind_eq_ok.1 hread
  have hends := ends_of_iterate hloop hclean.2
  have hroom : Room ('[' :: equals m) := by
    by_contra hfull
    have hbody : (p.reading ('[' :: y) ('[' :: equals m)).longBody =
        p.nextCycle.reading ('[' :: y) ('[' :: equals m) := by
      have hsave : (p.reading ('[' :: y) ('[' :: equals m)).nextCycle.saveCurrent =
          p.nextCycle.reading ('[' :: y) ('[' :: equals m) := saveCurrent_of_full (p := p.nextCycle) hfull
      rw [longBody, hsave]
      rfl
    have hfits := (longClean_spec hends.start.1).1
    rw [hbody] at hfits
    exact hfull hfits
  obtain ⟨z, line₀, hbody⟩ := longBody_spec (p := p) (c := '[') (x := y) hroom
  obtain ⟨g, line, hv, hnull, hfirst, hagain⟩ := long_again (by omega) hends
  rw [hbody] at hv hfirst hagain
  generalize hx : v.rest = x at hv hfirst hagain
  change v = (p.nextCycle.reading x ('[' :: equals m ++ ['['] ++ g)).atLine line at hv
  rw [hv] at hnull hread
  change ∀ c ∈ '[' :: equals m ++ ['['] ++ g, c ≠ nullChar at hnull
  have hstart : isNewLineStart (firstChar z) = false := by
    have hclean := hclean.1
    rw [hbody] at hclean
    exact hclean
  have hpush := pushNewToken_string (p := p.nextCycle.atLine line) (x := x) p.parsingLinenumber hnull
  obtain rfl := (Except.ok.inj hread).symm.trans hpush
  rw [gotToken_pushed] at hpass
  cases hpass
  have htext (line : Nat) : (⟨'[' :: equals m ++ ['['] ++ g, [], .ltkString, line⟩ : GluaParserToken).text =
      '[' :: (equals m ++ '[' :: g) := by simp [GluaParserToken.text]
  refine ⟨rfl, TokenType.noConfusion, by rw [htext]; exact List.cons_ne_nil _ _,
    fun c hc => TokenType.noConfusion hc, fun c _ hc => TokenType.noConfusion hc, fun s r _ hr hs => ?_⟩
  have hcycle' : endCycle (s.cycleCount + 1) = false := by
    simp only [endCycle, decide_eq_true_eq, decide_eq_false_iff_not] at hcycle ⊢
    change ¬maxTokenParserCyclesCount < p.cycleCount + 1 at hcycle
    omega
  obtain ⟨line', hloop'⟩ := hagain s.nextCycle r ((g ++ r).length + 1) hr
    (by rw [List.length_append]; omega)
  obtain ⟨line'', hread'⟩ := tokenPass_longString hroom (by rw [hfirst r hr]; exact hstart) hcycle' hnull hloop'
  rw [htext, List.cons_append, List.append_assoc]
  exact ⟨_, _, hread', rfl, rfl, rfl, Nat.succ_le_succ hs, rfl⟩

/-! ## Passes over a text -/

/-- The parser is at a token, and not at white space, a comment or a character that is passed over. -/
def atToken (p : GluaTokenParser) : Bool :=
  !p.rest.isEmpty && !isSpace p.currentChar && !(p.currentChar == '-' && p.nextTokenChar == '-') &&
    !(decide (charValue p.currentChar < 0) && p.currentChar != eofTokenChar)

/-- The next token would be printed right after the last one, which would go on with it. -/
def joinsLast (p : GluaTokenParser) : Bool :=
  (p.parsingLinenumber == p.lastToken.linenumber || decide (p.parsingLinenumber ≤ 1)) &&
    touches p.lastToken.type p.currentChar && p.alone p.currentChar

/-- A token can be read again from its text: nothing that is left of a comment is in the buffer, the
token is no null and no end of the text, and nothing is lost of a string. -/
def TokenClean (p : GluaTokenParser) : Prop :=
  p.atToken = true → (p.currentChar = '-' ∨ p.parsingBuff = []) ∧ p.currentChar ≠ nullChar ∧
    p.currentChar ≠ eofTokenChar ∧ p.joinsLast = false ∧
    (p.currentChar = '"' ∨ p.currentChar = '\'' →
      Through (fun s => stringClean s = true) (stringPass p.currentChar) (p.rest.length + 2)
        (p.saveCurrent, [p.currentChar])) ∧
    (p.currentChar = '[' → Result.onReturn p.skipSep (fun s =>
      decide (0 ≤ s.2 → LongStringClean s.2 s.1)) = true)

instance : DecidablePred TokenClean := fun p => by
  unfold TokenClean
  infer_instance

theorem isSpace_special (hc : isSpace c = true) : c ∈ specialChars := by
  simp only [isSpace, isNewLineStart, Bool.or_eq_true, beq_iff_eq] at hc
  rcases hc with ((((rfl | rfl) | rfl) | rfl) | rfl) | rfl <;> decide

theorem charValue_digit (hc : isDigit c = true) : ¬charValue c < 0 := by
  rw [isDigit, Bool.and_eq_true, decide_eq_true_eq, decide_eq_true_eq] at hc
  have hle : c.toNat ≤ '9'.toNat := hc.2
  have hnine : '9'.toNat = 57 := rfl
  rw [charValue, if_pos (by omega)]
  omega

/-- The tokens and the cycles of a parser are those of another one. -/
def Kept (p q : GluaTokenParser) : Prop := q.tokens = p.tokens ∧ q.cycleCount = p.cycleCount

theorem Kept.trans {u : GluaTokenParser} (h : Kept p q) (h' : Kept q u) : Kept p u :=
  ⟨h'.1.trans h.1, h'.2.trans h.2⟩

theorem kept_advance : Kept p p.advance := ⟨rfl, rfl⟩

theorem kept_incLine : Kept p p.incLine := by
  unfold incLine
  split <;> exact ⟨rfl, rfl⟩

theorem kept_saveToBuff : Kept p (p.saveToBuff c) := by
  unfold saveToBuff
  split_ifs <;> exact ⟨rfl, rfl⟩

theorem kept_saveToBuffAndNext : Kept p (p.saveToBuffAndNext c) := by
  unfold saveToBuffAndNext
  split_ifs <;> exact ⟨rfl, rfl⟩

theorem kept_saveCurrent : Kept p p.saveCurrent := kept_saveToBuffAndNext

theorem kept_skipSep {k : Int} (h : p.skipSep = .ok (q, k)) : Kept p q := by
  obtain ⟨⟨u, j⟩, hloop, h⟩ := Result.bind_eq_ok.1 h
  cases h
  refine (ends_of_iterate hloop (through_true _ _)).keeps (I := fun s => Kept p s.1)
    (Q := fun s => Kept p s.1) kept_saveToBuffAndNext ?_ ?_
  · rintro ⟨s, i⟩ t - hs hpass
    dsimp only at hpass
    split_ifs at hpass <;> cases hpass
    exact hs.trans kept_saveToBuffAndNext
  · rintro ⟨s, i⟩ t - hs hpass
    dsimp only at hpass
    split_ifs at hpass <;> cases hpass
    exact hs

theorem kept_longStringPass {isString : Bool} {sep : Int} {next : GluaTokenParser ⊕ GluaTokenParser}
    (h : longStringPass isString sep p = .ok next) : Kept p (next.elim id id) := by
  have hreset : Kept p (if p.full then p.resetParseBuff else p) := by split_ifs <;> exact ⟨rfl, rfl⟩
  rw [longStringPass] at h
  generalize (if p.full then p.resetParseBuff else p) = u at h hreset
  have hbracket (h : (u.skipSep >>= fun r =>
      if r.2 = sep then pure (.inr r.1.saveCurrent)
      else if isString then pure (.inl r.1.saveCurrent)
      else pure (.inl r.1.advance)) = Except.ok next) : Kept p (next.elim id id) := by
    obtain ⟨⟨v, k⟩, hskip, h⟩ := Result.bind_eq_ok.1 h
    have hskip := hreset.trans (kept_skipSep hskip)
    dsimp only at h
    split_ifs at h <;> cases h
    · exact hskip.trans kept_saveCurrent
    · exact hskip.trans kept_saveCurrent
    · exact hskip.trans kept_advance
  by_cases hempty : p.rest.isEmpty = true
  · rw [if_pos hempty] at h
    cases h
    exact ⟨rfl, rfl⟩
  rw [if_neg hempty] at h
  by_cases hfull : (p.full && isString) = true
  · rw [if_pos hfull] at h
    cases h
  rw [if_neg hfull] at h
  by_cases heof : (u.currentChar == eofTokenChar) = true
  · rw [if_pos heof] at h
    cases h
  rw [if_neg heof] at h
  by_cases hclose : (u.currentChar == ']') = true
  · rw [if_pos hclose] at h
    by_cases hcomment : (!isString && u.nextTokenChar == ']') = true
    · rw [if_pos hcomment] at h
      cases h
      exact (hreset.trans kept_saveCurrent).trans kept_saveCurrent
    · rw [if_neg hcomment] at h
      exact hbracket h
  rw [if_neg hclose] at h
  split_ifs at h <;> cases h
  · exact (hreset.trans kept_saveToBuff).trans kept_incLine
  · exact hreset.trans kept_saveCurrent

/-- A long comment takes a cycle. -/
theorem readLongString_cycles {sep : Int} (h : p.readLongString false sep = .ok q) :
    q.tokens = p.tokens ∧ p.cycleCount ≤ q.cycleCount := by
  rw [readLongString] at h
  by_cases hcycle : endCycle (p.cycleCount + 1) = true
  · rw [if_pos hcycle] at h
    cases h
    exact ⟨rfl, Nat.le_succ _⟩
  rw [if_neg hcycle] at h
  obtain ⟨u, hloop, h⟩ := Result.bind_eq_ok.1 h
  have hstart : Kept p.nextCycle (if isNewLineStart p.nextCycle.saveCurrent.currentChar then
      p.nextCycle.saveCurrent.incLine else p.nextCycle.saveCurrent) := by
    split_ifs
    · exact kept_saveCurrent.trans kept_incLine
    · exact kept_saveCurrent
  have hkept : Kept p.nextCycle u :=
    (ends_of_iterate hloop (through_true _ _)).keeps (I := Kept p.nextCycle) (Q := Kept p.nextCycle) hstart
      (fun s t _ hs hpass => hs.trans (kept_longStringPass hpass))
      (fun s t _ hs hpass => hs.trans (kept_longStringPass hpass))
  cases h
  exact ⟨hkept.1, (Nat.le_succ _).trans_eq hkept.2.symm⟩

theorem minusOrComment_inl (h : p.minusOrComment = .ok (.inl q)) :
    q.tokens = p.tokens ∧ p.cycleCount ≤ q.cycleCount := by
  rw [minusOrComment] at h
  dsimp only at h
  split_ifs at h with hcomment hbracket
  · cases h
  · obtain ⟨⟨u, k⟩, hskip, h⟩ := Result.bind_eq_ok.1 h
    have hskip : Kept p u := (kept_advance.trans kept_advance).trans (kept_skipSep hskip)
    dsimp only at h
    split_ifs at h
    · obtain ⟨v, hread, h⟩ := Result.bind_eq_ok.1 h
      obtain ⟨htokens, hcycles⟩ := readLongString_cycles hread
      cases h
      exact ⟨htokens.trans hskip.1, hskip.2.symm.trans_le hcycles⟩
    · cases h
      exact ⟨hskip.1, hskip.2.ge⟩
  · cases h
    exact ⟨rfl, le_rfl⟩

/-- What a pass over the text that goes on leaves as it is. -/
theorem tokenPass_inl (h : tokenPass p = .ok (.inl q)) :
    q.tokens = p.tokens ∧ p.cycleCount ≤ q.cycleCount := by
  rw [tokenPass] at h
  by_cases hempty : p.rest.isEmpty = true
  · rw [if_pos hempty] at h
    cases h
  rw [if_neg hempty] at h
  have hspace {q : GluaTokenParser} (hkept : Kept p q) : q.tokens = p.tokens ∧ p.cycleCount ≤ q.cycleCount :=
    ⟨hkept.1, hkept.2.ge⟩
  split at h
  iterate 2
    · cases h
      exact hspace kept_incLine
  iterate 4
    · cases h
      exact hspace kept_advance
  · exact minusOrComment_inl h
  · rw [bracketOrLongString_eq] at h
    obtain ⟨⟨u, k⟩, -, h⟩ := Result.bind_eq_ok.1 h
    dsimp only at h
    split_ifs at h
    · obtain ⟨v, -, h⟩ := Result.bind_eq_ok.1 h
      cases h
    · cases h
  iterate 7
    · split_ifs at h <;> cases h
  iterate 2
    · obtain ⟨u, -, h⟩ := Result.bind_eq_ok.1 h
      cases h
  · split_ifs at h <;> cases h
  · split_ifs at h
    · obtain ⟨u, -, h⟩ := Result.bind_eq_ok.1 h
      cases h
    · cases h
    · cases h
      exact hspace kept_advance
    · obtain ⟨u, -, h⟩ := Result.bind_eq_ok.1 h
      cases h
    · cases h

/-- A token that is read can be read again, if nothing of it is lost. -/
theorem tokenPass_reread (hclean : TokenClean p) (hrest : p.rest ≠ [])
    (hpass : tokenPass p = .ok (.inr (q, t))) :
    Reread p q t ∨ q.tokens = p.tokens ∧ endCycle q.cycleCount = true := by
  obtain ⟨c, x, hp⟩ := List.exists_cons_of_ne_nil hrest
  generalize hb : p.parsingBuff = b at *
  have hover : p = p.reading (c :: x) b := by rw [← hp, ← hb]; rfl
  rw [hover] at hclean hpass ⊢
  by_cases hspecial : c ∈ specialChars
  · simp only [specialChars, List.mem_cons, List.not_mem_nil, or_false] at hspecial
    rcases hspecial with rfl | rfl | rfl | rfl | rfl | rfl | rfl | rfl | rfl | rfl | rfl | rfl | rfl |
      rfl | rfl | rfl | rfl | rfl
    iterate 6 cases hpass
    · exact .inl (reread_minus hpass)
    all_goals
      obtain ⟨hbuff, hnull, heof, -, hstring, hlong⟩ := hclean rfl
      obtain rfl : b = [] := hbuff.resolve_left (by simp)
    · change bracketOrLongString _ = _ at hpass
      rw [bracketOrLongString_eq] at hpass
      obtain ⟨⟨u, k⟩, hskip, hpass⟩ := Result.bind_eq_ok.1 hpass
      have hlong := hlong rfl
      rw [hskip, Result.onReturn, decide_eq_true_eq] at hlong
      obtain ⟨m, y, rfl, hy, rfl, rfl⟩ := skipSep_eq (room_short (by simp)) hskip
      dsimp only at hpass hlong
      split_ifs at hpass with hsep hone
      · have hfirst : firstChar y = '[' := by
          by_contra hne
          rw [sepOf, if_neg hne] at hsep
          omega
        obtain ⟨z, rfl⟩ := eq_cons_of_firstChar hfirst (by decide)
        exact reread_longString (p := p.reading _ _) (hlong hsep) hpass
      · exact .inl (reread_bracket hy (not_not.1 hone) hpass)
    · exact .inl (reread_question hpass)
    · exact .inl (reread_equals hpass)
    · exact .inl (reread_less hpass)
    · exact .inl (reread_greater hpass)
    · exact .inl (reread_slash hpass)
    · exact .inl (reread_tilde hpass)
    · exact .inl (reread_colon hpass)
    · exact .inl (reread_string (.inl rfl) (hstring (.inl rfl)) hpass)
    · exact .inl (reread_string (.inr rfl) (hstring (.inr rfl)) hpass)
    · exact .inl (reread_dot hpass)
  · have hminus : (c == '-') = false := by
      rw [beq_eq_false_iff_ne]
      rintro rfl
      exact hspecial (by decide)
    have hat (hsign : ¬charValue c < 0 ∨ c = eofTokenChar) : atToken (p.reading (c :: x) b) = true := by
      have hspace : isSpace c = false := by
        by_contra hnot
        rw [Bool.not_eq_false] at hnot
        exact hspecial (isSpace_special hnot)
      simp only [atToken, reading_rest, currentChar_reading, firstChar_cons, hspace, hminus]
      rcases hsign with hsign | rfl
      · simp [hsign]
      · rfl
    left
    by_cases hdigit : isDigit c = true
    · obtain rfl := (hclean (hat (.inl (charValue_digit hdigit)))).1.resolve_left (beq_eq_false_iff_ne.1 hminus)
      exact reread_numeral hspecial hdigit hpass
    by_cases heof : c = eofTokenChar
    · exact absurd heof (hclean (hat (.inr heof))).2.2.1
    by_cases hsign : charValue c < 0
    · rw [tokenPass_default hspecial, if_neg hdigit, beq_false_of_ne heof, if_neg (by simp),
        if_pos hsign] at hpass
      cases hpass
    obtain ⟨hbuff, hnull, -⟩ := hclean (hat (.inl hsign))
    obtain rfl := hbuff.resolve_left (beq_eq_false_iff_ne.1 hminus)
    rw [Bool.not_eq_true] at hdigit
    by_cases hname : (isAlpha c || c == '_') = true
    · exact reread_name hspecial hdigit heof hsign hname hpass
    · rw [Bool.not_eq_true] at hname
      exact reread_single_default hspecial hnull hdigit heof hsign hname hpass

/-- What reading the next token ends with: no token is left to read, or a token has been pushed. -/
theorem ends_reread {r : GluaTokenParser × GluaParserToken} (h : Ends tokenPass TokenClean p r) :
    (r.1.tokens = p.tokens ∧ (r.2.type = .ltkEos ∨ endCycle r.1.cycleCount = true)) ∨
    ∃ u : GluaTokenParser, u.tokens = p.tokens ∧ p.cycleCount ≤ u.cycleCount ∧ TokenClean u ∧
      Reread u r.1 r.2 := by
  induction h with
  | @done p r hclean hpass =>
    by_cases hrest : p.rest = []
    · rw [tokenPass, if_pos (by simp [hrest])] at hpass
      cases hpass
      exact .inl ⟨rfl, .inl rfl⟩
    · rcases tokenPass_reread hclean hrest hpass with hread | ⟨htokens, hcycle⟩
      · exact .inr ⟨p, rfl, le_rfl, hclean, hread⟩
      · exact .inl ⟨htokens, .inr hcycle⟩
  | @more p p' r _ hpass _ ih =>
    obtain ⟨htokens, hcycles⟩ := tokenPass_inl hpass
    rcases ih with ⟨hsame, hend⟩ | ⟨u, hu, hle, hclean, hread⟩
    · exact .inl ⟨hsame.trans htokens, hend⟩
    · exact .inr ⟨u, hu.trans htokens, hcycles.trans hle, hclean, hread⟩

/-- The white space that `dump` prints is passed over. -/
theorem iterate_separator {sep : Str} (hx : firstChar x ≠ '\r') (hsep : ∀ c ∈ sep, c = ' ' ∨ c = '\n')
    (s : GluaTokenParser) (n : Nat) : ∃ line,
      iterate .endless tokenPass (sep.length + n) (s.reading (sep ++ x) []) =
        iterate .endless tokenPass n ((s.atLine line).reading x []) := by
  induction sep generalizing s with
  | nil => exact ⟨s.parsingLinenumber, by simp [atLine]⟩
  | cons c sep ih =>
    have hsep' : ∀ c ∈ sep, c = ' ' ∨ c = '\n' := fun c hc => hsep c (by simp [hc])
    have hfirst : firstChar (sep ++ x) ≠ '\r' := by
      cases sep with
      | nil => exact hx
      | cons d sep =>
        rcases hsep' d (by simp) with rfl | rfl <;> simp
    have hpass : ∃ line, tokenPass (s.reading (c :: (sep ++ x)) []) =
        .ok (.inl ((s.atLine line).reading (sep ++ x) [])) := by
      rcases hsep c (by simp) with rfl | rfl
      · exact ⟨s.parsingLinenumber, rfl⟩
      · refine ⟨s.parsingLinenumber + 1, ?_⟩
        change (.ok (.inl (s.reading ('\n' :: (sep ++ x)) []).incLine) : Passed) = _
        generalize sep ++ x = z at hfirst
        obtain _ | ⟨d, z⟩ := z
        · rfl
        · have hpair : isNewLinePair '\n' d = false := by
            simpa [isNewLinePair] using hfirst
          rw [incLine_two, hpair]
          rfl
    obtain ⟨line, hpass⟩ := hpass
    obtain ⟨line', hrest⟩ := ih hsep' (s.atLine line)
    refine ⟨line', ?_⟩
    rw [List.length_cons, Nat.add_right_comm, iterate, List.cons_append, hpass]
    exact hrest

/-- A token that can be read again is the next one after white space. -/
theorem Reread.parseNextToken {u s : GluaTokenParser} {sep : Str} (h : Reread u q t)
    (hs : s.cycleCount + 1 ≤ u.cycleCount) (hcycle : endCycle (s.cycleCount + 1) = false)
    (hsep : ∀ c ∈ sep, c = ' ' ∨ c = '\n') (hr : Follows t.type (firstChar r))
    (hrest : q.rest = [] → r = []) :
    ∃ s' t', (s.reading (sep ++ (t.text ++ r)) []).parseNextToken = .ok (s', t') ∧ s'.rest = r ∧
      s'.parsingBuff = [] ∧ s'.tokens = s.tokens ++ [t'] ∧ s'.cycleCount ≤ q.cycleCount ∧
      t'.content = t.content := by
  have hfirst : firstChar (t.text ++ r) ≠ '\r' := by
    intro heq
    obtain ⟨y, hy⟩ := eq_cons_of_firstChar heq (by decide)
    obtain ⟨s', t', hpass, -⟩ := h.again s.nextCycle r hr hrest hs
    rw [hy] at hpass
    cases hpass
  obtain ⟨line, hloop⟩ := iterate_separator hfirst hsep s.nextCycle ((t.text ++ r).length + 1)
  obtain ⟨s', t', hpass, hspec⟩ := h.again (s.nextCycle.atLine line) r hr hrest hs
  refine ⟨s', t', ?_, hspec⟩
  change (if endCycle (s.cycleCount + 1) = true then _ else _) = _
  rw [hcycle, if_neg (by simp)]
  change iterate .endless tokenPass ((sep ++ (t.text ++ r)).length + 1)
    (s.nextCycle.reading (sep ++ (t.text ++ r)) []) = _
  rw [List.length_append, Nat.add_assoc, hloop, iterate, hpass]

/-! ## Printing and parsing -/

/-- Every token that is read can be read again from its text. -/
def CleanLoop : Nat → GluaTokenParser → Prop
  | 0, _ => True
  | n + 1, p => p.rest = [] ∨ endCycle (p.cycleCount + 1) = true ∨
    Through TokenClean tokenPass (p.rest.length + 1) p.nextCycle ∧
      match p.parseNextToken with
      | .error _ => True
      | .ok (q, t) => t.type = .ltkEos ∨ CleanLoop n q

instance instDecidableCleanLoop : ∀ (n : Nat) (p : GluaTokenParser), Decidable (CleanLoop n p)
  | 0, _ => isTrue trivial
  | n + 1, p => by
    unfold CleanLoop
    have (q : GluaTokenParser) := instDecidableCleanLoop n q
    cases p.parseNextToken with
    | error e => infer_instance
    | ok r => infer_instance

theorem firstChar_separator (t : GluaParserToken) (line lines : Nat) (x : Str) :
    t.separator line lines = [] ∧ (t.linenumber = line ∨ t.linenumber ≤ 1) ∧
      (∃ c ∈ separators, t.type = .char c) ∨
    firstChar (t.separator line lines ++ x) = ' ' ∨ firstChar (t.separator line lines ++ x) = '\n' := by
  unfold GluaParserToken.separator
  split_ifs with hline htype
  · obtain ⟨n, hn⟩ : ∃ n, max 1 (t.linenumber - line - lines + 1 : Int).toNat = n + 1 :=
      ⟨max 1 (t.linenumber - line - lines + 1 : Int).toNat - 1, by omega⟩
    rw [hn, List.replicate_succ]
    exact .inr (.inr rfl)
  · refine .inl ⟨rfl, by omega, ?_⟩
    rcases htype with h | h | h | h | h | h <;> exact ⟨_, by decide, h⟩
  · exact .inr (.inl rfl)

theorem separator_chars (t : GluaParserToken) (line lines : Nat) :
    ∀ c ∈ t.separator line lines, c = ' ' ∨ c = '\n' := by
  unfold GluaParserToken.separator
  split_ifs
  · exact fun c hc => .inr (List.eq_of_mem_replicate hc)
  · simp
  · simp

theorem atToken_joinable {u : GluaTokenParser} (hc : c ∈ joinable) (hchar : u.currentChar = c) :
    u.atToken = true := by
  have hspec : ∀ c ∈ joinable, c ≠ eofTokenChar ∧ isSpace c = false ∧ c ≠ '-' ∧ ¬charValue c < 0 :=
    forall_mem_of_all rfl
  obtain ⟨heof, hspace, hminus, hsign⟩ := hspec c hc
  obtain ⟨y, hy⟩ := eq_cons_of_firstChar (x := u.rest) hchar heof
  simp [atToken, hchar, hspace, hminus, hsign, hy]

/-- What `dump` prints after a token does not go on with it. -/
theorem follows_dump {u : GluaTokenParser} (hclean : TokenClean u) (h : Reread u q t) (lines : Nat) (x : Str) :
    Follows u.lastToken.type
      (firstChar (t.separator u.lastToken.linenumber lines ++ (t.text ++ x))) := by
  have hfollows {c : Char} (hc : c ∈ separators) (hjoin : c ∈ joinable → touches u.lastToken.type c = false) :
      Follows u.lastToken.type c := by
    refine ⟨hc, ?_⟩
    by_contra htouches
    rw [Bool.not_eq_false] at htouches
    rw [hjoin (joinable_of_touches htouches)] at htouches
    cases htouches
  rcases firstChar_separator t u.lastToken.linenumber lines (t.text ++ x) with
    ⟨hnone, hline, c, hc, htype⟩ | hspace | hnew
  · rw [hnone, List.nil_append, h.symbol c htype]
    refine hfollows hc fun hjoinable => ?_
    obtain ⟨hnumber, halone⟩ := h.alone c hjoinable htype
    have hchar : u.currentChar = c := by
      rw [alone, Bool.and_eq_true, Bool.and_eq_true] at halone
      exact beq_iff_eq.1 halone.1.1
    obtain ⟨-, -, -, hjoins, -⟩ := hclean (atToken_joinable hjoinable hchar)
    have hsame : (u.parsingLinenumber == u.lastToken.linenumber || decide (u.parsingLinenumber ≤ 1)) = true := by
      rw [← hnumber, Bool.or_eq_true, beq_iff_eq, decide_eq_true_eq]
      exact hline
    rw [joinsLast, hsame, hchar, halone, Bool.true_and, Bool.and_true] at hjoins
    exact hjoins
  · rw [hspace]
    exact hfollows (by decide) fun h => absurd h (by decide)
  · rw [hnew]
    exact hfollows (by decide) fun h => absurd h (by decide)

theorem parseLoop_of_endCycle : ∀ {n : Nat} {p q : GluaTokenParser}, endCycle (p.cycleCount + 1) = true →
    parseLoop n p = .ok q → q.tokens = p.tokens
  | 0, p, q, _, h => by
    cases h
    rfl
  | n + 1, p, q, hcycle, h => by
    rw [parseLoop, parseNextToken] at h
    dsimp only at h
    rw [if_pos hcycle] at h
    split_ifs at h with hrest
    · cases h
      rfl
    · dsimp only at h
      rw [if_pos (show eofToken.type = .ltkEos from rfl)] at h
      cases h
      rfl

/-- The tokens that a parse adds are read again from what is printed of them. -/
def PrintsBack (n : Nat) (p p' : GluaTokenParser) : Prop :=
  ∃ new, p'.tokens = p.tokens ++ new ∧ (p.rest = [] → new = []) ∧
    (∀ lines, Follows p.lastToken.type (firstChar (dumpLoop p.lastToken.linenumber lines new))) ∧
    ∀ (s : GluaTokenParser) (line lines : Nat), s.cycleCount ≤ p.cycleCount →
      ∃ s' new', parseLoop n (s.reading (dumpLoop line lines new) []) = .ok s' ∧
        s'.tokens = s.tokens ++ new' ∧ new'.map (·.content) = new.map (·.content)

theorem printsBack_nil {p' : GluaTokenParser} {n : Nat} (h : p'.tokens = p.tokens) : PrintsBack n p p' := by
  refine ⟨[], by simp [h], fun _ => rfl, fun lines => ?_, fun s line lines _ => ?_⟩
  · rw [dumpLoop, firstChar_nil]
    refine ⟨by decide, ?_⟩
    by_contra htouches
    rw [Bool.not_eq_false] at htouches
    exact absurd (joinable_of_touches htouches) (by decide)
  · refine ⟨s.reading [] [], [], ?_, by simp [reading], rfl⟩
    cases n <;> rfl

theorem printsBack_cons {p' u : GluaTokenParser} {n : Nat} (hrest : p.rest ≠ [])
    (hcycle : endCycle (p.cycleCount + 1) = false) (htokens : u.tokens = p.tokens)
    (hcycles : p.cycleCount + 1 ≤ u.cycleCount) (hclean : TokenClean u) (hread : Reread u q t)
    (h : PrintsBack n q p') : PrintsBack (n + 1) p p' := by
  obtain ⟨new, hnew, hnil, hfollows, hagain⟩ := h
  have hlast : q.lastToken = t := by simp [lastToken, hread.tokens]
  have hlast' : u.lastToken = p.lastToken := by rw [lastToken, lastToken, htokens]
  rw [hlast] at hfollows
  refine ⟨t :: new, ?_, fun hp => absurd hp hrest, fun lines => ?_, fun s line lines hs => ?_⟩
  · rw [hnew, hread.tokens, htokens, List.append_assoc, List.singleton_append]
  · rw [← hlast', dumpLoop, List.append_assoc]
    exact follows_dump hclean hread lines _
  · have hcycle' : endCycle (s.cycleCount + 1) = false := by
      simp only [endCycle, decide_eq_false_iff_not] at hcycle ⊢
      omega
    obtain ⟨s₁, t₁, hparse, hs₁, hbuff, htokens₁, hcycles₁, hcontent⟩ :=
      hread.parseNextToken (by omega) hcycle' (separator_chars t line lines)
        (hfollows (stringLinesCount t.text)) fun hq => by rw [hnil hq, dumpLoop]
    obtain ⟨s', new', hloop, htokens', hcontent'⟩ :=
      hagain s₁ t.linenumber (stringLinesCount t.text) hcycles₁
    refine ⟨s', t₁ :: new', ?_, ?_, by simp [hcontent, hcontent']⟩
    · have hover : s₁ = s₁.reading (dumpLoop t.linenumber (stringLinesCount t.text) new) [] := by
        rw [← hs₁, ← hbuff]
        rfl
      have heos : t₁.type ≠ .ltkEos := by
        rw [show t₁.type = t.type from congrArg Prod.fst hcontent]
        exact hread.not_eos
      have hne : (s.reading (dumpLoop line lines (t :: new)) []).rest.isEmpty = false := by
        have htext := hread.ne_nil
        simp [dumpLoop, htext]
      rw [parseLoop, hne, if_neg (by simp), dumpLoop, List.append_assoc, hparse]
      dsimp only
      rw [if_neg heos, hover]
      exact hloop
    · rw [htokens', htokens₁, List.append_assoc, List.singleton_append]

theorem parseLoop_again : ∀ {n : Nat} {p p' : GluaTokenParser}, parseLoop n p = .ok p' → CleanLoop n p →
    PrintsBack n p p'
  | 0, p, p', h, _ => by
    cases h
    exact printsBack_nil rfl
  | n + 1, p, p', h, hclean => by
    rw [parseLoop] at h
    by_cases hrest : p.rest = []
    · rw [if_pos (by simp [hrest])] at h
      cases h
      exact printsBack_nil rfl
    by_cases hcycle : endCycle (p.cycleCount + 1) = true
    · refine printsBack_nil (parseLoop_of_endCycle (n := n + 1) hcycle ?_)
      rw [parseLoop]
      exact h
    rw [if_neg (by simpa using hrest)] at h
    obtain ⟨hthrough, hclean⟩ := (hclean.resolve_left hrest).resolve_left hcycle
    cases hparse : p.parseNextToken with
    | error e => simp [hparse] at h
    | ok r =>
      obtain ⟨q, t⟩ := r
      rw [hparse] at h hclean
      dsimp only at h hclean
      have hloop : iterate .endless tokenPass (p.rest.length + 1) p.nextCycle = .ok (q, t) := by
        rw [← hparse]
        exact (if_neg hcycle).symm
      rcases ends_reread (ends_of_iterate hloop hthrough) with
        ⟨htokens, hend⟩ | ⟨u, htokens, hcycles, hu, hread⟩
      · refine printsBack_nil ?_
        by_cases heos : t.type = .ltkEos
        · rw [if_pos heos] at h
          cases h
          exact htokens
        · rw [if_neg heos] at h
          have hend : endCycle (q.cycleCount + 1) = true := by
            have hend := hend.resolve_left heos
            simp only [endCycle, decide_eq_true_eq] at hend ⊢
            omega
          exact (parseLoop_of_endCycle hend h).trans htokens
      · rw [if_neg hread.not_eos] at h
        exact printsBack_cons hrest (Bool.not_eq_true _ ▸ hcycle) htokens hcycles hu hread
          (parseLoop_again h (hclean.resolve_left hread.not_eos))

end GluaTokenParser

open GluaTokenParser

/-- Every token of a text can be read again from what is printed of it. -/
def CleanText (code : Str) : Prop := CleanLoop 1000000 (.start code)

instance : DecidablePred CleanText := fun code =>
  inferInstanceAs (Decidable (CleanLoop 1000000 (.start code)))

/-- The tokens that are read from what `dump` prints are those of the text. -/
theorem parse_dump {code : Str} {p : GluaTokenParser} (h : parse code = .ok p) (hclean : CleanText code) :
    ∃ p', parse (dump p.tokens) = .ok p' ∧ p'.tokens.map (·.content) = p.tokens.map (·.content) := by
  obtain ⟨new, hnew, -, -, hagain⟩ := parseLoop_again h hclean
  obtain ⟨s', new', hparse, htokens, hcontent⟩ := hagain (.start []) 1 0 le_rfl
  have hp : p.tokens = new := hnew
  have hs' : s'.tokens = new' := htokens
  refine ⟨s', ?_, by rw [hs', hp, hcontent]⟩
  rw [hp]
  exact hparse

/-- A string, a long string and a comment. -/
theorem parse_dump_strings : ∃ p p', parse ("s=\"\\65\\n\"..[=[\n]]]=]--[[s]]".toList) = .ok p ∧
    parse (dump p.tokens) = .ok p' ∧ p'.tokens.map (·.content) = p.tokens.map (·.content) := by
  obtain ⟨p, hp⟩ : ∃ p, parse ("s=\"\\65\\n\"..[=[\n]]]=]--[[s]]".toList) = .ok p := ⟨_, rfl⟩
  obtain ⟨p', hp', hsame⟩ := parse_dump hp (by decide)
  exact ⟨p, p', hp, hp', hsame⟩

/-- A dot right after a numeral becomes a part of it. -/
theorem dump_joins_dot : ¬∀ (code : Str) (p : GluaTokenParser), parse code = .ok p →
    ∃ p', parse (dump p.tokens) = .ok p' ∧ p'.tokens.map (·.content) = p.tokens.map (·.content) := by
  intro h
  obtain ⟨p', hp', hsame⟩ := h ['1', ' ', '.', 'x']
    { rest := []
      parsingLinenumber := 1
      parsingBuff := []
      cycleCount := 3
      tokens := [⟨['1'], [], .ltkInt, 1⟩, ⟨['.'], [], .char '.', 1⟩, ⟨['x'], [], .ltkName, 1⟩] } rfl
  cases hp'
  revert hsame
  decide

end Achain.Glua
