import Achain.Glua.Json
import Achain.Lib.Decimals
import Achain.Proofs.PrintedTokens

/-!
# The text of a table

The text that `json.dumps` prints is one of lexemes, each of which the token parser reads as a token of
its own. So the tokens that `json.loads` goes through are those of the lexemes.
-/

namespace Achain.Glua

open Loops Decimals

/-! ## Lexemes -/

inductive Lexeme where
  | symbol (c : Char)
  | numeral (n : Nat)
  | word (b : Bool)
  | string (s : Str)

/-- The characters that a printed string does not have. -/
def unprintable : List Char := ['"', '\\', '\n', '\r', nullChar, eofTokenChar]

/-- A string is printed as it is, and its quotes fit in the parser's buffer. -/
def printableString (s : Str) : Bool :=
  s.all (fun c => !unprintable.contains c) && s.length + 2 < luaTokenMaxLength

namespace Lexeme

def text : Lexeme → Str
  | .symbol c => [c]
  | .numeral n => Nat.toDigits 10 n
  | .word b => if b then ['t', 'r', 'u', 'e'] else ['f', 'a', 'l', 's', 'e']
  | .string s => '"' :: (s ++ ['"'])

def token (line : Nat) : Lexeme → GluaParserToken
  | .symbol c => ⟨[c], [], .char c, line⟩
  | .numeral n => ⟨Nat.toDigits 10 n, [], .ltkInt, line⟩
  | .word b => ⟨(Lexeme.word b).text, [], if b then .ltkTrue else .ltkFalse, line⟩
  | .string s => ⟨s, '"' :: (s ++ ['"']), .ltkString, line⟩

def wellFormed : Lexeme → Bool
  | .symbol c => ['\x7b', '\x7d', '[', ']', ',', ':'].contains c
  | .string s => printableString s
  | .numeral n => n < 2 ^ 63
  | .word _ => true

/-- A lexeme ends before a character. -/
def stops : Lexeme → Char → Bool
  | .symbol '[', c => c != '[' && c != '='
  | .symbol ':', c => c != ':'
  | .numeral _, c => !isBase16Digit c && c != '.'
  | .word _, c => !isNameChar c
  | _, _ => true

end Lexeme

namespace GluaTokenParser

variable {p q : GluaTokenParser} {x y r b : Str} {c d : Char}

/-- A string of printable characters is read to its end. -/
theorem string_over (p : GluaTokenParser) (r : Str) : ∀ {g b l : Str} {n : Nat},
    (∀ c ∈ g, c ∉ unprintable) → Room (b ++ g) → g.length < n →
      iterate .endless (stringPass '"') n (p.reading (g ++ '"' :: r) b, l) =
        .ok (p.reading ('"' :: r) (b ++ g), l ++ g)
  | [], b, l, n + 1, _, _, _ => by simp [iterate, stringPass]
  | c :: g, b, l, n + 1, hg, hroom, hn => by
    have hc : c ∉ unprintable := hg c (by simp)
    have hne (d : Char) (hd : d ∈ unprintable) : c ≠ d := by
      rintro rfl
      exact hc hd
    have hline : isNewLineStart c = false := by
      simp [isNewLineStart, hne '\n' (by decide), hne '\r' (by decide)]
    have hpiece := piece_char (b := b) (d := '"') hroom.of_append (hne '"' (by decide))
      (hne eofTokenChar (by decide)) hline (hne '\\' (by decide))
    have hpass := hpiece.pass p l (g ++ '"' :: r) fun hopen => by
      obtain ⟨ds, hds, -, hnil, -⟩ := hopen
      exact absurd (List.cons.inj hds).2.symm hnil
    rw [List.append_cons] at hroom
    have hrest := string_over p r (g := g) (b := b ++ [c]) (l := l ++ [c]) (n := n)
      (fun c hc => hg c (by simp [hc])) hroom (by simpa using hn)
    rw [iterate, List.cons_append]
    rw [List.singleton_append] at hpass
    rw [hpass]
    simpa using hrest

/-- Digits are read to their end. -/
theorem digits_over (p : GluaTokenParser) (hr : isBase16Digit (firstChar r) = false)
    (hdot : firstChar r ≠ '.') : ∀ (ds : Str) {b : Str} {n : Nat}, (∀ c ∈ ds, isDigit c = true) →
      Room (b ++ ds) → ds.length < n →
        iterate .endless numeralPass n (p.reading (ds ++ r) b, false) = .ok (p.reading r (b ++ ds), false)
  | [], b, n + 1, _, _, _ => by
    rw [iterate, List.nil_append, numeralPass_done hr hdot, List.append_nil]
  | c :: ds, b, n + 1, hds, hroom, hn => by
    have hc : isBase16Digit c = true := by
      rw [isBase16Digit, hds c (by simp)]
      rfl
    have hpass : numeralPass (p.reading (c :: (ds ++ r)) b, false) =
        .ok (.inl (p.reading (ds ++ r) (b ++ [c]), false)) := by
      simp [numeralPass, hc, saveCurrent_reading hroom.of_append]
    rw [List.append_cons] at hroom
    have hrest := digits_over p hr hdot ds (b := b ++ [c]) (n := n)
      (fun c hc => hds c (by simp [hc])) hroom (by simpa using hn)
    rw [iterate, List.cons_append, hpass]
    simpa using hrest

/-- The characters of a name are read to its end. -/
theorem name_over (p : GluaTokenParser) (hr : isNameChar (firstChar r) = false) :
    ∀ (ds : Str) {b : Str} {c : Char} {n : Nat}, (∀ c ∈ ds, isNameChar c = true) → Room (b ++ c :: ds) →
      ds.length < n →
        iterate .endless namePass n (p.reading (c :: (ds ++ r)) b) = .ok (p.reading r (b ++ c :: ds))
  | [], b, c, n + 1, _, hroom, _ => by
    rw [iterate, List.nil_append, namePass_reading hroom.of_append, hr, if_neg (by simp)]
  | d :: ds, b, c, n + 1, hds, hroom, hn => by
    have hd : isNameChar d = true := hds d (by simp)
    have hpass := namePass_reading (p := p) (c := c) (x := d :: (ds ++ r)) hroom.of_append
    rw [firstChar_cons, hd, if_pos rfl] at hpass
    rw [List.append_cons] at hroom
    have hrest := name_over p hr ds (b := b ++ [c]) (c := d) (n := n)
      (fun c hc => hds c (by simp [hc])) hroom (by simpa using hn)
    rw [iterate, List.cons_append, hpass]
    simpa using hrest

theorem tokenPass_symbol (p : GluaTokenParser) (hc : (Lexeme.symbol c).wellFormed = true)
    (hr : (Lexeme.symbol c).stops (firstChar r) = true) :
    tokenPass (p.reading (c :: r) []) = (p.reading (c :: r) []).singleCharToken (.char c) := by
  obtain rfl | rfl | rfl | rfl | rfl | rfl : c = '\x7b' ∨ c = '\x7d' ∨ c = '[' ∨ c = ']' ∨ c = ',' ∨ c = ':' := by
    simpa [Lexeme.wellFormed] using hc
  · rfl
  · rfl
  · have hne : firstChar r ≠ '[' ∧ firstChar r ≠ '=' := by simpa [Lexeme.stops] using hr
    have hread := tokenPass_bracket (p := p) (m := 0) (y := r) (room_short (by simp [equals])) hne.2
    have hk : sepOf '[' 0 (firstChar r) = -1 := if_neg hne.1
    rw [hk, if_neg (by decide), if_neg (by decide)] at hread
    exact hread
  · rfl
  · rfl
  · have hne : firstChar r ≠ ':' := by simpa [Lexeme.stops] using hr
    change (if firstChar r == ':' then _ else _) = _
    rw [beq_false_of_ne hne]
    rfl

theorem tokenPass_name (p : GluaTokenParser) {ds : Str} (hc : 'a' ≤ c ∧ c ≤ 'z')
    (hds : ∀ c ∈ ds, isNameChar c = true) (hnull : ∀ d ∈ c :: ds, d ≠ nullChar) (hroom : Room (c :: ds))
    (hr : isNameChar (firstChar r) = false) :
    tokenPass (p.reading (c :: (ds ++ r)) []) = .ok (.inr
      (p.pushed r ⟨c :: ds, [], getTokenTypeBySymbolName (c :: ds), p.parsingLinenumber⟩,
        ⟨c :: ds, [], getTokenTypeBySymbolName (c :: ds), p.parsingLinenumber⟩)) := by
  have halpha : (isAlpha c || c == '_') = true := by simp [isAlpha, hc]
  have hspecial : c ∉ specialChars := fun h =>
    absurd hc (forall_mem_of_all (p := fun d => ¬('a' ≤ d ∧ d ≤ 'z')) rfl c h)
  have hsmall : c.toNat ≤ 122 := hc.2
  have hlarge : 97 ≤ c.toNat := hc.1
  have hdigit : isDigit c = false := by
    simp only [isDigit, Bool.and_eq_false_iff, decide_eq_false_iff_not]
    exact .inr fun h => absurd (show c.toNat ≤ 57 from h) (by omega)
  have heof : c ≠ eofTokenChar := by
    rintro rfl
    exact absurd hsmall (by decide)
  have hsign : ¬charValue c < 0 := by
    rw [charValue, if_pos (by omega)]
    omega
  have hread := name_over p hr ds (b := []) (c := c) (n := (c :: (ds ++ r)).length + 1) hds hroom
    (by simp; omega)
  rw [tokenPass_default hspecial, hdigit, beq_false_of_ne heof, if_neg (by simp), if_neg (by simp),
    if_neg hsign, if_pos halpha, hread, Result.ok_bind, List.nil_append, pushNewToken_reading hnull,
    if_pos rfl, gotToken_pushed]

theorem digit_not_special (hc : isDigit c = true) : c ∉ specialChars := by
  have hspecial : ∀ d ∈ specialChars, isDigit d = false := forall_mem_of_all rfl
  intro h
  rw [hspecial c h] at hc
  cases hc

theorem room_numeral {n : Nat} (hn : n < 2 ^ 63) : Room (Nat.toDigits 10 n) := by
  have hlength : (Nat.toDigits 10 n).length ≤ 19 :=
    (Nat.length_toDigits_le_iff (by decide) (by decide)).2 (hn.trans (by decide))
  exact lt_of_le_of_lt hlength (by decide)

/-- A lexeme is read as its token. -/
theorem tokenPass_lexeme (p : GluaTokenParser) {l : Lexeme} (hl : l.wellFormed = true)
    (hr : l.stops (firstChar r) = true) :
    tokenPass (p.reading (l.text ++ r) []) =
      .ok (.inr (p.pushed r (l.token p.parsingLinenumber), l.token p.parsingLinenumber)) := by
  cases l with
  | symbol c =>
    have hsymbol : isSymbol (.char c) [c] = true := by
      simp only [isSymbol, beq_self_eq_true, Bool.true_and, bne_iff_ne]
      rintro rfl
      exact absurd hl (by decide)
    exact (tokenPass_symbol p hl hr).trans (singleCharToken_reading (symbolType hsymbol))
  | numeral n =>
    have hdigits : ∀ c ∈ Nat.toDigits 10 n, isDigit c = true := fun c hc => by
      obtain ⟨hlow, hhigh⟩ := toDigits_digits n c hc
      simp [isDigit, hlow, hhigh]
    have hstop : isBase16Digit (firstChar r) = false ∧ firstChar r ≠ '.' := by
      simpa [Lexeme.stops] using hr
    have hroom : Room (Nat.toDigits 10 n) := room_numeral (by simpa [Lexeme.wellFormed] using hl)
    change tokenPass (p.reading (Nat.toDigits 10 n ++ r) []) = .ok (.inr
      (p.pushed r ⟨Nat.toDigits 10 n, [], .ltkInt, _⟩, ⟨Nat.toDigits 10 n, [], .ltkInt, _⟩))
    obtain ⟨c, ds, hds⟩ := List.exists_cons_of_length_pos (Nat.length_toDigits_pos (b := 10) (n := n))
    rw [hds] at hdigits hroom ⊢
    have hc : isDigit c = true := hdigits c (by simp)
    have hnull : ∀ d ∈ c :: ds, d ≠ nullChar := by
      rintro d hd rfl
      exact absurd (hdigits _ hd) (by decide)
    have hread := digits_over p hstop.1 hstop.2 ds (b := [c]) (n := (ds ++ r).length + 1)
      (fun d hd => hdigits d (by simp [hd])) hroom (by rw [List.length_append]; omega)
    rw [List.cons_append, tokenPass_default (digit_not_special hc), if_pos hc, readNumeral_reading, hread,
      Result.ok_bind]
    change (pure _ >>= _) = _
    rw [pure_bind, List.singleton_append, pushNewToken_null hnull TokenType.noConfusion, gotToken_pushed]
    rfl
  | word b =>
    have hstop : isNameChar (firstChar r) = false := by simpa [Lexeme.stops] using hr
    have hroom {s : Str} (hs : s.length ≤ 5) : Room s := lt_of_le_of_lt hs (by decide)
    cases b with
    | true =>
      exact tokenPass_name p (by decide) (forall_mem_of_all rfl) (forall_mem_of_all rfl)
        (hroom (by decide)) hstop
    | false =>
      exact tokenPass_name p (by decide) (forall_mem_of_all rfl) (forall_mem_of_all rfl)
        (hroom (by decide)) hstop
  | string s =>
    have hs : (∀ c ∈ s, c ∉ unprintable) ∧ s.length + 2 < luaTokenMaxLength := by
      simpa [Lexeme.wellFormed, printableString] using hl
    have hquote : Room (['"'] ++ s) := by
      simp only [Room, List.length_append, List.length_singleton]
      omega
    have hread := string_over p r (l := ['"']) (n := (s ++ '"' :: r).length + 3) hs.1 hquote (by simp; omega)
    have htext : (Lexeme.string s).text ++ r = '"' :: (s ++ '"' :: r) := by simp [Lexeme.text]
    have hnull : (['"'] ++ s ++ ['"']).takeWhile (· != nullChar) = ['"'] ++ s ++ ['"'] := by
      refine List.takeWhile_eq_self_iff.2 fun c hc => bne_iff_ne.2 ?_
      rintro rfl
      have hmem : nullChar ∈ s := by simpa [nullChar] using hc
      exact hs.1 _ hmem (by decide)
    have htoken : stringToken (['"'] ++ s ++ ['"']) (['"'] ++ s ++ ['"']) p.parsingLinenumber =
        (Lexeme.string s).token p.parsingLinenumber := by
      rw [stringToken, hnull]
      simp [Lexeme.token]
    rw [htext, tokenPass_quote (.inl rfl), hread]
    refine (stringEnd (p := p) hquote (['"'] ++ s ++ ['"']) p.parsingLinenumber).trans ?_
    rw [htoken]
    rfl

/-- Each lexeme of a text ends where the next one begins. -/
def Lexed : List Lexeme → Prop
  | [] => True
  | l :: ls => l.wellFormed = true ∧ l.stops (firstChar (ls.flatMap Lexeme.text)) = true ∧ Lexed ls

theorem text_ne_nil (l : Lexeme) : l.text ≠ [] := by
  cases l with
  | numeral n => exact List.ne_nil_of_length_pos Nat.length_toDigits_pos
  | word b => cases b <;> simp [Lexeme.text]
  | _ => simp [Lexeme.text]

theorem token_not_eos (line : Nat) (l : Lexeme) : (l.token line).type ≠ .ltkEos := by
  cases l with
  | word b => cases b <;> simp [Lexeme.token]
  | _ => simp [Lexeme.token]

/-- The lexemes of a text are read one by one. -/
theorem parseLoop_lexemes : ∀ (ls : List Lexeme) {n : Nat} {p : GluaTokenParser}, Lexed ls →
    p.cycleCount + ls.length ≤ maxTokenParserCyclesCount → ls.length ≤ n →
      ∃ q, parseLoop n (p.reading (ls.flatMap Lexeme.text) []) = .ok q ∧
        q.tokens = p.tokens ++ ls.map (·.token p.parsingLinenumber)
  | [], n, p, _, _, _ => by
    refine ⟨p.reading [] [], ?_, (List.append_nil _).symm⟩
    cases n <;> rfl
  | l :: ls, n + 1, p, ⟨hl, hstops, hls⟩, hcycle, hn => by
    rw [List.length_cons] at hcycle hn
    set r := ls.flatMap Lexeme.text
    have hpass := tokenPass_lexeme p.nextCycle hl hstops
    have hnext : (p.reading (l.text ++ r) []).parseNextToken =
        .ok (p.nextCycle.pushed r (l.token p.parsingLinenumber), l.token p.parsingLinenumber) := by
      have hopen : ¬endCycle (p.cycleCount + 1) = true := by
        rw [endCycle, decide_eq_true_eq]
        omega
      change (if endCycle (p.cycleCount + 1) = true then _ else
        iterate .endless tokenPass _ (p.nextCycle.reading (l.text ++ r) [])) = _
      rw [if_neg hopen, iterate, hpass]
      rfl
    obtain ⟨q, hq, htokens⟩ := parseLoop_lexemes ls (n := n)
      (p := p.nextCycle.pushed r (l.token p.parsingLinenumber)) hls
      (by rw [pushed_cycleCount]; change p.cycleCount + 1 + _ ≤ _; omega) (by omega)
    refine ⟨q, ?_, htokens.trans (List.append_assoc _ _ _)⟩
    rw [List.flatMap_cons, parseLoop, if_neg (by simp [text_ne_nil]), hnext]
    exact (if_neg (token_not_eos _ l)).trans hq

/-- A text of lexemes is read as their tokens. -/
theorem parse_lexemes {ls : List Lexeme} (hls : Lexed ls) (hlength : ls.length ≤ maxTokenParserCyclesCount) :
    ∃ q, parse (ls.flatMap Lexeme.text) = .ok q ∧ q.tokens = ls.map (·.token 1) :=
  parseLoop_lexemes ls (p := .start []) hls (by rw [show (start []).cycleCount = 0 from rfl]; omega)
    (hlength.trans (by decide))

end GluaTokenParser

end Achain.Glua
