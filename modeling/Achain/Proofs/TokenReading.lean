import Achain.Glua.TokenParser
import Achain.Lib.Result

/-!
# Reading what was read

A token is read the same way wherever it stands, as far as the character after it allows. So the
spelling that is kept of a string, and the text that is kept of any other token, are read as that token
again.
-/

namespace Achain.Glua

open Loops

/-- The first character of a text. -/
def firstChar (x : Str) : Char := x.headD eofTokenChar

@[simp] theorem firstChar_nil : firstChar [] = eofTokenChar := rfl

@[simp] theorem firstChar_cons {c : Char} {x : Str} : firstChar (c :: x) = c := rfl

/-- The characters after a text matter for its first one only when there is none in it. -/
theorem firstChar_append {x y z : Str} (h : x = [] → firstChar y = firstChar z) :
    firstChar (x ++ y) = firstChar (x ++ z) := by
  cases x
  · exact h rfl
  · rfl

theorem eq_cons_of_firstChar {x : Str} {c : Char} (h : firstChar x = c) (hc : c ≠ eofTokenChar) :
    ∃ y, x = c :: y := by
  cases x with
  | nil => exact absurd h.symm hc
  | cons a y => exact ⟨y, by rw [← h, firstChar_cons]⟩

/-- What each character of a list is found to be. -/
theorem forall_mem_of_all {p : Char → Prop} [DecidablePred p] {l : Str}
    (h : (l.all fun c => decide (p c)) = true) : ∀ c ∈ l, p c := fun c hc =>
  of_decide_eq_true (List.all_eq_true.1 h c hc)

namespace GluaTokenParser

/-- The parser before a text, with a buffer. -/
def reading (p : GluaTokenParser) (rest buff : Str) : GluaTokenParser := { p with
  rest := rest
  parsingBuff := buff }

/-- The parser at a line. -/
def atLine (p : GluaTokenParser) (line : Nat) : GluaTokenParser := { p with
  parsingLinenumber := line }

variable {p q : GluaTokenParser} {x y r b b' literal literal' : Str} {c d : Char}

@[simp] theorem reading_rest : (p.reading x b).rest = x := rfl

@[simp] theorem reading_parsingBuff : (p.reading x b).parsingBuff = b := rfl

@[simp] theorem reading_reading : (p.reading x b).reading y b' = p.reading y b' := rfl

theorem currentChar_eq (p : GluaTokenParser) : p.currentChar = firstChar p.rest := rfl

@[simp] theorem currentChar_reading : (p.reading x b).currentChar = firstChar x := rfl

@[simp] theorem nextTokenChar_reading : (p.reading x b).nextTokenChar = firstChar x.tail := rfl

@[simp] theorem advance_reading : (p.reading x b).advance = p.reading x.tail b := rfl

@[simp] theorem unsave_reading : (p.reading x b).unsave = p.reading x b.dropLast := rfl

/-- A buffer that another character fits into. -/
def Room (b : Str) : Prop := b.length < luaTokenMaxLength - 1

theorem full_reading : (p.reading x b).full = true ↔ ¬Room b := by
  rw [Room, not_lt]
  exact decide_eq_true_iff

theorem not_full_reading : (p.reading x b).full = false ↔ Room b := by
  rw [← Bool.not_eq_true, full_reading, not_not]

theorem Room.of_append (h : Room (b ++ x)) : Room b := by
  unfold Room at *
  rw [List.length_append] at h
  omega

theorem saveToBuff_reading (h : Room b) : (p.reading x b).saveToBuff c = p.reading x (b ++ [c]) := by
  rw [saveToBuff, not_full_reading.2 h]
  rfl

theorem saveToBuffAndNext_reading (h : Room b) :
    (p.reading x b).saveToBuffAndNext c = p.reading x.tail (b ++ [c]) := by
  rw [saveToBuffAndNext, not_full_reading.2 h]
  rfl

theorem saveCurrent_reading (h : Room b) :
    (p.reading (c :: x) b).saveCurrent = p.reading x (b ++ [c]) := saveToBuffAndNext_reading h

theorem saveToBuff_of_full (h : ¬Room b) : (p.reading x b).saveToBuff c = p.reading x b := by
  rw [saveToBuff, full_reading.2 h]
  rfl

theorem saveToBuffAndNext_of_full (h : ¬Room b) :
    (p.reading x b).saveToBuffAndNext c = p.reading x b := by
  rw [saveToBuffAndNext, full_reading.2 h]
  rfl

theorem saveCurrent_of_full (h : ¬Room b) : (p.reading x b).saveCurrent = p.reading x b :=
  saveToBuffAndNext_of_full h

/-- Characters that leave room for another one have all been saved. -/
theorem foldl_saveToBuff_reading : ∀ {ds b : Str}, Room (b ++ ds) →
    ds.foldl saveToBuff (p.reading x b) = p.reading x (b ++ ds)
  | [], b, _ => by simp
  | c :: ds, b, h => by
    rw [List.foldl_cons, saveToBuff_reading h.of_append,
      foldl_saveToBuff_reading (by simpa using h), List.append_assoc, List.singleton_append]

theorem foldl_saveToBuff_eq : ∀ (ds b : Str), ∃ b', ds.foldl saveToBuff (p.reading x b) = p.reading x b' ∧
    (Room b' → b' = b ++ ds)
  | [], b => ⟨b, rfl, fun _ => (List.append_nil b).symm⟩
  | c :: ds, b => by
    rw [List.foldl_cons]
    by_cases h : Room b
    · obtain ⟨b', heq, hroom⟩ := foldl_saveToBuff_eq ds (b ++ [c])
      exact ⟨b', by rw [saveToBuff_reading h, heq], fun h' => by simpa using hroom h'⟩
    · have hstays : ds.foldl saveToBuff (p.reading x b) = p.reading x b := by
        induction ds with
        | nil => rfl
        | cons d ds ih => rw [List.foldl_cons, saveToBuff_of_full h, ih]
      exact ⟨b, by rw [saveToBuff_of_full h, hstays], fun h' => absurd h' h⟩

/-! ## Pieces of a string -/

/-- The digits of a decimal escape end early, so that another digit would be taken for one of them. -/
def OpenDigits (e : Str) : Prop :=
  ∃ ds, e = '\\' :: ds ∧ ds.length < 3 ∧ ds ≠ [] ∧ ∀ c ∈ ds, isDigit c = true

/-- A piece of a string is read the same way before anything that does not go on with its digits. -/
structure Piece (delimiter : Char) (e b b' : Str) : Prop where
  ne_nil : e ≠ []
  pass : ∀ (s : GluaTokenParser) (l r : Str), (OpenDigits e → isDigit (firstChar r) = false) →
    stringPass delimiter (s.reading (e ++ r) b, l) = .ok (.inl (s.reading r b', l ++ e))

theorem piece_char (hroom : Room b) (hd : c ≠ d) (heof : c ≠ eofTokenChar)
    (hline : isNewLineStart c = false) (hslash : c ≠ '\\') : Piece d [c] b (b ++ [c]) := by
  refine ⟨by simp, fun s l r _ => ?_⟩
  simp [stringPass, hd, heof, hline, hslash, saveCurrent_reading hroom]

theorem readSave_reading (hroom : Room b) (l : Str) :
    (p.reading (c :: x) b).readSave l d = (p.reading x (b ++ [d]), l ++ [c]) := by
  simp [readSave, saveCurrent_reading hroom, onlySave, saveToBuff_reading hroom]

/-- An escape of one character that leaves room in the buffer has been read. -/
theorem room_of_readSave (l : Str)
    (hroom : Room ((p.reading x (b ++ [c])).readSave l d).1.parsingBuff) : Room (b ++ [c]) := by
  by_contra h
  simp only [readSave, saveCurrent_of_full h, onlySave, unsave_reading, List.dropLast_concat] at hroom
  by_cases hb : Room b
  · rw [saveToBuff_reading hb] at hroom
    exact h (by simpa [Room] using hroom)
  · rw [saveToBuff_of_full hb] at hroom
    exact hb hroom

theorem isBase16Digit_eof : isBase16Digit eofTokenChar = false := by decide

theorem loadhexaesc_reading {c₁ c₂ : Char} (h₁ : isBase16Digit c₁ = true)
    (h₂ : isBase16Digit c₂ = true) (s : GluaTokenParser) (l r : Str) :
    (s.reading (c₁ :: c₂ :: r) (b ++ [d])).loadhexaesc l = .ok ((Nat.toDigits 10
      (hexcharToBase10 c₁ * 16 + hexcharToBase10 c₂).toNat).foldl saveToBuff (s.reading r b),
        l ++ [c₁, c₂]) := by
  simp [loadhexaesc, h₁, h₂]

theorem loadhexaesc_eq {l : Str} (h : (p.reading x b).loadhexaesc l = .ok (q, literal')) :
    ∃ c₁ c₂ y, x = c₁ :: c₂ :: y ∧ isBase16Digit c₁ = true ∧ isBase16Digit c₂ = true := by
  unfold loadhexaesc at h
  rcases x with _ | ⟨c₁, _ | ⟨c₂, y⟩⟩
  · simp [isBase16Digit_eof] at h
  · simp [isBase16Digit_eof] at h
  · refine ⟨c₁, c₂, y, rfl, ?_⟩
    by_contra hnot
    have hwrong : (!isBase16Digit c₁ || !isBase16Digit c₂) = true := by
      cases h₁ : isBase16Digit c₁ <;> cases h₂ : isBase16Digit c₂ <;> simp_all
    simp [hwrong] at h

/-- The digits of a decimal escape. -/
theorem loaddecesc_eq : ∀ {n : Nat} {v : Int} {x b l : Str},
    loaddecesc n v (p.reading x b, l) = .ok (q, literal') → Room q.parsingBuff →
      ∃ ds, x = ds ++ q.rest ∧ ds.length ≤ n ∧ (∀ c ∈ ds, isDigit c = true) ∧ literal' = l ++ ds ∧
        q = p.reading q.rest q.parsingBuff ∧ b <+: q.parsingBuff ∧
        (ds.length < n → isDigit q.currentChar = false) ∧
        ∀ (s : GluaTokenParser) (l r : Str),
          (ds.length < n → isDigit (firstChar r) = false) →
            loaddecesc n v (s.reading (ds ++ r) b, l) = .ok (s.reading r q.parsingBuff, l ++ ds)
  | 0, v, x, b, l, h, hroom => by
    rw [loaddecesc] at h
    split_ifs at h with hv
    cases h
    exact ⟨[], rfl, le_rfl, by simp, by simp, rfl, List.prefix_rfl, by simp, fun s l r _ => by
      simp [loaddecesc, hv]⟩
  | n + 1, v, x, b, l, h, hroom => by
    rw [loaddecesc] at h
    split_ifs at h with hdigit hv
    · obtain _ | ⟨c, y⟩ := x
      · exact absurd hdigit (by simp [isDigit, eofTokenChar])
      simp only [currentChar_reading, firstChar_cons] at h hdigit
      by_cases hb : Room b
      · rw [saveToBuffAndNext_reading hb] at h
        obtain ⟨ds, rfl, hlength, hdigits, rfl, hq, hprefix, hnext, hagain⟩ := loaddecesc_eq h hroom
        refine ⟨c :: ds, rfl, by simpa using hlength, by simpa using ⟨hdigit, hdigits⟩, by simp, hq,
          (List.prefix_append ..).trans hprefix, fun hlt => hnext (by simpa using hlt), ?_⟩
        intro s l r hr
        have hrest := hagain s (l ++ [c]) r fun hlt => hr (by simpa using hlt)
        rw [loaddecesc]
        simp only [List.cons_append, currentChar_reading, firstChar_cons] at hdigit hrest ⊢
        rw [if_pos hdigit, saveToBuffAndNext_reading hb]
        simpa using hrest
      · rw [saveToBuffAndNext_of_full hb] at h
        obtain ⟨ds, -, -, -, -, -, hprefix, -⟩ := loaddecesc_eq h hroom
        obtain ⟨e, he⟩ := hprefix
        rw [← he] at hroom
        exact absurd hroom.of_append hb
    · cases h
      refine ⟨[], rfl, by simp, by simp, by simp, rfl, List.prefix_rfl, fun _ => by simpa using hdigit,
        fun s l r hr => ?_⟩
      have hr := hr (by simp)
      rw [loaddecesc, List.nil_append, currentChar_reading, hr]
      simp [hv]

theorem utf8Pass_reading (hb : Room b) {v : Int} {l : Str} (hc : isBase16Digit c = true) :
    utf8Pass ((p.reading (c :: x) b, l), v) =
      if hexcharToBase10 c = 0 then .ok (.inr (p.reading x (b ++ [toChar (hexcharToBase10 c)]), l ++ [c]))
      else if 0x10FFFF < (v * 16 + hexcharToBase10 (firstChar x)) % 2 ^ 64 then
        .error .utf8TooLarge
      else .ok (.inl ((p.reading x (b ++ [toChar (hexcharToBase10 c)]), l ++ [c]),
        (v * 16 + hexcharToBase10 (firstChar x)) % 2 ^ 64)) := by
  simp [utf8Pass, hc, saveToBuffAndNext_reading hb]

theorem utf8Pass_of_full (hb : ¬Room b) {v : Int} {l : Str} (hc : isBase16Digit c = true) :
    utf8Pass ((p.reading (c :: x) b, l), v) =
      if hexcharToBase10 c = 0 then .ok (.inr (p.reading (c :: x) b, l ++ [c]))
      else if 0x10FFFF < (v * 16 + hexcharToBase10 c) % 2 ^ 64 then .error .utf8TooLarge
      else .ok (.inl ((p.reading (c :: x) b, l ++ [c]), (v * 16 + hexcharToBase10 c) % 2 ^ 64)) := by
  simp [utf8Pass, hc, saveToBuffAndNext_of_full hb]

theorem utf8Pass_done {v : Int} {l : Str} (hx : isBase16Digit (firstChar x) = false) :
    utf8Pass ((p.reading x b, l), v) = .ok (.inr (p.reading x b, l)) := by
  simp [utf8Pass, hx]

/-- A full buffer stays as it is. -/
theorem utf8_of_full (hb : ¬Room b) {n : Nat} {v : Int} {l : Str}
    (h : iterate .endless utf8Pass n ((p.reading x b, l), v) = .ok (q, literal')) :
    ¬Room q.parsingBuff := by
  induction n generalizing v l with
  | zero => cases h
  | succ n ih =>
    rw [iterate] at h
    by_cases hx : isBase16Digit (firstChar x) = true
    · obtain _ | ⟨c, y⟩ := x
      · exact absurd hx (by decide)
      rw [firstChar_cons] at hx
      rw [utf8Pass_of_full hb hx] at h
      split_ifs at h
      · cases h
        exact hb
      · exact ih h
    · rw [utf8Pass_done (by simpa using hx)] at h
      cases h
      exact hb

/-- The digits in braces are read the same way before the same character. -/
theorem utf8_eq : ∀ {n : Nat} {v : Int} {x b l : Str},
    iterate .endless utf8Pass n ((p.reading x b, l), v) = .ok (q, literal') → Room q.parsingBuff →
      ∃ ds, x = ds ++ q.rest ∧ literal' = l ++ ds ∧ q = p.reading q.rest q.parsingBuff ∧
        ∀ (s : GluaTokenParser) (l r : Str) (m : Nat), ds.length < m →
          firstChar r = firstChar q.rest →
            iterate .endless utf8Pass m ((s.reading (ds ++ r) b, l), v) =
              .ok (s.reading r q.parsingBuff, l ++ ds)
  | 0, _, _, _, _, h, _ => nomatch h
  | n + 1, v, x, b, l, h, hroom => by
    by_cases hb : Room b
    swap
    · exact absurd hroom (utf8_of_full hb h)
    rw [iterate] at h
    by_cases hx : isBase16Digit (firstChar x) = true
    · obtain _ | ⟨c, y⟩ := x
      · exact absurd hx (by decide)
      rw [firstChar_cons] at hx
      rw [utf8Pass_reading hb hx] at h
      split_ifs at h with hzero hlarge
      · cases h
        refine ⟨[c], rfl, rfl, rfl, fun s l r m hm _ => ?_⟩
        obtain _ | m := m
        · simp at hm
        rw [iterate, List.singleton_append, utf8Pass_reading hb hx, if_pos hzero]
        rfl
      · obtain ⟨ds, rfl, rfl, hq, hagain⟩ := utf8_eq h hroom
        refine ⟨c :: ds, rfl, by simp, hq, fun s l r m hm hr => ?_⟩
        obtain _ | m := m
        · simp at hm
        rw [iterate, List.cons_append, utf8Pass_reading hb hx, if_neg hzero,
          firstChar_append fun _ => hr, if_neg hlarge]
        simpa using hagain s (l ++ [c]) r m (by simpa using hm) hr
    · have hx : isBase16Digit (firstChar x) = false := by simpa using hx
      rw [utf8Pass_done hx] at h
      cases h
      refine ⟨[], rfl, by simp, rfl, fun s l r m hm hr => ?_⟩
      obtain _ | m := m
      · simp at hm
      rw [iterate, List.nil_append, utf8Pass_done (by rw [hr]; exact hx)]
      simp

theorem loadutf8esc_eq {l : Str} (h : (p.reading x (b ++ [c])).loadutf8esc l = .ok (q, literal'))
    (hroom : Room q.parsingBuff) :
    ∃ ds, x = '\x7b' :: (ds ++ '\x7d' :: q.rest) ∧ literal' = l ++ ds ∧
      q = p.reading q.rest q.parsingBuff ∧ ∀ (s : GluaTokenParser) (l r : Str),
        (s.reading ('\x7b' :: (ds ++ '\x7d' :: r)) (b ++ [c])).loadutf8esc l =
          .ok (s.reading r q.parsingBuff, l ++ ds) := by
  unfold loadutf8esc at h
  simp only [unsave_reading, List.dropLast_concat, currentChar_reading, advance_reading, reading_rest] at h
  split_ifs at h with hbrace
  obtain ⟨y, rfl⟩ := eq_cons_of_firstChar (by simpa using hbrace : firstChar x = '\x7b') (by decide)
  obtain ⟨⟨u, m⟩, hloop, h⟩ := Result.bind_eq_ok.1 h
  dsimp only at h
  split_ifs at h with hend
  cases h
  obtain ⟨ds, hy, rfl, hu, hagain⟩ := utf8_eq hloop hroom
  rw [currentChar_eq] at hend
  obtain ⟨z, hz⟩ := eq_cons_of_firstChar (by simpa using hend : firstChar u.rest = '\x7d')
    (by decide)
  rw [List.tail_cons] at hy
  rw [hz] at hy hu hagain
  refine ⟨ds, by rw [hy, hu]; rfl, rfl, by rw [hu]; rfl, fun s l r => ?_⟩
  have hrest := hagain s l ('\x7d' :: r) ((ds ++ '\x7d' :: r).length + 8) (by simp; omega) rfl
  have hfirst : firstChar (ds ++ '\x7d' :: r) = firstChar y := by
    rw [hy]
    exact firstChar_append fun _ => rfl
  unfold loadutf8esc
  simp only [unsave_reading, List.dropLast_concat, currentChar_reading, advance_reading, reading_rest,
    firstChar_cons, List.tail_cons, bne_self_eq_false, Bool.false_eq_true, if_false, hfirst]
  rw [List.tail_cons] at hrest
  rw [hrest]
  rfl

/-- Two characters are one new line. -/
def isNewLinePair (a b : Char) : Bool := (a == '\n' && b == '\r') || (a == '\r' && b == '\n')

theorem incLine_one : (p.reading [c] b).incLine = (p.reading [] b).atLine (p.parsingLinenumber + 1) := rfl

theorem incLine_two : (p.reading (c :: d :: x) b).incLine =
    (p.reading (if isNewLinePair c d then x else d :: x) b).atLine (p.parsingLinenumber + 1) := rfl

theorem isNewLineStart_of_pair (h : isNewLinePair c d = true) : isNewLineStart d = true := by
  rw [isNewLinePair, Bool.or_eq_true, Bool.and_eq_true, Bool.and_eq_true] at h
  rcases h with ⟨-, h⟩ | ⟨-, h⟩ <;> rw [beq_iff_eq.1 h] <;> rfl

/-- A new line is white space that is passed over. -/
theorem incLine_space : ∃ line z, (p.reading (c :: x) b).incLine = (p.reading z b).atLine line ∧
    z.dropWhile isSpace = x.dropWhile isSpace ∧ z.length ≤ x.length := by
  obtain _ | ⟨d, y⟩ := x
  · exact ⟨_, [], rfl, rfl, le_rfl⟩
  · refine ⟨_, _, incLine_two, ?_⟩
    split_ifs with hpair
    · have hd : isSpace d = true := by rw [isSpace, isNewLineStart_of_pair hpair]; rfl
      exact ⟨by rw [List.dropWhile_cons, if_pos hd], Nat.le_succ _⟩
    · exact ⟨rfl, le_rfl⟩

theorem zap_eq : ∀ {n : Nat} {p : GluaTokenParser} {x b : Str}, x.length ≤ n →
    ∃ line, (p.reading x b).zap n = (p.reading (x.dropWhile isSpace) b).atLine line
  | 0, p, x, b, h => by
    obtain rfl : x = [] := by simpa using h
    exact ⟨_, rfl⟩
  | n + 1, p, [], b, h => ⟨_, rfl⟩
  | n + 1, p, c :: y, b, h => by
    have h : y.length ≤ n := by simpa using h
    rw [zap, currentChar_reading, firstChar_cons, List.dropWhile_cons]
    split_ifs with hspace hline
    · obtain ⟨line, z, heq, hz, hlength⟩ := incLine_space (p := p) (c := c) (b := b) (x := y)
      obtain ⟨line', hzap⟩ := zap_eq (p := p.atLine line) (b := b) (hlength.trans h)
      exact ⟨line', by rw [heq, ← hz]; exact hzap⟩
    · exact zap_eq h
    · exact ⟨_, rfl⟩

/-- An escape is read the same way before anything that does not go on with its digits. -/
def Escapes (e b b' : Str) : Prop :=
  ∀ (s : GluaTokenParser) (l r : Str),
    (OpenDigits ('\\' :: e) → isDigit (firstChar r) = false) →
      (s.reading (e ++ r) (b ++ ['\\'])).escape l = .ok (s.reading r b', l ++ e)

/-- An escape has been read and is kept. -/
def KeepsEscape (p : GluaTokenParser) (x b l : Str) (q : GluaTokenParser) (literal' : Str) : Prop :=
  ∃ e, e ≠ [] ∧ firstChar e ≠ 'z' ∧ x = e ++ q.rest ∧ literal' = l ++ e ∧
    q = p.reading q.rest q.parsingBuff ∧ Escapes e b q.parsingBuff ∧
    (OpenDigits ('\\' :: e) → isDigit (firstChar q.rest) = false)

theorem not_openDigits (hc : isDigit c = false) : ¬OpenDigits ('\\' :: c :: x) := by
  rintro ⟨ds, heq, -, -, hdigits⟩
  obtain rfl := (List.cons.inj heq).2
  rw [hdigits c (by simp)] at hc
  cases hc

theorem keepsEscape_readSave {l : Str} (hz : c ≠ 'z') (hdigit : isDigit c = false)
    (hesc : ∀ (s : GluaTokenParser) (l r : Str), (s.reading (c :: r) (b ++ ['\\'])).escape l =
      .ok ((s.reading (c :: r) (b ++ ['\\'])).readSave l d))
    (h : (p.reading (c :: x) (b ++ ['\\'])).escape l = .ok (q, literal'))
    (hroom : Room q.parsingBuff) : KeepsEscape p (c :: x) b l q literal' := by
  rw [hesc] at h
  have hfits := room_of_readSave l (by rw [Except.ok.inj h]; exact hroom)
  rw [readSave_reading hfits] at h
  cases h
  refine ⟨[c], by simp, hz, rfl, rfl, rfl, fun s l r _ => ?_, fun hopen => ?_⟩
  · rw [List.singleton_append, hesc, readSave_reading hfits]
    rfl
  · exact absurd hopen (not_openDigits hdigit)

theorem keepsEscape_hexadecimal {l : Str}
    (h : (p.reading ('x' :: x) (b ++ ['\\'])).escape l = .ok (q, literal'))
    (hroom : Room q.parsingBuff) : KeepsEscape p ('x' :: x) b l q literal' := by
  change (p.reading x (b ++ ['\\'])).loadhexaesc (l ++ ['x']) = _ at h
  obtain ⟨c₁, c₂, y, rfl, h₁, h₂⟩ := loadhexaesc_eq h
  rw [loadhexaesc_reading h₁ h₂] at h
  obtain ⟨b', hsaved, hall⟩ := foldl_saveToBuff_eq (p := p) (x := y)
    (Nat.toDigits 10 (hexcharToBase10 c₁ * 16 + hexcharToBase10 c₂).toNat) b
  rw [hsaved] at h
  cases h
  have hb' := hall hroom
  rw [hb'] at hroom
  refine ⟨['x', c₁, c₂], by simp, by simp, rfl, by simp, rfl, fun s l r _ => ?_, fun hopen => ?_⟩
  · change (s.reading (c₁ :: c₂ :: r) (b ++ ['\\'])).loadhexaesc (l ++ ['x']) = _
    rw [loadhexaesc_reading h₁ h₂, foldl_saveToBuff_reading hroom, ← hb', List.append_assoc]
    rfl
  · exact absurd hopen (not_openDigits rfl)

theorem keepsEscape_utf8 {l : Str}
    (h : (p.reading ('u' :: x) (b ++ ['\\'])).escape l = .ok (q, literal'))
    (hroom : Room q.parsingBuff) : KeepsEscape p ('u' :: x) b l q literal' := by
  change ((p.reading x (b ++ ['\\'])).loadutf8esc (l ++ ['u', '\x7b']) >>= fun r =>
    pure (r.1, r.2 ++ ['\x7d'])) = _ at h
  obtain ⟨⟨u, m⟩, hload, h⟩ := Result.bind_eq_ok.1 h
  cases h
  obtain ⟨ds, rfl, rfl, hq, hagain⟩ := loadutf8esc_eq hload hroom
  refine ⟨'u' :: '\x7b' :: (ds ++ ['\x7d']), by simp, by simp, by simp, by simp, hq,
    fun s l r _ => ?_, fun hopen => ?_⟩
  · change ((s.reading ('\x7b' :: (ds ++ ['\x7d']) ++ r) (b ++ ['\\'])).loadutf8esc (l ++ ['u', '\x7b']) >>=
      fun r => pure (r.1, r.2 ++ ['\x7d'])) = _
    rw [List.cons_append, List.append_assoc, List.singleton_append, hagain]
    simp [bind, Except.bind, pure, Except.pure]
  · exact absurd hopen (not_openDigits rfl)

theorem escape_digit (hc : isDigit c = true) (l : Str) :
    (p.reading (c :: x) b).escape l = loaddecesc 3 0 (p.reading (c :: x) b, l) := by
  have hne {d : Char} (hd : isDigit d = false) : (p.reading (c :: x) b).currentChar ≠ d := by
    rintro rfl
    exact absurd hc (by rw [← firstChar_cons (c := c) (x := x), ← currentChar_reading, hd]; simp)
  unfold escape
  split
  iterate 10 exact absurd ‹_› (hne (by decide))
  have hline : isNewLineStart c = false := by
    rw [isNewLineStart, Bool.or_eq_false_iff]
    exact ⟨beq_false_of_ne (hne (by decide)), beq_false_of_ne (hne (by decide))⟩
  have hquote : (c == '\\' || c == '"' || c == '\'') = false := by
    rw [Bool.or_eq_false_iff, Bool.or_eq_false_iff]
    exact ⟨⟨beq_false_of_ne (hne (by decide)), beq_false_of_ne (hne (by decide))⟩,
      beq_false_of_ne (hne (by decide))⟩
  have heof : (c == eofTokenChar) = false := beq_false_of_ne (hne (by decide))
  simp [hline, hquote, heof, hc]

theorem keepsEscape_decimal {l : Str} (hdigit : isDigit (firstChar x) = true)
    (h : loaddecesc 3 0 (p.reading x (b ++ ['\\']), l) = .ok (q, literal'))
    (hroom : Room q.parsingBuff) : KeepsEscape p x b l q literal' := by
  obtain ⟨ds, hx, hlength, hdigits, rfl, hq, -, hnext, hagain⟩ := loaddecesc_eq h hroom
  obtain _ | ⟨c, ds⟩ := ds
  · rw [hx, List.nil_append, ← currentChar_eq, hnext (by simp)] at hdigit
    cases hdigit
  have hc : isDigit c = true := hdigits c (by simp)
  refine ⟨c :: ds, by simp, ?_, hx, rfl, hq, fun s l r hr => ?_, fun hopen => ?_⟩
  · rintro rfl
    exact absurd hc (by decide)
  · rw [List.cons_append, escape_digit hc]
    refine hagain s l r fun hlt => hr ⟨c :: ds, rfl, hlt, by simp, hdigits⟩
  · obtain ⟨es, heq, hlt, -, -⟩ := hopen
    obtain rfl := (List.cons.inj heq).2
    exact hnext hlt

/-- An escape that leaves room in the buffer: a backslash at the end of the text, white space that is
passed over, or an escape that is kept. -/
theorem escape_eq {l : Str} (h : (p.reading x (b ++ ['\\'])).escape l = .ok (q, literal'))
    (hroom : Room q.parsingBuff) (hline : isNewLineStart (firstChar x) = false) :
    q.currentChar = eofTokenChar ∨
    (∃ y line, x = 'z' :: y ∧ literal' = l ∧ q = (p.reading (y.dropWhile isSpace) b).atLine line) ∨
    KeepsEscape p x b l q literal' := by
  have hx {c : Char} (hc : (p.reading x (b ++ ['\\'])).currentChar = c) (heof : c ≠ eofTokenChar) :
      ∃ y, x = c :: y := eq_cons_of_firstChar hc heof
  have hsave {c d : Char} (hc : (p.reading x (b ++ ['\\'])).currentChar = c) (heof : c ≠ eofTokenChar)
      (hz : c ≠ 'z') (hdigit : isDigit c = false)
      (hesc : ∀ (s : GluaTokenParser) (l r : Str), (s.reading (c :: r) (b ++ ['\\'])).escape l =
        .ok ((s.reading (c :: r) (b ++ ['\\'])).readSave l d)) : KeepsEscape p x b l q literal' := by
    obtain ⟨y, rfl⟩ := hx hc heof
    exact keepsEscape_readSave hz hdigit hesc h hroom
  have hkeep := h
  unfold escape at h
  split at h
  · exact .inr (.inr (hsave ‹_› (by decide) (by decide) (by decide) fun _ _ _ => rfl))
  · exact .inr (.inr (hsave ‹_› (by decide) (by decide) (by decide) fun _ _ _ => rfl))
  · exact .inr (.inr (hsave ‹_› (by decide) (by decide) (by decide) fun _ _ _ => rfl))
  · exact .inr (.inr (hsave ‹_› (by decide) (by decide) (by decide) fun _ _ _ => rfl))
  · exact .inr (.inr (hsave ‹_› (by decide) (by decide) (by decide) fun _ _ _ => rfl))
  · exact .inr (.inr (hsave ‹_› (by decide) (by decide) (by decide) fun _ _ _ => rfl))
  · exact .inr (.inr (hsave ‹_› (by decide) (by decide) (by decide) fun _ _ _ => rfl))
  case _ hc =>
    obtain ⟨y, rfl⟩ := hx hc (by decide)
    exact .inr (.inr (keepsEscape_hexadecimal hkeep hroom))
  case _ hc =>
    obtain ⟨y, rfl⟩ := hx hc (by decide)
    exact .inr (.inr (keepsEscape_utf8 hkeep hroom))
  case _ hc =>
    obtain ⟨y, rfl⟩ := hx hc (by decide)
    simp only [unsave_reading, advance_reading, List.dropLast_concat, List.tail_cons, reading_rest] at h
    obtain ⟨line, hzap⟩ := zap_eq (p := p) (x := y) (b := b) le_rfl
    rw [hzap] at h
    cases h
    exact .inr (.inl ⟨y, line, rfl, rfl, rfl⟩)
  case _ hz =>
    rw [currentChar_reading] at h
    split_ifs at h with hnew hquote heof hdigit
    · rw [hline] at hnew
      cases hnew
    · rw [Bool.or_eq_true, Bool.or_eq_true, beq_iff_eq, beq_iff_eq, beq_iff_eq] at hquote
      rcases hquote with (hc | hc) | hc
      · exact .inr (.inr (hsave hc (by decide) (by decide) (by decide) fun _ _ _ => rfl))
      · exact .inr (.inr (hsave hc (by decide) (by decide) (by decide) fun _ _ _ => rfl))
      · exact .inr (.inr (hsave hc (by decide) (by decide) (by decide) fun _ _ _ => rfl))
    · cases h
      exact .inl (beq_iff_eq.1 heof)
    · exact .inr (.inr (keepsEscape_decimal hdigit h hroom))

/-! ## Short strings -/

/-- What is kept of a text of pieces starts with a digit. Only white space that is passed over comes
before it. -/
def leadsToDigit : Bool → Str → Bool
  | _, [] => false
  | _, '\\' :: 'z' :: x => leadsToDigit true x
  | zapping, c :: x => if zapping && isSpace c then leadsToDigit true x else isDigit c

/-- A decimal escape ends early, and what is kept after it would go on with its digits. -/
def joinsDigit : Str → Bool
  | '\\' :: x =>
    0 < (x.takeWhile isDigit).length && (x.takeWhile isDigit).length < 3 &&
      leadsToDigit false (x.dropWhile isDigit)
  | _ => false

/-- A string can be read again from its spelling: another character fits in the buffer, no new line is
escaped, and no decimal escape joins with what is kept after it. -/
def stringClean (s : GluaTokenParser × Str) : Bool :=
  !s.1.full && !(s.1.currentChar == '\\' && isNewLineStart s.1.nextTokenChar) &&
    !joinsDigit s.1.rest

theorem leadsToDigit_spaces : ∀ x : Str,
    leadsToDigit true x = leadsToDigit false (x.dropWhile isSpace)
  | [] => rfl
  | c :: x => by
    rw [List.dropWhile_cons]
    split_ifs with hspace
    · have hc : c ≠ '\\' := by
        rintro rfl
        exact absurd hspace (by decide)
      rw [← leadsToDigit_spaces x, leadsToDigit.eq_def]
      simp [hc, hspace]
    · rw [leadsToDigit.eq_def, leadsToDigit.eq_def false]
      split <;> simp_all

theorem leadsToDigit_char (hc : c ≠ '\\') : leadsToDigit false (c :: x) = isDigit c := by
  rw [leadsToDigit.eq_def]
  simp [hc]

theorem joinsDigit_openDigits (he : OpenDigits x) (hy : isDigit (firstChar y) = false) :
    joinsDigit (x ++ y) = leadsToDigit false y := by
  obtain ⟨ds, rfl, hlt, hne, hdigits⟩ := he
  have htake : (ds ++ y).takeWhile isDigit = ds := by
    rw [List.takeWhile_append_of_pos hdigits]
    cases y with
    | nil => simp
    | cons c y => simp [show isDigit c = false from hy]
  have hdrop : (ds ++ y).dropWhile isDigit = y := by
    rw [List.dropWhile_append_of_pos hdigits]
    cases y with
    | nil => rfl
    | cons c y => simp [show isDigit c = false from hy]
  have hpos : 0 < ds.length := List.length_pos_iff.2 hne
  simp [joinsDigit, htake, hdrop, hlt, hpos]

theorem stringPass_escape (hd : d = '"' ∨ d = '\'') (hb : Room b) (l : Str) :
    stringPass d (p.reading ('\\' :: x) b, l) =
      (p.reading x (b ++ ['\\'])).escape (if firstChar x = 'z' then l else l ++ ['\\']) >>=
        fun s => pure (.inl s) := by
  have hne : ('\\' == d) = false := by rcases hd with rfl | rfl <;> rfl
  have hstop : ('\\' == eofTokenChar || isNewLineStart '\\') = false := by decide
  simp only [stringPass, currentChar_reading, nextTokenChar_reading, firstChar_cons, List.tail_cons, hne,
    hstop, saveCurrent_reading hb]
  simp

/-- A pass over a string that leaves room in the buffer: a backslash at the end of the text, white
space that is passed over, or a piece. -/
theorem stringPass_eq {l : Str} (hd : d = '"' ∨ d = '\'')
    (h : stringPass d (p.reading x b, l) = .ok (.inl (q, literal')))
    (hclean : stringClean (p.reading x b, l) = true) (hroom : Room q.parsingBuff) :
    q.currentChar = eofTokenChar ∨
    (∃ y line, x = '\\' :: 'z' :: y ∧ literal' = l ∧
      q = (p.reading (y.dropWhile isSpace) b).atLine line) ∨
    ∃ e, x = e ++ q.rest ∧ literal' = l ++ e ∧ q = p.reading q.rest q.parsingBuff ∧
      Piece d e b q.parsingBuff ∧ (OpenDigits e → isDigit (firstChar q.rest) = false) ∧
      (leadsToDigit false x = false → isDigit (firstChar e) = false) := by
  simp only [stringClean, Bool.and_eq_true, Bool.not_eq_true', not_full_reading] at hclean
  obtain ⟨⟨hb, hline⟩, -⟩ := hclean
  simp only [currentChar_reading, nextTokenChar_reading] at hline
  by_cases hslash : firstChar x = '\\'
  · obtain ⟨y, rfl⟩ := eq_cons_of_firstChar hslash (by decide)
    rw [stringPass_escape hd hb] at h
    obtain ⟨⟨u, m⟩, hescape, h⟩ := Result.bind_eq_ok.1 h
    cases h
    rcases escape_eq hescape hroom (by simpa using hline) with heof | ⟨z, line, rfl, rfl, rfl⟩ | hkeeps
    · exact .inl heof
    · exact .inr (.inl ⟨z, line, rfl, rfl, rfl⟩)
    · obtain ⟨e, hne, hz, rfl, rfl, hq, hagain, hopen⟩ := hkeeps
      obtain _ | ⟨c, e⟩ := e
      · exact absurd rfl hne
      have hc : c ≠ 'z' := hz
      refine .inr (.inr ⟨'\\' :: c :: e, rfl, ?_, hq, ⟨by simp, fun s l r hr => ?_⟩, hopen, fun _ => rfl⟩)
      · simp [hc]
      · rw [List.cons_append, stringPass_escape hd hb]
        have hread := hagain s (l ++ ['\\']) r hr
        simp only [List.cons_append, firstChar_cons, hc, if_false] at hread ⊢
        rw [hread]
        simp [bind, Except.bind, pure, Except.pure]
  · have hne : (firstChar x == '\\') = false := beq_false_of_ne hslash
    simp only [stringPass, currentChar_reading, hne, bne, Bool.not_false, Bool.true_or, if_true,
      Bool.false_eq_true, if_false] at h
    split_ifs at h with hend hstop
    · cases h
    · rw [Bool.or_eq_true, not_or, Bool.not_eq_true, Bool.not_eq_true] at hstop
      obtain ⟨heof, hnew⟩ := hstop
      obtain _ | ⟨c, y⟩ := x
      · cases heof
      rw [saveCurrent_reading hb] at h
      cases h
      refine .inr (.inr ⟨[c], rfl, rfl, rfl, piece_char hb ?_ ?_ hnew hslash, ?_, ?_⟩)
      · exact fun hc => hend (by simp [hc])
      · exact fun hc => absurd heof (by simp [hc])
      · rintro ⟨ds, hds, -, hne, -⟩
        exact absurd (List.cons.inj hds).2.symm hne
      · exact fun hlead => (leadsToDigit_char (c := c) hslash).symm.trans hlead

theorem stringPass_done {l : Str} {t : GluaTokenParser × Str}
    (h : stringPass d (p, l) = .ok (.inr t)) : firstChar p.rest = d ∧ t = (p, l) := by
  simp only [stringPass] at h
  by_cases hend : (p.currentChar == d) = true
  · rw [if_pos hend] at h
    cases h
    exact ⟨beq_iff_eq.1 hend, rfl⟩
  · rw [if_neg hend] at h
    split_ifs at h
    all_goals first
      | cases h
      | obtain ⟨s, -, h⟩ := Result.bind_eq_ok.1 h
        cases h

theorem stringPass_eof {l : Str} {next} (hd : d ≠ eofTokenChar)
    (h : stringPass d (p, l) = .ok next) : p.currentChar ≠ eofTokenChar := by
  intro heof
  have hne : (eofTokenChar == d) = false := beq_false_of_ne hd.symm
  simp [stringPass, heof, hne] at h

theorem room_of_stringClean {s : GluaTokenParser × Str} (h : stringClean s = true) :
    Room s.1.parsingBuff := by
  rw [stringClean, Bool.and_eq_true, Bool.and_eq_true, Bool.not_eq_true'] at h
  exact not_full_reading.1 h.1.1

/-- A string is read again from what is kept of it. -/
theorem string_again (hd : d = '"' ∨ d = '\'') {s t : GluaTokenParser × Str}
    (h : Ends (stringPass d) (fun s => stringClean s = true) s t) :
    ∃ g y line, t.2 = s.2 ++ g ∧ t.1 = (s.1.reading (d :: y) t.1.parsingBuff).atLine line ∧
      Room t.1.parsingBuff ∧
      (leadsToDigit false s.1.rest = false → ∀ r, isDigit (firstChar (g ++ d :: r)) = false) ∧
      ∀ (u : GluaTokenParser) (l r : Str) (n : Nat), g.length < n →
        iterate .endless (stringPass d) n (u.reading (g ++ d :: r) s.1.parsingBuff, l) =
          .ok (u.reading (d :: r) t.1.parsingBuff, l ++ g) := by
  have hdigit : isDigit d = false := by rcases hd with rfl | rfl <;> rfl
  have heof : d ≠ eofTokenChar := by rcases hd with rfl | rfl <;> decide
  induction h with
  | @done s t hclean hpass =>
    obtain ⟨p, l⟩ := s
    obtain ⟨hfirst, rfl⟩ := stringPass_done hpass
    obtain ⟨y, hy⟩ := eq_cons_of_firstChar hfirst heof
    refine ⟨[], y, p.parsingLinenumber, by simp, by rw [← hy]; rfl, room_of_stringClean hclean,
      fun _ _ => hdigit, fun u l r n hn => ?_⟩
    obtain _ | n := n
    · simp at hn
    · simp [iterate, stringPass]
  | @more s s' t hclean hpass hends ih =>
    obtain ⟨p, l⟩ := s
    obtain ⟨q, l'⟩ := s'
    obtain ⟨g, y, line, hl, hq, hroom, hjoin, hagain⟩ := ih
    obtain ⟨hclean', next, hnext⟩ := hends.start
    rcases stringPass_eq hd hpass hclean (room_of_stringClean hclean') with
      hstop | ⟨z, line', hx, rfl, rfl⟩ | ⟨e, hx, rfl, hq', hpiece, hopen, hdigits⟩
    · exact absurd hstop (stringPass_eof heof hnext)
    · refine ⟨g, y, line, hl, hq, hroom, fun hlead => hjoin ?_, hagain⟩
      rw [hx] at hlead
      exact (leadsToDigit_spaces z).symm.trans hlead
    · have hne := hpiece.ne_nil
      have hover : q.reading (d :: y) t.1.parsingBuff = p.reading (d :: y) t.1.parsingBuff := by
        rw [hq']
        rfl
      have hjoins : OpenDigits e → ∀ r, isDigit (firstChar (g ++ d :: r)) = false := by
        intro he
        have hclean : joinsDigit p.rest = false := by
          rw [stringClean, Bool.and_eq_true, Bool.not_eq_true'] at hclean
          exact hclean.2
        apply hjoin
        rw [← joinsDigit_openDigits he (hopen he), ← hx, hclean]
      refine ⟨e ++ g, y, line, by rw [hl, List.append_assoc], by rw [← hover]; exact hq, hroom,
        fun hlead r => ?_, fun u l r n hn => ?_⟩
      · rw [← hdigits hlead]
        obtain _ | ⟨c, e⟩ := e
        · exact absurd rfl hne
        · rfl
      · have hlength : 0 < e.length := List.length_pos_iff.2 hne
        rw [List.length_append] at hn
        obtain _ | n := n
        · omega
        rw [iterate, List.append_assoc, hpiece.pass u l _ fun he => hjoins he r]
        simpa using hagain u (l ++ e) r n (by omega)

/-! ## Long strings -/

/-- A run of equals signs. -/
def equals (n : Nat) : Str := List.replicate n '='

theorem equals_succ (n : Nat) : equals (n + 1) = '=' :: equals n := rfl

/-- The number that a bracket, some equals signs and the character after them make. -/
def sepOf (c : Char) (n : Nat) (d : Char) : Int := if d = c then n else -n - 1

/-- The passes of `_skip_sep`. -/
def sepPass : GluaTokenParser × Int →
    Except TokenError ((GluaTokenParser × Int) ⊕ (GluaTokenParser × Int))
  | (p, count) =>
    if p.currentChar == '=' then .ok (.inl (p.saveToBuffAndNext '=', count + 1))
    else .ok (.inr (p, count))

theorem sep_of_full (hb : ¬Room b) {n : Nat} {k : Int} {s : GluaTokenParser × Int}
    (h : iterate .endless sepPass n (p.reading ('=' :: x) b, k) = .ok s) : False := by
  induction n generalizing k with
  | zero => cases h
  | succ n ih =>
    rw [iterate] at h
    simp only [sepPass, currentChar_reading, firstChar_cons, saveToBuffAndNext_of_full hb] at h
    exact ih h

theorem sep_eq : ∀ {n : Nat} {x b : Str} {k : Int} {s : GluaTokenParser × Int},
    iterate .endless sepPass n (p.reading x b, k) = .ok s →
      ∃ m y, x = equals m ++ y ∧ firstChar y ≠ '=' ∧ s = (p.reading y (b ++ equals m), k + m)
  | 0, _, _, _, _, h => nomatch h
  | n + 1, x, b, k, s, h => by
    by_cases hx : firstChar x = '='
    · obtain ⟨y, rfl⟩ := eq_cons_of_firstChar hx (by decide)
      by_cases hb : Room b
      · rw [iterate] at h
        simp only [sepPass, currentChar_reading, firstChar_cons, saveToBuffAndNext_reading hb] at h
        obtain ⟨m, z, rfl, hz, rfl⟩ := sep_eq h
        refine ⟨m + 1, z, rfl, hz, ?_⟩
        simp [equals_succ]
        omega
      · exact absurd h fun h => sep_of_full hb h
    · rw [iterate] at h
      have hne : (firstChar x == '=') = false := beq_false_of_ne hx
      simp only [sepPass, currentChar_reading, hne] at h
      cases h
      exact ⟨0, x, rfl, hx, by simp [equals]⟩

theorem sep_reading : ∀ {m n : Nat} {b : Str} {k : Int}, m < n → Room (b ++ equals m) →
    firstChar y ≠ '=' → iterate .endless sepPass n (p.reading (equals m ++ y) b, k) =
      .ok (p.reading y (b ++ equals m), k + m)
  | 0, n + 1, b, k, _, _, hy => by
    have hne : (firstChar y == '=') = false := beq_false_of_ne hy
    simp [iterate, equals, sepPass, hne]
  | m + 1, n + 1, b, k, hm, hb, hy => by
    have hroom : Room b := hb.of_append
    rw [equals_succ, List.append_cons] at hb ⊢
    rw [iterate]
    simp only [sepPass, List.cons_append, currentChar_reading, firstChar_cons, beq_self_eq_true, if_true,
      saveToBuffAndNext_reading hroom, List.tail_cons]
    rw [sep_reading (by omega) hb hy, Nat.cast_succ, add_assoc, add_comm (1 : Int)]

/-- `_skip_sep` reads a bracket and some equals signs. -/
theorem skipSep_eq {k : Int} (hb : Room b) (h : (p.reading (c :: x) b).skipSep = .ok (q, k)) :
    ∃ m y, x = equals m ++ y ∧ firstChar y ≠ '=' ∧ q = p.reading y (b ++ c :: equals m) ∧
      k = sepOf c m (firstChar y) := by
  simp only [skipSep, currentChar_reading, firstChar_cons, saveToBuffAndNext_reading hb] at h
  obtain ⟨⟨u, j⟩, hloop, h⟩ := Result.bind_eq_ok.1 h
  obtain ⟨m, y, rfl, hy, heq⟩ := sep_eq hloop
  cases heq
  cases h
  refine ⟨m, y, rfl, hy, by simp, ?_⟩
  simp [sepOf]

theorem skipSep_reading {m : Nat} (hb : Room (b ++ c :: equals m)) (hy : firstChar y ≠ '=') :
    (p.reading (c :: (equals m ++ y)) b).skipSep =
      .ok (p.reading y (b ++ c :: equals m), sepOf c m (firstChar y)) := by
  have hroom := hb.of_append
  rw [List.append_cons] at hb ⊢
  simp only [skipSep, currentChar_reading, firstChar_cons, saveToBuffAndNext_reading hroom,
    List.tail_cons]
  have hloop := sep_reading (p := p) (n := (equals m ++ y).length + 1) (k := 0)
    (by rw [List.length_append, equals, List.length_replicate]; omega) hb hy
  change (iterate .endless sepPass _ _ >>= _) = _
  rw [reading_rest, hloop]
  simp [bind, Except.bind, pure, Except.pure, sepOf]

/-- A new line of two characters is followed by the second one of them. -/
def doubled : Str → Bool
  | a :: b :: c :: _ => isNewLinePair a b && c == b
  | _ => false

/-- A long string can be read again from what is kept of it: another character fits in the buffer, also
at the end of the closing bracket, there is no null in it, and no new line that is kept makes one with
the next. -/
def longClean (sep : Int) (p : GluaTokenParser) : Bool :=
  !p.full && p.parsingBuff.all (· != nullChar) && !doubled p.rest &&
    (p.currentChar != ']' ||
      match p.skipSep with
      | .ok (p, count) => count != sep || !p.full
      | .error _ => true)

theorem pair_eof : isNewLinePair c eofTokenChar = false := by
  simp [isNewLinePair, eofTokenChar]

theorem pair_of_not_line (hc : ¬isNewLineStart c = true) : isNewLinePair c d = false := by
  simp only [isNewLineStart, Bool.or_eq_true, not_or, Bool.not_eq_true] at hc
  simp [isNewLinePair, hc.1, hc.2]

theorem pair_of_not_doubled (h : doubled (c :: d :: x) = false) (hpair : isNewLinePair c d = true) :
    isNewLinePair c (firstChar x) = false := by
  obtain _ | ⟨a, y⟩ := x
  · exact pair_eof
  · rw [doubled, hpair, Bool.true_and] at h
    rw [firstChar_cons]
    by_contra hnot
    rw [Bool.not_eq_false, isNewLinePair] at hnot
    rw [isNewLinePair] at hpair
    simp only [Bool.or_eq_true, Bool.and_eq_true, beq_iff_eq] at hnot hpair
    rcases hnot with ⟨rfl, rfl⟩ | ⟨rfl, rfl⟩ <;> rcases hpair with ⟨hc, rfl⟩ | ⟨hc, rfl⟩ <;>
      simp at h hc

/-- A piece of a long string is read the same way before anything that makes no new line with it. -/
def LongPiece (sep : Int) (g b : Str) : Prop :=
  ∀ (s : GluaTokenParser) (r : Str), (∀ c, g = [c] → isNewLinePair c (firstChar r) = false) →
    ∃ line, longStringPass true sep (s.reading (g ++ r) b) = .ok (.inl ((s.reading r (b ++ g)).atLine line))

/-- A pass over a long string ends it with the text, or after its closing bracket, or reads a piece. -/
inductive LongRead (sep : Int) (p : GluaTokenParser) : GluaTokenParser ⊕ GluaTokenParser → Prop
  | stop (hx : p.rest = []) : LongRead sep p (.inr p)
  | close {m : Nat} {y : Str} (hx : p.rest = ']' :: (equals m ++ ']' :: y)) (hm : sep = m)
      (hroom : Room (p.parsingBuff ++ ']' :: equals m)) :
      LongRead sep p (.inr (p.reading y (p.parsingBuff ++ ']' :: (equals m ++ [']']))))
  | piece {q : GluaTokenParser} (g y : Str) (line : Nat) (hg : g ≠ [])
      (hfirst : firstChar g = firstChar p.rest)
      (hpair : ∀ c, g = [c] → isNewLinePair c (firstChar y) = false)
      (hpiece : LongPiece sep g p.parsingBuff)
      (hq : q = (p.reading y (p.parsingBuff ++ g)).atLine line) : LongRead sep p (.inl q)

theorem longStringPass_cons {sep : Int} (hb : Room b) :
    longStringPass true sep (p.reading (c :: x) b) =
      if c == eofTokenChar then .error .undefinedLongString
      else if c == ']' then do
        let (p, count) ← (p.reading (c :: x) b).skipSep
        if count = sep then pure (.inr p.saveCurrent) else pure (.inl p.saveCurrent)
      else if isNewLineStart c then .ok (.inl (p.reading (c :: x) (b ++ [c])).incLine)
      else .ok (.inl (p.reading x (b ++ [c]))) := by
  simp only [longStringPass, reading_rest, List.isEmpty_cons, Bool.false_eq_true, if_false, currentChar_reading,
    firstChar_cons, not_full_reading.2 hb, Bool.false_and, Bool.not_true, saveToBuff_reading hb,
    saveCurrent_reading hb, if_true]

theorem longPiece_bracket {sep : Int} {m : Nat} (hb : Room (b ++ ']' :: equals m)) (hc : c ≠ '=')
    (hsep : sepOf ']' m c ≠ sep) : LongPiece sep (']' :: (equals m ++ [c])) b := by
  intro s r _
  have hskip := skipSep_reading (p := s) (c := ']') (y := c :: r) hb hc
  refine ⟨s.parsingLinenumber, ?_⟩
  rw [List.cons_append, List.append_assoc, List.singleton_append, longStringPass_cons hb.of_append,
    if_neg (by decide), if_pos (by decide), hskip]
  simp only [Result.ok_bind, firstChar_cons, if_neg hsep, saveCurrent_reading hb]
  simp [pure, Except.pure, atLine, reading]

theorem longPiece_line {sep : Int} (hb : Room b) (hc : isNewLineStart c = true) :
    LongPiece sep [c] b := by
  intro s r hpair
  have hpair := hpair c rfl
  have hne (d : Char) (hd : isNewLineStart d = false) : (c == d) = false := by
    rw [beq_eq_false_iff_ne]
    rintro rfl
    rw [hc] at hd
    cases hd
  refine ⟨s.parsingLinenumber + 1, ?_⟩
  rw [List.singleton_append, longStringPass_cons hb, hne _ (by decide), hne _ (by decide), if_neg (by simp),
    if_neg (by simp), if_pos hc]
  obtain _ | ⟨d, y⟩ := r
  · rw [incLine_one]
  · rw [incLine_two, show isNewLinePair c d = false from hpair]
    rfl

theorem longPiece_char {sep : Int} (hb : Room b) (heof : ¬(c == eofTokenChar) = true)
    (hbracket : ¬(c == ']') = true) (hline : ¬isNewLineStart c = true) : LongPiece sep [c] b :=
  fun s r _ => ⟨s.parsingLinenumber, by
    rw [List.singleton_append, longStringPass_cons hb, if_neg heof, if_neg hbracket, if_neg hline]
    rfl⟩

theorem longStringPass_eq {sep : Int} {next : GluaTokenParser ⊕ GluaTokenParser} (hsep : 0 ≤ sep)
    (hclean : longClean sep (p.reading x b) = true) (h : longStringPass true sep (p.reading x b) = .ok next)
    (hroom : ∀ q, next = .inl q → Room q.parsingBuff) : LongRead sep (p.reading x b) next := by
  simp only [longClean, Bool.and_eq_true, Bool.not_eq_true', not_full_reading] at hclean
  obtain ⟨⟨⟨hb, -⟩, hdoubled⟩, hclose⟩ := hclean
  obtain _ | ⟨c, y⟩ := x
  · cases h
    exact .stop rfl
  rw [longStringPass_cons hb] at h
  split_ifs at h with heof hbracket hline
  · obtain rfl : c = ']' := beq_iff_eq.1 hbracket
    obtain ⟨⟨u, k⟩, hskip, h⟩ := Result.bind_eq_ok.1 h
    obtain ⟨m, z, rfl, hz, rfl, rfl⟩ := skipSep_eq hb hskip
    dsimp only at h
    split_ifs at h with hk
    · obtain ⟨w, rfl⟩ : ∃ w, z = ']' :: w := by
        refine eq_cons_of_firstChar ?_ (by decide)
        by_contra hne
        rw [sepOf, if_neg hne] at hk
        omega
      rw [firstChar_cons] at hk hskip
      have hfits : Room (b ++ ']' :: equals m) := by
        rw [hskip] at hclose
        rw [← not_full_reading (p := p) (x := ']' :: w)]
        simpa [hk] using hclose
      rw [saveCurrent_reading hfits, List.append_assoc] at h
      cases h
      exact .close rfl hk.symm hfits
    · cases h
      have hfits : Room (b ++ ']' :: equals m) := by
        by_contra hfull
        have hu := hroom _ rfl
        rw [saveCurrent_of_full hfull] at hu
        exact hfull hu
      rw [saveCurrent, saveToBuffAndNext_reading hfits, List.append_assoc, currentChar_reading]
      exact .piece (']' :: (equals m ++ [firstChar z])) z.tail p.parsingLinenumber (by simp) rfl
        (fun c hc => by simp at hc) (longPiece_bracket hfits hz hk) rfl
  · cases h
    have hpiece : LongPiece sep [c] _ := longPiece_line hb hline
    obtain _ | ⟨d, z⟩ := y
    · exact .piece [c] [] _ (by simp) rfl (fun _ _ => pair_eof) hpiece incLine_one
    · rw [incLine_two]
      split_ifs with hpair
      · refine .piece [c] z _ (by simp) rfl (fun a ha => ?_) hpiece rfl
        obtain rfl := List.singleton_inj.1 ha
        exact pair_of_not_doubled hdoubled hpair
      · refine .piece [c] (d :: z) _ (by simp) rfl (fun a ha => ?_) hpiece rfl
        obtain rfl := List.singleton_inj.1 ha
        exact Bool.eq_false_iff.2 hpair
  · cases h
    refine .piece [c] y p.parsingLinenumber (by simp) rfl (fun a ha => ?_)
      (longPiece_char hb heof hbracket hline) rfl
    obtain rfl := List.singleton_inj.1 ha
    exact pair_of_not_line hline

theorem longClean_spec {sep : Int} (h : longClean sep p = true) :
    Room p.parsingBuff ∧ ∀ c ∈ p.parsingBuff, c ≠ nullChar := by
  simp only [longClean, Bool.and_eq_true, Bool.not_eq_true'] at h
  obtain ⟨⟨⟨hb, hnull⟩, -⟩, -⟩ := h
  exact ⟨not_full_reading.1 hb, fun c hc => bne_iff_ne.1 (List.all_eq_true.1 hnull c hc)⟩

theorem equals_ne_null {m : Nat} (hc : c ∈ equals m) : c ≠ nullChar := by
  rw [List.eq_of_mem_replicate hc]
  decide

/-- A long string is read again from what is kept of it. -/
theorem long_again {sep : Int} (hsep : 0 ≤ sep)
    (h : Ends (longStringPass true sep) (fun p => longClean sep p = true) p q) :
    ∃ g line, q = (p.reading q.rest (p.parsingBuff ++ g)).atLine line ∧
      (∀ c ∈ q.parsingBuff, c ≠ nullChar) ∧
      (∀ r, (q.rest = [] → r = []) → firstChar (g ++ r) = firstChar p.rest) ∧
      ∀ (s : GluaTokenParser) (r : Str) (n : Nat), (q.rest = [] → r = []) → g.length < n →
        ∃ line, iterate .endless (longStringPass true sep) n (s.reading (g ++ r) p.parsingBuff) =
          .ok ((s.reading r (p.parsingBuff ++ g)).atLine line) := by
  induction h with
  | @done p q hclean hpass =>
    obtain ⟨hroom, hnull⟩ := longClean_spec hclean
    cases longStringPass_eq (p := p) (x := p.rest) (b := p.parsingBuff) hsep hclean hpass
      (fun q hq => nomatch hq) with
    | stop hx =>
      change p.rest = [] at hx
      refine ⟨[], p.parsingLinenumber, by simp; rfl, hnull, fun r hr => ?_, fun s r n hr hn => ?_⟩
      · rw [hr hx, hx]
        rfl
      · obtain _ | n := n
        · simp at hn
        · exact ⟨s.parsingLinenumber, by simp [hr hx, iterate, longStringPass]; rfl⟩
    | @close m y hx hm hfits =>
      change p.rest = _ at hx
      change Room (p.parsingBuff ++ _) at hfits
      refine ⟨']' :: (equals m ++ [']']), p.parsingLinenumber, rfl, fun c hc => ?_, fun r _ => ?_,
        fun s r n _ hn => ?_⟩
      · simp only [reading_parsingBuff, List.mem_append, List.mem_cons, List.mem_nil_iff, or_false] at hc
        rcases hc with hc | rfl | hc | rfl
        · exact hnull c hc
        · decide
        · exact equals_ne_null hc
        · decide
      · rw [hx]
        rfl
      · obtain _ | n := n
        · simp at hn
        have hskip := skipSep_reading (p := s) (y := ']' :: r) hfits (by simp)
        refine ⟨s.parsingLinenumber, ?_⟩
        rw [iterate, List.cons_append, List.append_assoc, List.singleton_append, longStringPass_cons hroom,
          if_neg (by decide), if_pos (by decide), hskip]
        have hk : sepOf ']' m (firstChar (']' :: r)) = sep := by rw [hm, sepOf, firstChar_cons, if_pos rfl]
        simp only [Result.ok_bind, if_pos hk, saveCurrent_reading hfits]
        simp [pure, Except.pure, atLine, reading]
  | @more p p' q hclean hpass hends ih =>
    obtain ⟨g, line, hq, hnull, hfirst, hagain⟩ := ih
    have hroom' := (longClean_spec hends.start.1).1
    cases longStringPass_eq (p := p) (x := p.rest) (b := p.parsingBuff) hsep hclean hpass
      (fun q hq => by rw [← Sum.inl.inj hq]; exact hroom') with
    | piece g₀ y line₀ hg hfirst₀ hpair hpiece hp' =>
      subst hp'
      change LongPiece sep g₀ p.parsingBuff at hpiece
      refine ⟨g₀ ++ g, line, by rw [← List.append_assoc]; exact hq, hnull, fun r _ => ?_,
        fun s r n hr hn => ?_⟩
      · rw [List.append_assoc]
        obtain _ | ⟨c, e⟩ := g₀
        · exact absurd rfl hg
        · exact hfirst₀
      · have hlength : 0 < g₀.length := List.length_pos_iff.2 hg
        rw [List.length_append] at hn
        obtain _ | n := n
        · omega
        obtain ⟨line₁, hread⟩ := hpiece s (g ++ r) fun c hc => by
          rw [hfirst r hr]
          exact hpair c hc
        obtain ⟨line₂, hrest⟩ := hagain (s.atLine line₁) r n hr (by omega)
        refine ⟨line₂, ?_⟩
        rw [iterate, List.append_assoc]
        rw [hread, ← List.append_assoc]
        exact hrest

/-! ## Names and numerals -/

theorem namePass_reading (hb : Room b) : namePass (p.reading (c :: x) b) =
    .ok (if isNameChar (firstChar x) then .inl (p.reading x (b ++ [c])) else .inr (p.reading x (b ++ [c]))) := by
  simp [namePass, saveCurrent_reading hb]

theorem name_of_full (hb : ¬Room b) (hc : isNameChar c = true) {n : Nat}
    (h : iterate .endless namePass n (p.reading (c :: x) b) = .ok q) : False := by
  induction n with
  | zero => cases h
  | succ n ih =>
    rw [iterate] at h
    simp only [namePass, saveCurrent_of_full hb, currentChar_reading, firstChar_cons, hc, if_true] at h
    exact ih h

/-- A name is read the same way before anything that does not go on with it. -/
theorem name_again : ∀ {n : Nat} {c : Char} {x b : Str}, Room b →
    iterate .endless namePass n (p.reading (c :: x) b) = .ok q →
      ∃ ds y, x = ds ++ y ∧ q = p.reading y (b ++ c :: ds) ∧ (∀ d ∈ ds, isNameChar d = true) ∧
        ∀ (s : GluaTokenParser) (r : Str) (m : Nat), isNameChar (firstChar r) = false → ds.length < m →
          iterate .endless namePass m (s.reading (c :: (ds ++ r)) b) = .ok (s.reading r (b ++ c :: ds))
  | 0, _, _, _, _, h => nomatch h
  | n + 1, c, x, b, hb, h => by
    rw [iterate, namePass_reading hb] at h
    by_cases hx : isNameChar (firstChar x) = true
    · rw [if_pos hx] at h
      obtain _ | ⟨d, y⟩ := x
      · exact absurd hx (by decide)
      have hroom : Room (b ++ [c]) := by
        by_contra hfull
        exact name_of_full hfull hx h
      obtain ⟨ds, z, rfl, rfl, hds, hagain⟩ := name_again hroom h
      refine ⟨d :: ds, z, rfl, by simp, ?_, fun s r m hr hm => ?_⟩
      · rintro a (_ | ⟨_, ha⟩)
        · exact hx
        · exact hds a ha
      · obtain _ | m := m
        · simp at hm
        have hrest := hagain s r m hr (by simpa using hm)
        rw [iterate, namePass_reading hb, List.cons_append, if_pos (by exact hx)]
        simpa using hrest
    · rw [if_neg hx] at h
      cases h
      refine ⟨[], x, rfl, rfl, by simp, fun s r m hr hm => ?_⟩
      obtain _ | m := m
      · simp at hm
      simp [iterate, namePass_reading hb, hr]

theorem numeral_of_full (hb : ¬Room b) (hx : isBase16Digit (firstChar x) = true ∨ firstChar x = '.')
    {n : Nat} {dot : Bool} {s : GluaTokenParser × Bool}
    (h : iterate .endless numeralPass n (p.reading x b, dot) = .ok s) : False := by
  induction n generalizing dot with
  | zero => cases h
  | succ n ih =>
    rw [iterate] at h
    simp only [numeralPass, saveCurrent_of_full hb, currentChar_reading] at h
    split_ifs at h with hdigit hdot hseen
    · exact ih h
    · exact ih h
    · rcases hx with hx | hx
      · exact hdigit hx
      · exact hdot (beq_iff_eq.2 hx)

theorem numeralPass_done {dot : Bool} (hdigit : isBase16Digit (firstChar x) = false)
    (hdot : firstChar x ≠ '.') : numeralPass (p.reading x b, dot) = .ok (.inr (p.reading x b, dot)) := by
  simp [numeralPass, hdigit, hdot]

/-- A pass over a numeral ends it, or saves a character of it. -/
theorem numeralPass_eq {dot : Bool} {next : (GluaTokenParser × Bool) ⊕ (GluaTokenParser × Bool)}
    (h : numeralPass (p.reading x b, dot) = .ok next) :
    (next = .inr (p.reading x b, dot) ∧ isBase16Digit (firstChar x) = false ∧ firstChar x ≠ '.') ∨
    ∃ c y dot', x = c :: y ∧ (isBase16Digit c = true ∨ c = '.') ∧
      next = .inl ((p.reading x b).saveCurrent, dot') ∧
      ∀ (s : GluaTokenParser) (r b : Str), numeralPass (s.reading (c :: r) b, dot) =
        .ok (.inl ((s.reading (c :: r) b).saveCurrent, dot')) := by
  by_cases hdigit : isBase16Digit (firstChar x) = true
  · obtain _ | ⟨c, y⟩ := x
    · exact absurd hdigit (by decide)
    have hsame (s : GluaTokenParser) (r b : Str) : numeralPass (s.reading (c :: r) b, dot) =
        .ok (.inl ((s.reading (c :: r) b).saveCurrent, dot)) := if_pos hdigit
    rw [hsame] at h
    exact .inr ⟨c, y, dot, rfl, .inl hdigit, (Except.ok.inj h).symm, hsame⟩
  by_cases hdot : firstChar x = '.'
  · obtain ⟨y, rfl⟩ := eq_cons_of_firstChar hdot (by decide)
    cases dot with
    | true => cases h
    | false => exact .inr ⟨'.', y, true, rfl, .inr rfl, (Except.ok.inj h).symm, fun _ _ _ => rfl⟩
  · rw [Bool.not_eq_true] at hdigit
    rw [numeralPass_done hdigit hdot] at h
    exact .inl ⟨(Except.ok.inj h).symm, hdigit, hdot⟩

/-- A numeral is read the same way before anything that does not go on with it. -/
theorem numeral_again : ∀ {n : Nat} {x b : Str} {dot : Bool} {s : GluaTokenParser × Bool},
    iterate .endless numeralPass n (p.reading x b, dot) = .ok s →
      ∃ ds y, x = ds ++ y ∧ s.1 = p.reading y (b ++ ds) ∧ (∀ d ∈ ds, d ≠ nullChar) ∧
        ∀ (u : GluaTokenParser) (r : Str) (m : Nat), isBase16Digit (firstChar r) = false →
          firstChar r ≠ '.' → ds.length < m →
            iterate .endless numeralPass m (u.reading (ds ++ r) b, dot) = .ok (u.reading r (b ++ ds), s.2)
  | 0, _, _, _, _, h => nomatch h
  | n + 1, x, b, dot, s, h => by
    rw [iterate] at h
    obtain ⟨next, hpass⟩ : ∃ next, numeralPass (p.reading x b, dot) = .ok next := by
      cases hpass : numeralPass (p.reading x b, dot) with
      | error e => simp [hpass] at h
      | ok next => exact ⟨next, rfl⟩
    rcases numeralPass_eq hpass with ⟨rfl, hdigit, hdot⟩ | ⟨c, y, dot', rfl, hc, rfl, hsame⟩
    · rw [hpass] at h
      cases h
      refine ⟨[], x, rfl, by simp, by simp, fun u r m hr hr' hm => ?_⟩
      obtain _ | m := m
      · simp at hm
      rw [iterate, List.nil_append, numeralPass_done hr hr', List.append_nil]
    · rw [hpass] at h
      have hb : Room b := by
        by_contra hfull
        rw [saveCurrent_of_full hfull] at h
        exact numeral_of_full hfull (by exact hc) h
      rw [saveCurrent_reading hb] at h
      obtain ⟨ds, z, rfl, hs, hds, hagain⟩ := numeral_again h
      refine ⟨c :: ds, z, rfl, by simp [hs], ?_, fun u r m hr hr' hm => ?_⟩
      · rintro a (_ | ⟨_, ha⟩)
        · rintro rfl
          exact absurd hc (by decide)
        · exact hds a ha
      · obtain _ | m := m
        · simp at hm
        have hrest := hagain u r m hr hr' (by simpa using hm)
        rw [iterate, List.cons_append, hsame, saveCurrent_reading hb]
        simpa using hrest

end GluaTokenParser

end Achain.Glua
