import Achain.Proofs.PrintedTokens
import Achain.Proofs.TokenEnds

/-!
# When `json.loads` returns

A value is read from the tokens of a run in no more than two calls and passes for each token. So
`json.loads` returns whenever the token parser does. A name that is longer than the buffer is a text
that has no end.
-/

namespace Achain.Glua

open Loops

variable {F : NumberFormat}

/-! ## Reading a value -/

/-- The tokens after a value are fewer, or the value is the last token. -/
def Fewer (F : NumberFormat) (tokens tokens' : List GluaParserToken) : Prop :=
  tokens'.length < tokens.length ∨ tokens' = tokens ∧ ∃ t v, tokens = [t] ∧ scalarValue F t = some v

theorem length_nextToken_le (tokens : List GluaParserToken) :
    (nextToken tokens).length ≤ tokens.length := by
  unfold nextToken
  split <;> simp

theorem length_nextToken_lt {t : GluaParserToken} {tokens : List GluaParserToken}
    (h : tokens ≠ []) : (nextToken (t :: tokens)).length < (t :: tokens).length := by
  obtain _ | ⟨u, tokens⟩ := tokens
  · exact absurd rfl h
  · simp [nextToken]

theorem Fewer.length_le {tokens tokens' : List GluaParserToken} (h : Fewer F tokens tokens') :
    tokens'.length ≤ tokens.length := by
  obtain h | ⟨rfl, -⟩ := h
  · exact h.le
  · exact le_rfl

/-- A comma is not a value. -/
theorem Fewer.length_lt {tokens tokens' : List GluaParserToken} (h : Fewer F tokens tokens')
    (hcomma : (tokens'.head?.map (·.type)) = some (.char ',')) : tokens'.length < tokens.length := by
  obtain h | ⟨rfl, t, v, rfl, hv⟩ := h
  · exact h
  · have htype : t.type = .char ',' := by simpa using hcomma
    simp [scalarValue, htype] at hv

/-- A reading ends, with tokens that have been left. -/
def EndsIn (left : List GluaParserToken → Prop)
    (r : Option (Option (GluaStorageValue × List GluaParserToken))) : Prop :=
  ∃ x, r = some x ∧ ∀ v tokens, x = some (v, tokens) → left tokens

theorem endsIn_none {left : List GluaParserToken → Prop} : EndsIn left (some none) := ⟨_, rfl, nofun⟩

theorem endsIn_some {left : List GluaParserToken → Prop} {v : GluaStorageValue}
    {tokens : List GluaParserToken} (h : left tokens) : EndsIn left (some (some (v, tokens))) := by
  refine ⟨_, rfl, fun v' tokens' heq => ?_⟩
  obtain ⟨-, rfl⟩ := Prod.mk.inj (Option.some.inj heq)
  exact h

theorem EndsIn.mono {left left' : List GluaParserToken → Prop}
    {r : Option (Option (GluaStorageValue × List GluaParserToken))} (h : EndsIn left r)
    (hleft : ∀ tokens, left tokens → left' tokens) : EndsIn left' r := by
  obtain ⟨x, hx, h⟩ := h
  exact ⟨x, hx, fun v tokens heq => hleft tokens (h v tokens heq)⟩

def ValueEnds (F : NumberFormat) (n : Nat) : Prop :=
  ∀ tokens : List GluaParserToken, 2 * tokens.length + 2 ≤ n →
    EndsIn (Fewer F tokens) (valueWithin F n tokens)

def ObjectEnds (F : NumberFormat) (n : Nat) : Prop :=
  ∀ map (tokens : List GluaParserToken), 2 * tokens.length + 3 ≤ n →
    EndsIn (fun left => left.length ≤ tokens.length) (objectWithin F n map tokens)

def ArrayEnds (F : NumberFormat) (n : Nat) : Prop :=
  ∀ count map (tokens : List GluaParserToken), 2 * tokens.length + 3 ≤ n →
    EndsIn (fun left => left.length ≤ tokens.length) (arrayWithin F n count map tokens)

theorem valueEnds_succ {n : Nat} (hobject : ObjectEnds F n) (harray : ArrayEnds F n) :
    ValueEnds F (n + 1) := by
  intro tokens hn
  obtain _ | ⟨t, tokens⟩ := tokens
  · exact endsIn_none
  rw [List.length_cons] at hn
  have hfewer (left : List GluaParserToken) (h : left.length ≤ tokens.length) :
      Fewer F (t :: tokens) left := .inl (Nat.lt_succ_of_le h)
  rw [valueWithin]
  split
  · refine ⟨_, rfl, fun v left heq => ?_⟩
    obtain ⟨v', hv', heq⟩ := Option.map_eq_some_iff.mp heq
    obtain ⟨-, rfl⟩ := Prod.mk.inj heq
    obtain _ | ⟨u, tokens⟩ := tokens
    · exact .inr ⟨rfl, t, v', rfl, hv'⟩
    · exact .inl (length_nextToken_lt (List.cons_ne_nil u tokens))
  split
  · split
    · exact endsIn_some (hfewer _ (length_nextToken_le tokens))
    · exact (hobject [] tokens (by omega)).mono hfewer
  · split
    · exact endsIn_some (hfewer _ (length_nextToken_le tokens))
    · exact (harray 0 [] tokens (by omega)).mono hfewer

theorem objectEnds_succ {n : Nat} (hvalue : ValueEnds F n) (hobject : ObjectEnds F n) :
    ObjectEnds F (n + 1) := by
  intro map tokens hn
  obtain _ | ⟨t, tokens⟩ := tokens
  · exact endsIn_none
  rw [List.length_cons] at hn
  rw [objectWithin]
  split
  · exact endsIn_none
  rename_i hstring
  dsimp only
  split
  · exact endsIn_none
  rename_i hcolon
  -- the key is not the last token, since a colon comes after it
  have hne : tokens ≠ [] := by
    rintro rfl
    simp [nextToken] at hstring hcolon
    simp [hstring] at hcolon
  have hkey := length_nextToken_lt (t := t) hne
  have hafter := length_nextToken_le (nextToken (t :: tokens))
  rw [List.length_cons] at hkey
  obtain ⟨x, hx, hleft⟩ := hvalue (nextToken (nextToken (t :: tokens))) (by omega)
  rw [hx]
  obtain _ | ⟨v, left⟩ := x
  · exact endsIn_none
  have hle := (hleft v left rfl).length_le
  have hnext := length_nextToken_le left
  dsimp only
  split
  · refine (hobject _ (nextToken left) (by omega)).mono fun last hlast => ?_
    rw [List.length_cons]
    omega
  split
  · refine endsIn_some ?_
    rw [List.length_cons]
    omega
  · exact endsIn_none

theorem arrayEnds_succ {n : Nat} (hvalue : ValueEnds F n) (harray : ArrayEnds F n) :
    ArrayEnds F (n + 1) := by
  intro count map tokens hn
  rw [arrayWithin]
  obtain ⟨x, hx, hleft⟩ := hvalue tokens (by omega)
  rw [hx]
  obtain _ | ⟨v, left⟩ := x
  · exact endsIn_none
  have hfewer := hleft v left rfl
  have hnext := length_nextToken_le left
  dsimp only
  split
  · rename_i hcomma
    have hlt := hfewer.length_lt hcomma
    exact (harray _ _ (nextToken left) (by omega)).mono fun last hlast => by omega
  split
  · exact endsIn_some (hnext.trans hfewer.length_le)
  · exact endsIn_none

theorem reading_ends (F : NumberFormat) : ∀ n, ValueEnds F n ∧ ObjectEnds F n ∧ ArrayEnds F n
  | 0 => ⟨fun _ h => absurd h (by omega), fun _ _ h => absurd h (by omega),
      fun _ _ _ h => absurd h (by omega)⟩
  | n + 1 => by
    obtain ⟨hvalue, hobject, harray⟩ := reading_ends F n
    exact ⟨valueEnds_succ hobject harray, objectEnds_succ hvalue hobject, arrayEnds_succ hvalue harray⟩

theorem value_ends (F : NumberFormat) (tokens : List GluaParserToken) :
    ∃ v, valueWithin F (2 * tokens.length + 2) tokens = some v := by
  obtain ⟨v, hv, -⟩ := (reading_ends F _).1 tokens le_rfl
  exact ⟨v, hv⟩

/-- What is read with enough calls and passes is what `tokens_to_lua_value` reads. -/
theorem tokensToLuaValue_eq (F : NumberFormat) : ∀ n,
    (∀ {tokens r}, valueWithin F n tokens = some r → tokensToLuaValue F n tokens = r) ∧
      (∀ {map tokens r}, objectWithin F n map tokens = some r → objectLoop F n map tokens = r) ∧
      ∀ {count map tokens r}, arrayWithin F n count map tokens = some r →
        arrayLoop F n count map tokens = r
  | 0 => by
    refine ⟨fun h => ?_, fun h => ?_, fun h => ?_⟩
    · rw [valueWithin] at h
      cases h
    · rw [objectWithin] at h
      cases h
    · rw [arrayWithin] at h
      cases h
  | n + 1 => by
    obtain ⟨hvalue, hobject, harray⟩ := tokensToLuaValue_eq F n
    refine ⟨fun {tokens r} h => ?_, fun {map tokens r} h => ?_, fun {count map tokens r} h => ?_⟩
    · obtain _ | ⟨t, tokens⟩ := tokens
      · exact Option.some.inj h
      rw [valueWithin] at h
      rw [tokensToLuaValue]
      split_ifs at h ⊢
      · exact Option.some.inj h
      · exact Option.some.inj h
      · exact hobject h
      · exact Option.some.inj h
      · exact harray h
    · obtain _ | ⟨t, tokens⟩ := tokens
      · exact Option.some.inj h
      rw [objectWithin] at h
      rw [objectLoop]
      split_ifs at h ⊢
      · exact Option.some.inj h
      dsimp only at h ⊢
      split_ifs at h ⊢
      · exact Option.some.inj h
      · cases hv : valueWithin F n (nextToken (nextToken (t :: tokens))) with
        | none => simp [hv] at h
        | some x =>
          rw [hv] at h
          rw [hvalue hv]
          obtain _ | ⟨v, left⟩ := x
          · exact Option.some.inj h
          dsimp only at h ⊢
          split_ifs at h ⊢
          · exact hobject h
          · exact Option.some.inj h
          · exact Option.some.inj h
    · rw [arrayWithin] at h
      rw [arrayLoop]
      cases hv : valueWithin F n tokens with
      | none => simp [hv] at h
      | some x =>
        rw [hv] at h
        rw [hvalue hv]
        obtain _ | ⟨v, left⟩ := x
        · exact Option.some.inj h
        dsimp only at h ⊢
        split_ifs at h ⊢
        · exact harray h
        · exact Option.some.inj h
        · exact Option.some.inj h

namespace TokenRun

open GluaTokenParser

variable {cycles : Nat} {p : GluaTokenParser}

/-! ## A long name -/

/-- What fits into the buffer is read of a name that goes on. -/
theorem reaches_name {y : Str} (hy : isNameChar (firstChar y) = true) : ∀ {x b : Str},
    (∀ d ∈ x, isNameChar d = true) → b.length + x.length < luaTokenMaxLength →
      Reaches pass ⟨cycles, p.reading (x ++ y) b, .name⟩ ⟨cycles, p.reading y (b ++ x), .name⟩
  | [], b, _, _ => by
    rw [List.nil_append, List.append_nil]
    exact .refl
  | d :: x, b, hx, hlength => by
    rw [List.length_cons] at hlength
    have hroom : Room b := Nat.lt_sub_of_add_lt (by omega)
    have hnext : isNameChar (firstChar (x ++ y)) = true := by
      obtain _ | ⟨e, x⟩ := x
      · exact hy
      · exact hx e (by simp)
    have hread := reaches_name hy (x := x) (b := b ++ [d]) (fun e he => hx e (by simp [he]))
      (by rw [List.length_append, List.length_singleton]; omega)
    rw [List.append_cons b]
    refine Relation.ReflTransGen.head ?_ hread
    simp [Goes, pass, namePass, saveCurrent_reading hroom, hnext]

/-- A name that the buffer has no room for has no end. -/
theorem not_parseEnds_of_name {c : Char} {x y : Str} (hdigit : isDigit c = false)
    (hname : (isAlpha c || c == '_') = true) (hx : ∀ d ∈ x, isNameChar d = true)
    (hlength : x.length + 2 = luaTokenMaxLength) (hy : isNameChar (firstChar y) = true) :
    ¬ ParseEnds (c :: (x ++ y)) := by
  have hnot (d : Char) (hd : (isAlpha d || d == '_') = false) : (c == d) = false := by
    rw [beq_eq_false_iff_ne]
    rintro rfl
    rw [hd] at hname
    cases hname
  let p : GluaTokenParser := { GluaTokenParser.start [] with cycleCount := 1 }
  have hstart : Goes pass (start (c :: (x ++ y))) ⟨1, p.reading (c :: (x ++ y)) [], .token⟩ := rfl
  have htoken : Goes pass ⟨1, p.reading (c :: (x ++ y)) [], .token⟩
      ⟨1, p.reading (c :: (x ++ y)) [], .name⟩ := by
    simp [Goes, pass, tokenPass, hdigit, hname, hnot '-' rfl, hnot '[' rfl, hnot '"' rfl, hnot '\'' rfl]
  have hc : isNameChar c = true := by simp [isNameChar, hname]
  have hread : Reaches pass ⟨1, p.reading (c :: (x ++ y)) [], .name⟩ ⟨1, p.reading y (c :: x), .name⟩ :=
    reaches_name hy (x := c :: x) (b := []) (List.forall_mem_cons.mpr ⟨hc, hx⟩)
      (by rw [List.length_nil, List.length_cons]; omega)
  intro hends
  refine ((parseEnds_iff_passable _).mp hends _ (Relation.ReflTransGen.head hstart
    (Relation.ReflTransGen.head htoken hread))).1 ⟨?_, hy⟩
  rw [full_reading, Room, List.length_cons]
  omega

end TokenRun

open TokenRun

/-! ## The end of a run and of `json.loads` -/

theorem loadsReturns_iff_passable (F : NumberFormat) (text : Str) :
    LoadsReturns F text ↔ Passable (cString text) := by
  rw [← parseEnds_iff_passable]
  constructor
  · rintro ⟨r, hr, ⟨p, n, v, hpass, -⟩ | he⟩
    · exact ⟨r, hr, .inl ⟨p, hpass⟩⟩
    · exact ⟨r, hr, .inr he⟩
  · rintro ⟨r, hr, ⟨p, hpass⟩ | he⟩
    · obtain ⟨v, hv⟩ := value_ends F p.tokens
      exact ⟨r, hr, .inl ⟨p, _, v, hpass, hv⟩⟩
    · exact ⟨r, hr, .inr he⟩

/-- The token parser stays inside its buffer. It ends, and `json.loads` returns, if and only if no loop
goes on with a character after a full buffer, and no token is taken again before there is one. -/
theorem tokenizer_ends_iff (F : NumberFormat) (text : Str) :
    (ParseEnds text ↔ Passable text) ∧ (∀ r, Reaches pass (start text) r → Inside r) ∧
      (LoadsReturns F text ↔ Passable (cString text)) :=
  ⟨parseEnds_iff_passable text, fun _ => inside_of_reaches, loadsReturns_iff_passable F text⟩

/-- A name of 10240 letters has no end. -/
theorem long_name_never_ends :
    ¬ ParseEnds (List.replicate 10240 'a') ∧ ∀ F, ¬ LoadsReturns F (List.replicate 10240 'a') := by
  have hname : ¬ ParseEnds (List.replicate 10240 'a') := by
    have hsplit : List.replicate 10240 'a' = 'a' :: (List.replicate 10238 'a' ++ ['a']) := by
      rw [← List.replicate_succ', ← List.replicate_succ]
    rw [hsplit]
    refine not_parseEnds_of_name rfl rfl (fun d hd => ?_) ?_ rfl
    · rw [List.eq_of_mem_replicate hd]
      rfl
    · rw [List.length_replicate]
      rfl
  refine ⟨hname, fun F h => hname ?_⟩
  have htext : cString (List.replicate 10240 'a') = List.replicate 10240 'a' := by
    rw [cString, List.takeWhile_eq_self_iff]
    intro d hd
    rw [List.eq_of_mem_replicate hd]
    rfl
  rw [loadsReturns_iff_passable, htext] at h
  exact (parseEnds_iff_passable _).mpr h

end Achain.Glua
