import Achain.Proofs.JsonDenotation
import Achain.Proofs.LoadsReturns

/-!
# What `json.loads` reads of its tokens

After as many calls of `next` as there are tokens the cursor is still at the last token, which is then read
again. So what is read is a value that the tokens spell from the front, with the last one repeated: it can
end before the tokens do, or need the last one more than once. Where a value that is read from the front
ends with the tokens, `json.loads` returns what they denote, and nothing for tokens that are no value.
-/

namespace Achain.Glua

open Json

variable {F : NumberFormat} {tokens : List GluaParserToken} {p n : Nat}

/-! ## The cursor -/

/-- `current` after `p` calls of `next`. -/
def tokenAt (tokens : List GluaParserToken) (p : Nat) : GluaParserToken :=
  tokens.getD (min p (tokens.length - 1)) eofToken

/-- The tokens from there on. -/
def cursor (tokens : List GluaParserToken) (p : Nat) : List GluaParserToken :=
  tokens.drop (min p (tokens.length - 1))

theorem cursor_of_lt (h : p + 1 < tokens.length) :
    cursor tokens p = tokenAt tokens p :: cursor tokens (p + 1) := by
  have hp : min p (tokens.length - 1) = p := by omega
  have hp' : min (p + 1) (tokens.length - 1) = p + 1 := by omega
  have hlt : p < tokens.length := by omega
  rw [cursor, hp, cursor, hp', tokenAt, hp, List.drop_eq_getElem_cons hlt,
    List.getD_eq_getElem?_getD, List.getElem?_eq_getElem hlt, Option.getD_some]

/-- At the last token the cursor stays. -/
theorem cursor_of_ge (hne : tokens ≠ []) (h : tokens.length ≤ p + 1) :
    cursor tokens p = [tokenAt tokens p] ∧ cursor tokens (p + 1) = [tokenAt tokens p] := by
  have hlength := List.length_pos_iff.2 hne
  have hp : min p (tokens.length - 1) = tokens.length - 1 := by omega
  have hp' : min (p + 1) (tokens.length - 1) = tokens.length - 1 := by omega
  have hlt : tokens.length - 1 < tokens.length := by omega
  have hlast : tokens.drop (tokens.length - 1) = [tokens.getD (tokens.length - 1) eofToken] := by
    rw [List.drop_eq_getElem_cons hlt, List.getD_eq_getElem?_getD, List.getElem?_eq_getElem hlt,
      Option.getD_some, List.drop_eq_nil_of_le (by omega)]
  rw [cursor, hp, cursor, hp', tokenAt, hp]
  exact ⟨hlast, hlast⟩

theorem cursor_cons (hne : tokens ≠ []) (p : Nat) :
    ∃ rest, cursor tokens p = tokenAt tokens p :: rest ∧ (rest.isEmpty = true ↔ tokens.length ≤ p + 1) ∧
      (p + 1 < tokens.length → rest = cursor tokens (p + 1)) := by
  by_cases h : p + 1 < tokens.length
  · refine ⟨_, cursor_of_lt h, ?_, fun _ => rfl⟩
    rw [cursor, List.isEmpty_iff, List.drop_eq_nil_iff]
    omega
  · exact ⟨[], (cursor_of_ge hne (not_lt.1 h)).1, iff_of_true rfl (not_lt.1 h), fun h' => absurd h' h⟩

theorem nextToken_cursor (hne : tokens ≠ []) (p : Nat) :
    nextToken (cursor tokens p) = cursor tokens (p + 1) := by
  by_cases h : p + 1 < tokens.length
  · obtain ⟨rest, hrest, -⟩ := cursor_cons hne (p + 1)
    rw [cursor_of_lt h, hrest]
    rfl
  · obtain ⟨hp, hp'⟩ := cursor_of_ge hne (not_lt.1 h)
    rw [hp, hp']
    rfl

theorem head?_cursor (hne : tokens ≠ []) (p : Nat) :
    (cursor tokens p).head?.map (·.type) = some (tokenAt tokens p).type := by
  obtain ⟨rest, hrest, -⟩ := cursor_cons hne p
  rw [hrest]
  rfl

theorem cursor_zero (tokens : List GluaParserToken) : cursor tokens 0 = tokens := by
  rw [cursor, Nat.zero_min]
  rfl

/-! ## The steps of the reader -/

section Steps

variable (hne : tokens ≠ [])
include hne

theorem tokensToLuaValue_cursor (n p : Nat) : tokensToLuaValue F (n + 1) (cursor tokens p) =
    if tokens.length ≤ p + 1 ∨
        (tokenAt tokens p).type ≠ .char '\x7b' ∧ (tokenAt tokens p).type ≠ .char '[' then
      (scalarValue F (tokenAt tokens p)).map fun v => (v, cursor tokens (p + 1))
    else if (tokenAt tokens p).type = .char '\x7b' then
      if (tokenAt tokens (p + 1)).type = .char '\x7d' then
        some (.table .unknownTable [], cursor tokens (p + 2))
      else objectLoop F n [] (cursor tokens (p + 1))
    else if (tokenAt tokens (p + 1)).type = .char ']' then
      some (.table .unknownArray [], cursor tokens (p + 2))
    else arrayLoop F n 0 [] (cursor tokens (p + 1)) := by
  obtain ⟨rest, hrest, hempty, hnext⟩ := cursor_cons hne p
  have hcursor := nextToken_cursor hne p
  rw [hrest] at hcursor ⊢
  rw [tokensToLuaValue, hcursor]
  by_cases hlast : tokens.length ≤ p + 1
  · rw [if_pos (by simp [hempty.2 hlast]), if_pos (.inl hlast)]
  · rw [hnext (not_le.1 hlast), head?_cursor hne, nextToken_cursor hne]
    have hempty' : (cursor tokens (p + 1)).isEmpty = false := by
      rw [← hnext (not_le.1 hlast), Bool.eq_false_iff]
      exact fun h => hlast (hempty.1 h)
    simp [hlast, hempty']

theorem objectLoop_cursor (n p : Nat) (map : List (Str × GluaStorageValue)) :
    objectLoop F (n + 1) map (cursor tokens p) =
      if (tokenAt tokens p).type ≠ .ltkString then none
      else if (tokenAt tokens (p + 1)).type ≠ .char ':' then none
      else match tokensToLuaValue F n (cursor tokens (p + 2)) with
        | none => none
        | some (v, tokens') =>
          let map := tableMapSet (tokenAt tokens p).token v map
          if (tokens'.head?.map (·.type)) = some (.char ',') then objectLoop F n map (nextToken tokens')
          else if (tokens'.head?.map (·.type)) = some (.char '\x7d') then
            some (.table .unknownTable map, nextToken tokens')
          else none := by
  obtain ⟨rest, hrest, -⟩ := cursor_cons hne p
  have hcursor := nextToken_cursor hne p
  rw [hrest] at hcursor ⊢
  rw [objectLoop, hcursor]
  dsimp only
  rw [nextToken_cursor hne, head?_cursor hne]
  exact if_congr Iff.rfl rfl (if_congr (not_congr Option.some_inj) rfl rfl)

end Steps

/-! ## Tokens that are values -/

theorem isDigit_of_isNumeral {s : Str} (h : isNumeral s = true) :
    s.takeWhile isDigit = s ∧ Nat.ofDigitChars 10 s 0 < 2 ^ 63 := by
  rw [isNumeral, Bool.and_eq_true, decide_eq_true_eq] at h
  exact ⟨List.takeWhile_eq_self_iff.2 (List.all_eq_true.1 h.1), h.2⟩

theorem streamInt_numeral {s : Str} (h : isNumeral s = true) :
    streamInt s = Int64.ofInt (Nat.ofDigitChars 10 s 0) := by
  obtain ⟨hdigits, hlt⟩ := isDigit_of_isNumeral h
  rw [streamInt, hdigits, min_eq_right (by omega)]

theorem scalarValue_eq {t : GluaParserToken} (hint : t.type = .ltkInt → isNumeral t.token = true) :
    scalarValue F t = (ofToken t).map (storage F) := by
  have hword : (if t.token = ['t', 'r', 'u', 'e'] then some (GluaStorageValue.bool true)
      else if t.token = ['f', 'a', 'l', 's', 'e'] then some (.bool false)
      else if t.token = ['n', 'u', 'l', 'l'] then some .null
      else none) = (ofWord t.token).map (storage F) := by
    unfold ofWord
    split_ifs <;> rfl
  unfold scalarValue ofToken
  cases htype : t.type with
  | ltkInt =>
    have hnumeral := hint htype
    dsimp only
    rw [if_pos hnumeral, streamInt_numeral hnumeral]
    rfl
  | ltkTrue => exact hword
  | ltkFalse => exact hword
  | ltkName => exact hword
  | _ => rfl

theorem scalarValue_ofToken {t : GluaParserToken} {v : Json} (h : ofToken t = some v) :
    scalarValue F t = some (storage F v) := by
  rw [scalarValue_eq, h, Option.map_some]
  intro htype
  by_contra hnumeral
  simp [ofToken, htype, hnumeral] at h

/-- A bracket is no value by itself. -/
theorem type_of_ofToken {t : GluaParserToken} {v : Json} (h : ofToken t = some v) (c : Char) :
    t.type ≠ .char c := by
  intro htype
  simp [ofToken, htype] at h

theorem Json.SpellsItems.head {tok : Nat → GluaParserToken} {i j : Nat} {items : List Json}
    (h : SpellsItems tok i j items) : (tok i).type ≠ .char ']' := by
  have hvalue {k : Nat} {v : Json} (hv : Spells tok i k v) : (tok i).type ≠ .char ']' := by
    cases hv with
    | token htoken => exact type_of_ofToken htoken _
    | emptyArray hopen | array hopen | emptyObject hopen | object hopen =>
      rw [hopen]
      decide
  cases h with
  | last hv => exact hvalue hv
  | more hv => exact hvalue hv

theorem Json.SpellsMembers.head {tok : Nat → GluaParserToken} {i j : Nat} {members : List (Str × Json)}
    (h : SpellsMembers tok i j members) : (tok i).type ≠ .char '\x7d' := by
  cases h with
  | last hkey | more hkey =>
    rw [hkey]
    decide

/-! ## What the tokens spell is read -/

mutual

theorem Json.Spells.read {i j : Nat} {v : Json} (h : Spells (tokenAt tokens) i j v)
    (hj : j ≤ tokens.length) {n : Nat} (hn : 2 * (j - i) ≤ n) :
    tokensToLuaValue F n (cursor tokens i) = some (storage F v, cursor tokens j) := by
  have hlt := h.lt
  have hne : tokens ≠ [] := List.length_pos_iff.1 (by omega)
  obtain ⟨n, rfl⟩ : ∃ m, n = m + 1 := ⟨n - 1, by omega⟩
  rw [tokensToLuaValue_cursor hne]
  match h with
  | .token htoken =>
    rw [if_pos (.inr ⟨type_of_ofToken htoken _, type_of_ofToken htoken _⟩), scalarValue_ofToken htoken]
    rfl
  | .emptyArray hopen hclose =>
    rw [if_neg (by simp [hopen]; omega), if_neg (by simp [hopen]), if_pos hclose]
    rfl
  | .array hopen hitems =>
    have := hitems.lt
    rw [if_neg (by simp [hopen]; omega), if_neg (by simp [hopen]), if_neg hitems.head]
    exact SpellsItems.read hitems hj (by omega)
  | .emptyObject hopen hclose =>
    rw [if_neg (by simp [hopen]; omega), if_pos hopen, if_pos hclose]
    rfl
  | .object hopen hmembers =>
    have := hmembers.lt
    rw [if_neg (by simp [hopen]; omega), if_pos hopen, if_neg hmembers.head]
    exact SpellsMembers.read hmembers hj (by omega)

theorem Json.SpellsItems.read {i j : Nat} {items : List Json} (h : SpellsItems (tokenAt tokens) i j items)
    (hj : j ≤ tokens.length) {n count : Nat} {map : List (Str × GluaStorageValue)}
    (hn : 2 * (j - i) ≤ n) : arrayLoop F n count map (cursor tokens i) =
      some (.table .unknownArray (storeItems F count map items), cursor tokens j) := by
  have hlt := h.lt
  have hne : tokens ≠ [] := List.length_pos_iff.1 (by omega)
  obtain ⟨n, rfl⟩ : ∃ m, n = m + 1 := ⟨n - 1, by omega⟩
  rw [arrayLoop]
  match h with
  | .last hv hclose =>
    have := hv.lt
    rw [Spells.read hv (by omega) (by omega)]
    dsimp only
    rw [head?_cursor hne, nextToken_cursor hne, if_neg (by simp [hclose]), if_pos (by rw [hclose])]
    rfl
  | .more hv hcomma hitems =>
    have := hv.lt
    have := hitems.lt
    rw [Spells.read hv (by omega) (by omega)]
    dsimp only
    rw [head?_cursor hne, nextToken_cursor hne, if_pos (by rw [hcomma])]
    exact SpellsItems.read hitems hj (by omega)

theorem Json.SpellsMembers.read {i j : Nat} {members : List (Str × Json)}
    (h : SpellsMembers (tokenAt tokens) i j members) (hj : j ≤ tokens.length) {n : Nat}
    {map : List (Str × GluaStorageValue)} (hn : 2 * (j - i) ≤ n) : objectLoop F n map (cursor tokens i) =
      some (.table .unknownTable (storeMembers F map members), cursor tokens j) := by
  have hlt := h.lt
  have hne : tokens ≠ [] := List.length_pos_iff.1 (by omega)
  obtain ⟨n, rfl⟩ : ∃ m, n = m + 1 := ⟨n - 1, by omega⟩
  rw [objectLoop_cursor hne]
  match h with
  | .last hkey hcolon hv hclose =>
    have := hv.lt
    rw [if_neg (not_not.2 hkey), if_neg (not_not.2 hcolon), Spells.read hv (by omega) (by omega)]
    dsimp only
    rw [head?_cursor hne, nextToken_cursor hne, if_neg (by simp [hclose]), if_pos (by rw [hclose])]
    rfl
  | .more hkey hcolon hv hcomma hmembers =>
    have := hv.lt
    have := hmembers.lt
    rw [if_neg (not_not.2 hkey), if_neg (not_not.2 hcolon), Spells.read hv (by omega) (by omega)]
    dsimp only
    rw [head?_cursor hne, nextToken_cursor hne, if_pos (by rw [hcomma])]
    exact SpellsMembers.read hmembers hj (by omega)

end

/-! ## What is read the tokens spell -/

def ValueSpelled (F : NumberFormat) (tokens : List GluaParserToken) (n : Nat) : Prop :=
  ∀ {p w left}, tokensToLuaValue F n (cursor tokens p) = some (w, left) →
    ∃ q v, Spells (tokenAt tokens) p q v ∧ w = storage F v ∧ left = cursor tokens q

def ObjectSpelled (F : NumberFormat) (tokens : List GluaParserToken) (n : Nat) : Prop :=
  ∀ {map p w left}, objectLoop F n map (cursor tokens p) = some (w, left) →
    ∃ q members, SpellsMembers (tokenAt tokens) p q members ∧
      w = .table .unknownTable (storeMembers F map members) ∧ left = cursor tokens q

def ArraySpelled (F : NumberFormat) (tokens : List GluaParserToken) (n : Nat) : Prop :=
  ∀ {count map p w left}, arrayLoop F n count map (cursor tokens p) = some (w, left) →
    ∃ q items, SpellsItems (tokenAt tokens) p q items ∧
      w = .table .unknownArray (storeItems F count map items) ∧ left = cursor tokens q

section Spelled

variable (hne : tokens ≠ [])
include hne

theorem valueSpelled_succ (hint : ∀ p, (tokenAt tokens p).type = .ltkInt →
      isNumeral (tokenAt tokens p).token = true)
    (hobject : ObjectSpelled F tokens n) (harray : ArraySpelled F tokens n) :
    ValueSpelled F tokens (n + 1) := by
  intro p w left h
  rw [tokensToLuaValue_cursor hne] at h
  split_ifs at h with hscalar hbrace hclose hclose
  · rw [scalarValue_eq (hint p)] at h
    obtain ⟨w', hw', heq⟩ := Option.map_eq_some_iff.1 h
    obtain ⟨v, hv, rfl⟩ := Option.map_eq_some_iff.1 hw'
    obtain ⟨rfl, rfl⟩ := Prod.mk.inj heq
    exact ⟨p + 1, v, .token hv, rfl, rfl⟩
  · obtain ⟨rfl, rfl⟩ := Prod.mk.inj (Option.some.inj h)
    exact ⟨p + 2, _, .emptyObject hbrace hclose, rfl, rfl⟩
  · obtain ⟨q, members, hmembers, rfl, rfl⟩ := hobject h
    exact ⟨q, _, .object hbrace hmembers, rfl, rfl⟩
  · obtain ⟨rfl, rfl⟩ := Prod.mk.inj (Option.some.inj h)
    exact ⟨p + 2, _, .emptyArray (by tauto) hclose, rfl, rfl⟩
  · obtain ⟨q, items, hitems, rfl, rfl⟩ := harray h
    exact ⟨q, _, .array (by tauto) hitems, rfl, rfl⟩

theorem objectSpelled_succ (hvalue : ValueSpelled F tokens n) (hobject : ObjectSpelled F tokens n) :
    ObjectSpelled F tokens (n + 1) := by
  intro map p w left h
  rw [objectLoop_cursor hne] at h
  split_ifs at h with hkey hcolon
  have hkey := not_not.1 hkey
  have hcolon := not_not.1 hcolon
  cases hread : tokensToLuaValue F n (cursor tokens (p + 2)) with
  | none => simp [hread] at h
  | some r =>
    obtain ⟨w', left'⟩ := r
    obtain ⟨q, v, hv, rfl, rfl⟩ := hvalue hread
    rw [hread] at h
    dsimp only at h
    rw [head?_cursor hne, nextToken_cursor hne] at h
    split_ifs at h with hcomma hclose
    · obtain ⟨q', members, hmembers, rfl, rfl⟩ := hobject h
      exact ⟨q', _, .more hkey hcolon hv (Option.some.inj hcomma) hmembers, rfl, rfl⟩
    · obtain ⟨rfl, rfl⟩ := Prod.mk.inj (Option.some.inj h)
      exact ⟨q + 1, _, .last hkey hcolon hv (Option.some.inj hclose), rfl, rfl⟩

theorem arraySpelled_succ (hvalue : ValueSpelled F tokens n) (harray : ArraySpelled F tokens n) :
    ArraySpelled F tokens (n + 1) := by
  intro count map p w left h
  rw [arrayLoop] at h
  cases hread : tokensToLuaValue F n (cursor tokens p) with
  | none => simp [hread] at h
  | some r =>
    obtain ⟨w', left'⟩ := r
    obtain ⟨q, v, hv, rfl, rfl⟩ := hvalue hread
    rw [hread] at h
    dsimp only at h
    rw [head?_cursor hne, nextToken_cursor hne] at h
    split_ifs at h with hcomma hclose
    · obtain ⟨q', items, hitems, rfl, rfl⟩ := harray h
      exact ⟨q', _, .more hv (Option.some.inj hcomma) hitems, rfl, rfl⟩
    · obtain ⟨rfl, rfl⟩ := Prod.mk.inj (Option.some.inj h)
      exact ⟨q + 1, _, .last hv (Option.some.inj hclose), rfl, rfl⟩

theorem reading_spelled (hint : ∀ p, (tokenAt tokens p).type = .ltkInt →
      isNumeral (tokenAt tokens p).token = true) : ∀ n,
    ValueSpelled F tokens n ∧ ObjectSpelled F tokens n ∧ ArraySpelled F tokens n
  | 0 => by
    refine ⟨fun {p w left} h => ?_, fun {map p w left} h => ?_, fun {count map p w left} h => ?_⟩
    · rw [tokensToLuaValue] at h
      cases h
    · rw [objectLoop] at h
      cases h
    · rw [arrayLoop] at h
      cases h
  | n + 1 => by
    obtain ⟨hvalue, hobject, harray⟩ := reading_spelled hint n
    exact ⟨valueSpelled_succ hne hint hobject harray, objectSpelled_succ hne hvalue hobject,
      arraySpelled_succ hne hvalue harray⟩

end Spelled

/-! ## Whole lists of tokens -/

/-- The integer tokens are decimal numerals of 64 bits, and no string token has a null character. -/
structure PlainTokens (tokens : List GluaParserToken) : Prop where
  numerals : ∀ t ∈ tokens, t.type = .ltkInt → isNumeral t.token = true
  nullFree : ∀ t ∈ tokens, t.type = .ltkString → nullChar ∉ t.token

/-- A value that is spelled from the front, with the last token repeated, ends where the tokens do. -/
def EndsWhole (tokens : List GluaParserToken) : Prop :=
  ∀ q v, Spells (tokenAt tokens) 0 q v → q = tokens.length

theorem tokenAt_mem (hne : tokens ≠ []) (p : Nat) : tokenAt tokens p ∈ tokens := by
  obtain ⟨rest, hrest, -⟩ := cursor_cons hne p
  have hmem : tokenAt tokens p ∈ cursor tokens p := hrest ▸ List.mem_cons_self
  exact List.mem_of_mem_drop hmem

theorem ne_nil_of_spells {v : Json} (h : Spells (tokenAt tokens) 0 tokens.length v) : tokens ≠ [] :=
  List.length_pos_iff.1 h.lt

/-- A list of tokens that is a value as a whole is read as what it denotes. -/
theorem jsonToLua_of_spells (hnull : ∀ t ∈ tokens, t.type = .ltkString → nullChar ∉ t.token) {v : Json}
    (h : Spells (tokenAt tokens) 0 tokens.length v) : jsonToLua F tokens = some (denote F v) := by
  have hne := ne_nil_of_spells h
  have hread := h.read (F := F) le_rfl (n := 2 * tokens.length + 2) (by omega)
  rw [cursor_zero] at hread
  rw [jsonToLua, hread, Option.map_some, h.push fun p => hnull _ (tokenAt_mem hne p)]

/-- What is returned is what the tokens denote that it was read from. -/
theorem spells_of_jsonToLua (hplain : PlainTokens tokens) {x : LuaValue} (h : jsonToLua F tokens = some x) :
    ∃ q v, Spells (tokenAt tokens) 0 q v ∧ x = denote F v := by
  have hne : tokens ≠ [] := by
    rintro rfl
    cases h
  obtain ⟨⟨w, left⟩, hread, rfl⟩ := Option.map_eq_some_iff.1 h
  rw [← cursor_zero tokens] at hread
  obtain ⟨q, v, hv, rfl, -⟩ :=
    (reading_spelled hne (fun p => hplain.numerals _ (tokenAt_mem hne p)) _).1 hread
  exact ⟨q, v, hv, hv.push fun p => hplain.nullFree _ (tokenAt_mem hne p)⟩

/-- `json.loads` ends on all tokens. It returns what they denote if they are one value, and where a value
that they spell from the front ends with them, it returns nothing else. -/
theorem jsonToLua_whole (F : NumberFormat) (tokens : List GluaParserToken) :
    (∃ r, valueWithin F (2 * tokens.length + 2) tokens = some r ∧
        jsonToLua F tokens = r.map fun r => pushStorageValue r.1) ∧
      ((∀ t ∈ tokens, t.type = .ltkString → nullChar ∉ t.token) →
        ∀ v, Spells (tokenAt tokens) 0 tokens.length v → jsonToLua F tokens = some (denote F v)) ∧
      (PlainTokens tokens → EndsWhole tokens → ∀ x, jsonToLua F tokens = some x →
        ∃ v, Spells (tokenAt tokens) 0 tokens.length v ∧ x = denote F v) := by
  refine ⟨?_, fun hnull v hv => jsonToLua_of_spells hnull hv, fun hplain hends x h => ?_⟩
  · obtain ⟨r, hr⟩ := value_ends F tokens
    exact ⟨r, hr, by rw [jsonToLua, (tokensToLuaValue_eq F _).1 hr]⟩
  · obtain ⟨q, v, hv, rfl⟩ := spells_of_jsonToLua hplain h
    obtain rfl := hends q v hv
    exact ⟨v, hv, rfl⟩

/-! ### Short lists -/

def constantFormat : NumberFormat := ⟨fun _ => [], fun _ => 0⟩

def symbolToken (c : Char) : GluaParserToken := ⟨[c], [c], .char c, 1⟩

def oneToken : GluaParserToken := ⟨['1'], ['1'], .ltkInt, 1⟩

/-- `[1]` -/
def oneItem : List GluaParserToken := [symbolToken '[', oneToken, symbolToken ']']

theorem spells_one {q : Nat} {v : Json} (h : Spells (tokenAt oneItem) 1 q v) :
    q = 2 ∧ v = .integer 1 := by
  cases h with
  | token hv => exact ⟨rfl, (Option.some.inj hv).symm⟩
  | emptyArray hopen | array hopen | emptyObject hopen | object hopen => cases hopen

theorem oneItem_ends : EndsWhole oneItem := by
  intro q v h
  cases h with
  | token hv => cases hv
  | emptyArray _ hclose => cases hclose
  | emptyObject hopen | object hopen => cases hopen
  | array _ hitems =>
    cases hitems with
    | last hv =>
      obtain ⟨rfl, -⟩ := spells_one hv
      rfl
    | more hv hcomma =>
      obtain ⟨rfl, -⟩ := spells_one hv
      cases hcomma

theorem oneItem_whole :
    jsonToLua constantFormat oneItem = some (.table [(.integer 1, .integer 1)]) ∧
      ∃ v, Spells (tokenAt oneItem) 0 oneItem.length v ∧
        .table [(.integer 1, .integer 1)] = denote constantFormat v := by
  have hplain : PlainTokens oneItem := ⟨by decide, by decide⟩
  have hspells : Spells (tokenAt oneItem) 0 oneItem.length (.array [.integer 1]) :=
    .array rfl (.last (.token rfl) rfl)
  have hread := (jsonToLua_whole constantFormat oneItem).2.1 hplain.nullFree _ hspells
  exact ⟨hread, (jsonToLua_whole constantFormat oneItem).2.2 hplain oneItem_ends _ hread⟩

/-- Left open, an array is read with the bracket that closes its last item. -/
example : jsonToLua constantFormat (symbolToken '[' :: oneItem) =
    some (.table [(.integer 1, .table [(.integer 1, .integer 1)])]) := rfl

/-- `1.5` -/
def fraction : List GluaParserToken := [⟨['1', '.', '5'], ['1', '.', '5'], .ltkFlt, 1⟩]

/-- A number with a fraction is read, which is none of the other values. -/
theorem fraction_read : jsonToLua constantFormat fraction = some (.number 0) ∧
    ∀ q v, Spells (tokenAt fraction) 0 q v → v = .float ['1', '.', '5'] := by
  refine ⟨rfl, fun q v h => ?_⟩
  cases h with
  | token hv => exact (Option.some.inj hv).symm
  | emptyArray hopen | array hopen | emptyObject hopen | object hopen => cases hopen

end Achain.Glua
