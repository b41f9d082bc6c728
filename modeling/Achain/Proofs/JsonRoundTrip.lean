import Achain.Proofs.JsonTables
import Achain.Proofs.JsonText

/-!
# Reading a printed table

What `json.dumps` prints for a table, `json.loads` makes that table of again, if the printed text spells
every value of it: `printable` is when it does.
-/

namespace Achain.Glua

open GluaTokenParser

/-! ## Values -/

/-- The keys of a table are strings, or the numbers from 1 on. -/
def JsonKeys (entries : List (LuaKey × LuaValue)) : Prop :=
  (∀ e ∈ entries, ∃ s, e.1 = .string s) ∧ Ordered entries ∨
    entries.map Prod.fst = indexKeys entries.length

/-- A value is built from integers, booleans, strings and tables. -/
inductive IsJson : LuaValue → Prop
  | boolean (b : Bool) : IsJson (.boolean b)
  | integer (i : Int64) : IsJson (.integer i)
  | string (s : Str) : IsJson (.string s)
  | table (entries : List (LuaKey × LuaValue)) (hkeys : JsonKeys entries)
      (hvalues : ∀ e ∈ entries, IsJson e.2) : IsJson (.table entries)

def keyTexts (entries : List (LuaKey × LuaValue)) : List Str := entries.map fun e => e.1.text

/-- A value is printed in brackets. -/
def LuaValue.inBrackets : LuaValue → Bool
  | .table entries => isArrayFormat (keyTexts entries)
  | _ => false

/-! ## Lexemes -/

mutual

def lexemes : LuaValue → List Lexeme
  | .boolean b => [.word b]
  | .integer i => [.numeral i.toInt.toNat]
  | .string s => [.string s]
  | .table entries =>
    let isArray := isArrayFormat (keyTexts entries)
    .symbol (if isArray then '[' else '\x7b') ::
      ([.symbol ','].intercalate (itemLexemes isArray entries) ++
        [.symbol (if isArray then ']' else '\x7d')])
  | _ => []

def itemLexemes (isArray : Bool) : List (LuaKey × LuaValue) → List (List Lexeme)
  | [] => []
  | (key, v) :: entries =>
    ((if isArray then [] else [.string key.text, .symbol ':']) ++ lexemes v) :: itemLexemes isArray entries

end

/-- The text of a table spells its keys: none is left out, no other kind of key is read, and no two
brackets are printed side by side. -/
def plainTable (entries : List (LuaKey × LuaValue)) : Bool :=
  (entries.all fun e => match e.1 with
    | .integer _ => true
    | .string s => printableString s && s != packageKey) &&
  ((entries.all fun e => e.1 matches .integer _) || !isArrayFormat (keyTexts entries)) &&
  !(isArrayFormat (keyTexts entries) && entries.head?.any fun e => e.2.inBrackets)

mutual

/-- A value at some depth is printed as a text that spells it. -/
def printableValue (depth : Nat) : LuaValue → Bool
  | .boolean _ => depth ≤ luaMapTraverserMaxDepth
  | .integer i => depth ≤ luaMapTraverserMaxDepth && 0 ≤ i.toInt
  | .string s => depth ≤ luaMapTraverserMaxDepth && printableString s
  | .table entries =>
    depth ≤ luaMapTraverserMaxDepth && plainTable entries && printableValues (depth + 2) entries
  | _ => false

def printableValues (depth : Nat) : List (LuaKey × LuaValue) → Bool
  | [] => true
  | (_, v) :: entries => printableValue depth v && printableValues depth entries

end

/-- A table is printed as a text that spells it, of as many tokens as are read. -/
def printable (entries : List (LuaKey × LuaValue)) : Bool :=
  plainTable entries && printableValues 1 entries &&
    (lexemes (.table entries)).length ≤ maxTokenParserCyclesCount

variable (F : NumberFormat)

theorem toStorageEntries_eq (depth : Nat) : ∀ entries : List (LuaKey × LuaValue),
    toStorageEntries depth entries = entries.map fun e => (e.1, toStorageValue depth e.2)
  | [] => rfl
  | e :: entries => by rw [toStorageEntries, toStorageEntries_eq depth entries, List.map_cons]

theorem jsonItems_eq (isArray : Bool) : ∀ map : List (Str × GluaStorageValue),
    jsonItems F isArray map =
      map.map fun e => (if isArray then [] else quoted e.1 ++ [':']) ++ jsonValue F e.2
  | [] => rfl
  | e :: map => by rw [jsonItems, jsonItems_eq isArray map, List.map_cons]

theorem itemLexemes_eq (isArray : Bool) : ∀ entries : List (LuaKey × LuaValue),
    itemLexemes isArray entries = entries.map fun e =>
      (if isArray then [] else [.string e.1.text, .symbol ':']) ++ lexemes e.2
  | [] => rfl
  | e :: entries => by rw [itemLexemes, itemLexemes_eq isArray entries, List.map_cons]

theorem printableValues_eq (depth : Nat) : ∀ entries : List (LuaKey × LuaValue),
    printableValues depth entries = entries.all fun e => printableValue depth e.2
  | [] => rfl
  | e :: entries => by rw [printableValues, printableValues_eq depth entries, List.all_cons]

theorem pushItems_nil : pushItems [] = [].map fun e : LuaKey × LuaValue => (e.1.text, e.2) := rfl

/-! ## Strings -/

theorem printableString_chars {s : Str} (h : printableString s = true) : ∀ c ∈ s, c ∉ unprintable := by
  have hs : (∀ c ∈ s, c ∉ unprintable) ∧ s.length + 2 < luaTokenMaxLength := by
    simpa [printableString] using h
  exact hs.1

theorem cString_printable {s : Str} (h : printableString s = true) : cString s = s := by
  refine List.takeWhile_eq_self_iff.2 fun c hc => bne_iff_ne.2 ?_
  rintro rfl
  exact printableString_chars h _ hc (by decide)

theorem replaceAll_of_not_mem {s : Str} {c : Char} (h : c ∉ s) (target : Str) : replaceAll s c target = s := by
  have hnone : s.findIdx (· == c) = s.length := List.findIdx_eq_length.2 fun d hd => by
    rw [beq_eq_false_iff_ne]
    rintro rfl
    exact h hd
  rw [replaceAll, replaceAllFrom]
  simp [hnone]

theorem quoted_printable {s : Str} (h : printableString s = true) : quoted s = (Lexeme.string s).text := by
  have hslash : '\\' ∉ s := fun hmem => printableString_chars h _ hmem (by decide)
  have hquote : '"' ∉ s := fun hmem => printableString_chars h _ hmem (by decide)
  rw [quoted, escapeString, replaceAll_of_not_mem hslash, replaceAll_of_not_mem hquote]
  rfl

/-! ## Tables -/

variable {entries : List (LuaKey × LuaValue)} {v : LuaValue}

/-- What is known of a table that is printed in brackets, and of one that is printed in braces. -/
theorem plainTable_keys (hkeys : JsonKeys entries) (hplain : plainTable entries = true)
    (hlength : entries.length < 2 ^ 31) :
    isArrayFormat (keyTexts entries) = true ∧ entries.map Prod.fst = indexKeys entries.length ∨
    isArrayFormat (keyTexts entries) = false ∧ Ordered entries ∧
      ∀ e ∈ entries, ∃ s, e.1 = .string s ∧ printableString s = true ∧ s ≠ packageKey := by
  rcases hkeys with ⟨hstrings, horder⟩ | hindexes
  · obtain _ | ⟨e, es⟩ := entries
    · exact .inl ⟨isArrayFormat_indexKeys (n := 0) (by decide), rfl⟩
    simp only [plainTable, Bool.and_eq_true] at hplain
    obtain ⟨⟨hall, hformat⟩, -⟩ := hplain
    refine .inr ⟨?_, horder, fun e he => ?_⟩
    · obtain ⟨s, hs⟩ := hstrings e (by simp)
      simpa [hs] using hformat
    · obtain ⟨s, hs⟩ := hstrings e he
      have hkey := List.all_eq_true.1 hall e he
      rw [hs] at hkey
      simp only [Bool.and_eq_true, bne_iff_ne] at hkey
      exact ⟨s, hs, hkey⟩
  · refine .inl ⟨?_, hindexes⟩
    have htexts : keyTexts entries = (indexKeys entries.length).map LuaKey.text := by
      rw [← hindexes, List.map_map]
      rfl
    rw [htexts]
    exact isArrayFormat_indexKeys hlength

theorem text_string {s : Str} (h : printableString s = true) : (LuaKey.string s).text = s :=
  cString_printable h

theorem ascending_strings (horder : Ordered entries)
    (hkeys : ∀ e ∈ entries, ∃ s, e.1 = .string s ∧ printableString s = true ∧ s ≠ packageKey) :
    Ascending (keyTexts entries) := by
  rw [Ascending, keyTexts, List.pairwise_map]
  refine horder.imp_of_mem fun ha hb h => ?_
  obtain ⟨hne, hless⟩ := h
  obtain ⟨s, hs, hprint, -⟩ := hkeys _ ha
  obtain ⟨t, ht, hprint', -⟩ := hkeys _ hb
  rw [hs, ht] at hne hless ⊢
  rw [text_string hprint, text_string hprint']
  have hnot : luaTableLess t s = false := by
    rw [← text_string hprint, ← text_string hprint']
    exact (Bool.or_eq_false_iff.1 hless).1
  exact luaTableLess_of_not (fun heq => hne (heq ▸ rfl)) hnot

/-- The entries of a table are those of its map. -/
theorem traverseTable_plain (hkeys : JsonKeys entries) (hplain : plainTable entries = true)
    (hlength : entries.length < 2 ^ 31) (f : LuaValue → GluaStorageValue) :
    traverseTable (entries.map fun e => (e.1, f e.2)) = entries.map fun e => (e.1.text, f e.2) := by
  rcases plainTable_keys hkeys hplain hlength with ⟨-, hindexes⟩ | ⟨-, horder, hstrings⟩
  · rw [traverseTable_indexes hlength (by rwa [List.map_map]), List.map_map]
    rfl
  · rw [traverseTable_strings, List.map_map]
    · rfl
    · intro item hitem
      obtain ⟨e, he, rfl⟩ := List.mem_map.1 hitem
      obtain ⟨s, hs, -⟩ := hstrings e he
      exact ⟨s, hs⟩
    · intro item hitem
      obtain ⟨e, he, rfl⟩ := List.mem_map.1 hitem
      obtain ⟨s, hs, hprint, hpackage⟩ := hstrings e he
      rwa [hs, text_string hprint]
    · rw [List.map_map]
      exact ascending_strings horder hstrings

/-! ## Writing -/

theorem flatMap_intercalate {α β : Type} (f : α → List β) (a : α) : ∀ items : List (List α),
    ([a].intercalate items).flatMap f = (f a).intercalate (items.map (·.flatMap f))
  | [] => rfl
  | [item] => by simp
  | item :: next :: items => by
    rw [List.intercalate_cons_cons, List.flatMap_append, List.flatMap_append,
      flatMap_intercalate f a (next :: items)]
    simp [List.intercalate_cons_cons]

theorem intercalate_head {α : Type} (a : α) (item : List α) (items : List (List α)) :
    ∃ rest, [a].intercalate (item :: items) = item ++ rest := by
  cases items with
  | nil => exact ⟨[], by simp⟩
  | cons next items => exact ⟨_, by rw [List.intercalate_cons_cons, List.append_assoc]⟩

theorem length_le_intercalate {α : Type} (a : α) : ∀ items : List (List α),
    items.length ≤ ([a].intercalate items).length + 1 ∧
      ∀ item ∈ items, item.length ≤ ([a].intercalate items).length
  | [] => by simp
  | [item] => by simp
  | item :: next :: items => by
    obtain ⟨hlength, hitems⟩ := length_le_intercalate a (next :: items)
    rw [List.intercalate_cons_cons]
    simp only [List.length_append, List.length_cons, List.length_nil] at hlength ⊢
    refine ⟨by omega, fun other hother => ?_⟩
    rcases List.mem_cons.1 hother with rfl | hother
    · omega
    · have hle := hitems other hother
      omega

theorem length_lexemes_table (entries : List (LuaKey × LuaValue)) :
    entries.length < (lexemes (.table entries)).length ∧
      ∀ e ∈ entries, (lexemes e.2).length < (lexemes (.table entries)).length := by
  have hlengths := length_le_intercalate (.symbol ',')
    (itemLexemes (isArrayFormat (keyTexts entries)) entries)
  rw [lexemes]
  simp only [List.length_cons, List.length_append, List.length_nil]
  refine ⟨?_, fun e he => ?_⟩
  · have hlength := hlengths.1
    rw [itemLexemes_eq, List.length_map] at hlength
    rw [itemLexemes_eq]
    omega
  · have hitem := hlengths.2 ((if isArrayFormat (keyTexts entries) then []
      else [.string e.1.text, .symbol ':']) ++ lexemes e.2)
        (by rw [itemLexemes_eq]; exact List.mem_map_of_mem he)
    rw [List.length_append] at hitem
    omega

/-- A table is printed as its lexemes if its values are. -/
theorem table_text {depth : Nat} (hkeys : JsonKeys entries) (hplain : plainTable entries = true)
    (hlength : entries.length < 2 ^ 31)
    (hvalues : ∀ e ∈ entries, jsonValue F (toStorageValue depth e.2) = (lexemes e.2).flatMap Lexeme.text) :
    luatablemapToJsonStream F (traverseTable (toStorageEntries depth entries)) =
      (lexemes (.table entries)).flatMap Lexeme.text := by
  rw [toStorageEntries_eq, traverseTable_plain hkeys hplain hlength (toStorageValue depth)]
  have hformat : ((entries.map fun e => (e.1.text, toStorageValue depth e.2)).map Prod.fst) =
      keyTexts entries := by
    rw [List.map_map]
    rfl
  have hitems : jsonItems F (isArrayFormat (keyTexts entries))
      (entries.map fun e => (e.1.text, toStorageValue depth e.2)) =
        (itemLexemes (isArrayFormat (keyTexts entries)) entries).map (·.flatMap Lexeme.text) := by
    rw [jsonItems_eq, itemLexemes_eq, List.map_map, List.map_map]
    refine List.map_congr_left fun e he => ?_
    simp only [Function.comp_apply, hvalues e he, List.flatMap_append]
    rcases plainTable_keys hkeys hplain hlength with ⟨harray, -⟩ | ⟨hrecord, -, hstrings⟩
    · simp [harray]
    · obtain ⟨s, hs, hprint, -⟩ := hstrings e he
      rw [hrecord, hs, text_string hprint, quoted_printable hprint]
      rfl
  rw [luatablemapToJsonStream, hformat, hitems, lexemes, List.flatMap_cons, List.flatMap_append,
    flatMap_intercalate, bracketed]
  cases isArrayFormat (keyTexts entries) <;> simp [Lexeme.text]

/-- A value is printed as its lexemes. -/
theorem value_text (hv : IsJson v) : ∀ {depth : Nat}, printableValue depth v = true →
    (lexemes v).length < 2 ^ 31 →
      jsonValue F (toStorageValue depth v) = (lexemes v).flatMap Lexeme.text := by
  induction hv with
  | boolean b =>
    intro depth hprint _
    have hdepth : ¬luaMapTraverserMaxDepth < depth := by simpa [printableValue] using hprint
    rw [toStorageValue, if_neg hdepth]
    cases b <;> rfl
  | integer i =>
    intro depth hprint _
    simp only [printableValue, Bool.and_eq_true, decide_eq_true_eq] at hprint
    rw [toStorageValue, if_neg (by omega), jsonValue, decimal, if_neg (by omega)]
    simp only [lexemes, List.flatMap_cons, List.flatMap_nil, List.append_nil, Lexeme.text]
    congr 1
    omega
  | string s =>
    intro depth hprint _
    simp only [printableValue, Bool.and_eq_true, decide_eq_true_eq] at hprint
    rw [toStorageValue, if_neg (by omega), jsonValue, cString_printable hprint.2,
      cString_printable hprint.2, quoted_printable hprint.2]
    simp [lexemes]
  | table entries hkeys hvalues ih =>
    intro depth hprint hlength
    simp only [printableValue, printableValues_eq, Bool.and_eq_true, decide_eq_true_eq,
      List.all_eq_true] at hprint
    obtain ⟨⟨hdepth, hplain⟩, hitems⟩ := hprint
    obtain ⟨hentries, hshorter⟩ := length_lexemes_table entries
    have hlen : luaLen (entries.map Prod.fst) < 2 ^ 31 := by
      refine lt_of_le_of_lt ?_ (hentries.trans hlength)
      refine (List.takeWhile_prefix _).length_le.trans ?_
      simp
    rw [toStorageValue]
    simp only [Bool.or_eq_true, decide_eq_true_eq]
    rw [if_neg (by omega), jsonValue]
    exact table_text F hkeys hplain (hentries.trans hlength) fun e he =>
      ih e he (hitems e he) ((hshorter e he).trans hlength)

/-! ## The tokens of a printed table -/

/-- The characters that can be printed right after a value. -/
def closers : List Char := [',', ']', '\x7d', eofTokenChar]

theorem lexed_cons {l : Lexeme} {ls : List Lexeme} (hl : l.wellFormed = true)
    (hstops : l.stops (firstChar (ls.flatMap Lexeme.text)) = true) (hls : Lexed ls) : Lexed (l :: ls) :=
  ⟨hl, hstops, hls⟩

/-- The first character of a value makes no longer token of a colon, nor of a bracket unless it is one. -/
theorem firstChar_value {depth : Nat} (hprint : printableValue depth v = true) (ls : List Lexeme) :
    let c := firstChar ((lexemes v ++ ls).flatMap Lexeme.text)
    c ≠ ':' ∧ c ≠ '=' ∧ (v.inBrackets = false → c ≠ '[') := by
  cases v with
  | boolean b => cases b <;> simp [lexemes, Lexeme.text]
  | integer i =>
    obtain ⟨c, ds, hds⟩ := List.exists_cons_of_length_pos
      (Nat.length_toDigits_pos (b := 10) (n := i.toInt.toNat))
    have hc := Decimals.toDigits_digits i.toInt.toNat c (by rw [hds]; simp)
    have hne : c ≠ ':' ∧ c ≠ '=' ∧ c ≠ '[' := by
      refine ⟨?_, ?_, ?_⟩ <;> rintro rfl <;> exact absurd hc.2 (by decide)
    have hfirst : (lexemes (.integer i) ++ ls).flatMap Lexeme.text = c :: (ds ++ ls.flatMap Lexeme.text) := by
      rw [lexemes, List.singleton_append, List.flatMap_cons, Lexeme.text, hds, List.cons_append]
    rw [hfirst]
    exact ⟨hne.1, hne.2.1, fun _ => hne.2.2⟩
  | string s => simp [lexemes, Lexeme.text]
  | table entries =>
    rw [lexemes, LuaValue.inBrackets]
    cases isArrayFormat (keyTexts entries) <;> simp [Lexeme.text]
  | _ => simp [printableValue] at hprint

/-- Items are spelled one after the other if each is. -/
theorem lexed_items (item : LuaKey × LuaValue → List Lexeme) {ls : List Lexeme} (hls : Lexed ls)
    (hclose : firstChar (ls.flatMap Lexeme.text) ∈ closers) : ∀ (entries : List (LuaKey × LuaValue)),
      (∀ e ∈ entries, ∀ {ls : List Lexeme}, Lexed ls → firstChar (ls.flatMap Lexeme.text) ∈ closers →
        Lexed (item e ++ ls)) → Lexed ([.symbol ','].intercalate (entries.map item) ++ ls)
  | [], _ => by simpa using hls
  | [e], h => by simpa using h e (by simp) hls hclose
  | e :: next :: entries, h => by
    have hrest := lexed_items item hls hclose (next :: entries) fun e he => h e (by simp [he])
    rw [List.map_cons, List.map_cons, List.intercalate_cons_cons, List.append_assoc, List.append_assoc]
    exact h e (by simp) (lexed_cons rfl rfl (by simpa using hrest)) (show ',' ∈ closers by decide)

theorem lexed_table {depth : Nat} {ls : List Lexeme} (hkeys : JsonKeys entries)
    (hplain : plainTable entries = true) (hlength : entries.length < 2 ^ 31)
    (hprint : ∀ e ∈ entries, printableValue depth e.2 = true)
    (hvalues : ∀ e ∈ entries, ∀ {ls : List Lexeme}, Lexed ls →
      firstChar (ls.flatMap Lexeme.text) ∈ closers → Lexed (lexemes e.2 ++ ls))
    (hls : Lexed ls) : Lexed (lexemes (.table entries) ++ ls) := by
  rw [lexemes, itemLexemes_eq, List.cons_append, List.append_assoc]
  rcases plainTable_keys hkeys hplain hlength with ⟨harray, -⟩ | ⟨hrecord, -, hstrings⟩
  · have hitems := lexed_items (fun e => lexemes e.2) (lexed_cons (l := .symbol ']') rfl rfl hls)
      (show ']' ∈ closers by decide) entries hvalues
    simp only [harray, if_true, List.nil_append]
    refine lexed_cons rfl ?_ hitems
    obtain _ | ⟨e, es⟩ := entries
    · rfl
    have hbrackets : e.2.inBrackets = false := by
      simp only [plainTable, harray, Bool.and_eq_true] at hplain
      simpa using hplain.2
    obtain ⟨rest, hrest⟩ := intercalate_head (.symbol ',') (lexemes e.2) (es.map fun e => lexemes e.2)
    obtain ⟨-, heq, hne⟩ := firstChar_value (hprint e (by simp)) (rest ++ ([.symbol ']'] ++ ls))
    rw [List.map_cons, hrest, List.append_assoc]
    simp only [Lexeme.stops, Bool.and_eq_true, bne_iff_ne]
    exact ⟨hne hbrackets, heq⟩
  · have hitems := lexed_items (fun e => [.string e.1.text, .symbol ':'] ++ lexemes e.2)
      (lexed_cons (l := .symbol '\x7d') rfl rfl hls) (show '\x7d' ∈ closers by decide) entries
      fun e he ls hls hclose => by
        obtain ⟨s, hs, hkey, -⟩ := hstrings e he
        obtain ⟨hcolon, -⟩ := firstChar_value (hprint e he) ls
        rw [hs, text_string hkey]
        exact lexed_cons hkey rfl (lexed_cons rfl (by simpa [Lexeme.stops] using hcolon)
          (hvalues e he hls hclose))
    simp only [hrecord]
    exact lexed_cons rfl rfl hitems

theorem lexed_value (hv : IsJson v) : ∀ {depth : Nat} {ls : List Lexeme},
    printableValue depth v = true → (lexemes v).length < 2 ^ 31 → Lexed ls →
      firstChar (ls.flatMap Lexeme.text) ∈ closers → Lexed (lexemes v ++ ls) := by
  induction hv with
  | boolean b =>
    intro depth ls _ _ hls hclose
    refine lexed_cons rfl ?_ hls
    have hstop : ∀ c ∈ closers, (Lexeme.word b).stops c = true := by
      cases b <;> exact forall_mem_of_all rfl
    exact hstop _ hclose
  | integer i =>
    intro depth ls hprint _ hls hclose
    have hsmall : i.toInt.toNat < 2 ^ 63 := by
      have hlt := i.toInt_lt
      omega
    have hstop : ∀ c ∈ closers, (Lexeme.numeral i.toInt.toNat).stops c = true := by
      simp only [Lexeme.stops]
      exact forall_mem_of_all rfl
    exact lexed_cons (decide_eq_true hsmall) (hstop _ hclose) hls
  | string s =>
    intro depth ls hprint _ hls hclose
    simp only [printableValue, Bool.and_eq_true] at hprint
    exact lexed_cons hprint.2 rfl hls
  | table entries hkeys hvalues ih =>
    intro depth ls hprint hlength hls hclose
    simp only [printableValue, printableValues_eq, Bool.and_eq_true, List.all_eq_true] at hprint
    obtain ⟨hentries, hshorter⟩ := length_lexemes_table entries
    exact lexed_table hkeys hprint.1.2 (hentries.trans hlength) hprint.2
      (fun e he ls hls hclose => ih e he (hprint.2 e he) ((hshorter e he).trans hlength) hls hclose) hls

/-! ## Reading -/

def tokensOf (ls : List Lexeme) : List GluaParserToken := ls.map (·.token 1)

theorem tokensOf_append (ls ls' : List Lexeme) : tokensOf (ls ++ ls') = tokensOf ls ++ tokensOf ls' :=
  List.map_append

theorem tokensOf_bracketed (l l' : Lexeme) (ls : List Lexeme) (rest : List GluaParserToken) :
    tokensOf (l :: (ls ++ [l'])) ++ rest = l.token 1 :: (tokensOf ls ++ l'.token 1 :: rest) := by
  simp [tokensOf]

theorem nextToken_cons (t : GluaParserToken) {rest : List GluaParserToken} (h : rest ≠ []) :
    nextToken (t :: rest) = rest := by
  cases rest with
  | nil => exact absurd rfl h
  | cons _ _ => rfl

/-- The tokens of a value are read as a value that is pushed as it. -/
def Reads (v : LuaValue) : Prop :=
  ∀ (n : Nat) (rest : List GluaParserToken), (lexemes v).length ≤ n → rest ≠ [] →
    ∃ w, tokensToLuaValue F n (tokensOf (lexemes v) ++ rest) = some (w, rest) ∧ pushStorageValue w = v

/-- A value of a single token. -/
theorem reads_scalar {l : Lexeme} {w : GluaStorageValue} (hl : lexemes v = [l])
    (hbrace : (l.token 1).type ≠ .char '\x7b') (hbracket : (l.token 1).type ≠ .char '[')
    (hscalar : scalarValue F (l.token 1) = some w) (hw : pushStorageValue w = v) : Reads F v := by
  intro n rest hn hrest
  obtain _ | n := n
  · simp [hl] at hn
  refine ⟨w, ?_, hw⟩
  rw [hl, tokensOf, List.map_singleton, List.singleton_append, tokensToLuaValue,
    if_pos (by simp [hbrace, hbracket]), hscalar, Option.map_some, nextToken_cons _ hrest]

theorem keys_of_pushItems {map : List (Str × GluaStorageValue)} {done : List (LuaKey × LuaValue)}
    (h : pushItems map = done.map fun e => (e.1.text, e.2)) : map.map Prod.fst = keyTexts done := by
  have hkeys := congrArg (List.map Prod.fst) h
  rw [pushItems_eq, List.map_map, List.map_map] at hkeys
  exact hkeys

/-- The next entry of a table goes to the end of the map. -/
theorem pushItems_set {map : List (Str × GluaStorageValue)} {done todo : List (LuaKey × LuaValue)}
    {e : LuaKey × LuaValue} {w : GluaStorageValue} (horder : Ascending (keyTexts (done ++ e :: todo)))
    (hmap : pushItems map = done.map fun e => (e.1.text, e.2)) (hw : pushStorageValue w = e.2) :
    pushItems (tableMapSet e.1.text w map) = (done ++ [e]).map fun e => (e.1.text, e.2) := by
  have hlast : ∀ m ∈ map, luaTableLess m.1 e.1.text = true := fun m hm => by
    have hmem : m.1 ∈ keyTexts done := keys_of_pushItems hmap ▸ List.mem_map_of_mem hm
    rw [keyTexts, List.map_append] at horder
    exact (List.pairwise_append.1 horder).2.2 m.1 hmem e.1.text (by simp)
  rw [tableMapSet_append hlast, pushItems_eq, List.map_append, ← pushItems_eq, hmap]
  simp [hw]

theorem ascending_indexes {k : Nat} (hkeys : entries.map Prod.fst = indexKeys k) :
    Ascending (keyTexts entries) := by
  have htexts : keyTexts entries = (indexKeys k).map LuaKey.text := by
    rw [← hkeys, List.map_map]
    rfl
  rw [htexts]
  exact ascending_indexKeys k

section loops

variable {n count : Nat} {map : List (Str × GluaStorageValue)} {tokens rest : List GluaParserToken}
  {w : GluaStorageValue}

theorem arrayLoop_next
    (h : tokensToLuaValue F n tokens = some (w, (Lexeme.symbol ',').token 1 :: rest)) (hrest : rest ≠ []) :
    arrayLoop F (n + 1) count map tokens =
      arrayLoop F n (count + 1) (tableMapSet (decimal (count + 1 : Nat)) w map) rest := by
  rw [arrayLoop, h]
  exact (if_pos rfl).trans (by rw [nextToken_cons _ hrest])

theorem arrayLoop_close
    (h : tokensToLuaValue F n tokens = some (w, (Lexeme.symbol ']').token 1 :: rest)) :
    arrayLoop F (n + 1) count map tokens =
      some (.table .unknownArray (tableMapSet (decimal (count + 1 : Nat)) w map),
        nextToken ((Lexeme.symbol ']').token 1 :: rest)) := by
  rw [arrayLoop, h]
  rfl

theorem read_bracket {t : GluaParserToken} (ht : t.type ≠ .char ']') :
    tokensToLuaValue F (n + 1) ((Lexeme.symbol '[').token 1 :: t :: tokens) =
      arrayLoop F n 0 [] (t :: tokens) := by
  rw [tokensToLuaValue, if_neg (by simp [Lexeme.token]), if_neg (by simp [Lexeme.token]),
    if_neg (by simp [ht])]

theorem read_brace {t : GluaParserToken} (ht : t.type ≠ .char '\x7d') :
    tokensToLuaValue F (n + 1) ((Lexeme.symbol '\x7b').token 1 :: t :: tokens) =
      objectLoop F n [] (t :: tokens) := by
  rw [tokensToLuaValue, if_neg (by simp [Lexeme.token]), if_pos (by simp [Lexeme.token]),
    if_neg (by simp [ht])]

theorem objectLoop_next {s : Str} (hs : tokens ≠ [])
    (h : tokensToLuaValue F n tokens = some (w, (Lexeme.symbol ',').token 1 :: rest)) (hrest : rest ≠ []) :
    objectLoop F (n + 1) map ((Lexeme.string s).token 1 :: (Lexeme.symbol ':').token 1 :: tokens) =
      objectLoop F n (tableMapSet s w map) rest := by
  have hnext := nextToken_cons ((Lexeme.symbol ':').token 1) hs
  rw [objectLoop, if_neg (by simp [Lexeme.token]), nextToken_cons _ (by simp)]
  dsimp only
  rw [hnext, h]
  exact ((if_neg (by simp [Lexeme.token])).trans (if_pos rfl)).trans (by rw [nextToken_cons _ hrest]; rfl)

theorem objectLoop_close {s : Str} (hs : tokens ≠ [])
    (h : tokensToLuaValue F n tokens = some (w, (Lexeme.symbol '\x7d').token 1 :: rest)) :
    objectLoop F (n + 1) map ((Lexeme.string s).token 1 :: (Lexeme.symbol ':').token 1 :: tokens) =
      some (.table .unknownTable (tableMapSet s w map), nextToken ((Lexeme.symbol '\x7d').token 1 :: rest)) := by
  have hnext := nextToken_cons ((Lexeme.symbol ':').token 1) hs
  rw [objectLoop, if_neg (by simp [Lexeme.token]), nextToken_cons _ (by simp)]
  dsimp only
  rw [hnext, h]
  rfl

end loops

/-- The items of an array are read one after the other. -/
theorem arrayLoop_items (rest : List GluaParserToken) : ∀ (todo done : List (LuaKey × LuaValue))
    {map : List (Str × GluaStorageValue)} {n k : Nat}, todo ≠ [] → (∀ e ∈ todo, Reads F e.2) →
      (done ++ todo).map Prod.fst = indexKeys k →
        pushItems map = done.map (fun e => (e.1.text, e.2)) →
          ([Lexeme.symbol ','].intercalate (todo.map fun e => lexemes e.2)).length < n →
            ∃ map', arrayLoop F n done.length map
              (tokensOf ([.symbol ','].intercalate (todo.map fun e => lexemes e.2)) ++
                (Lexeme.symbol ']').token 1 :: rest) =
              some (.table .unknownArray map', nextToken ((Lexeme.symbol ']').token 1 :: rest)) ∧
            pushItems map' = (done ++ todo).map fun e => (e.1.text, e.2)
  | [], _, _, _, _, hne, _, _, _, _ => absurd rfl hne
  | [e], done, map, n + 1, k, _, hreads, hkeys, hmap, hn => by
    rw [List.map_singleton, List.intercalate_singleton] at hn ⊢
    obtain ⟨w, hread, hw⟩ := hreads e (by simp) n ((Lexeme.symbol ']').token 1 :: rest) (by omega) (by simp)
    refine ⟨_, ?_, pushItems_set (ascending_indexes hkeys) hmap hw⟩
    rw [arrayLoop_close F hread, (index_of_split hkeys).1, ← decimal_index]
  | e :: next :: todo, done, map, n + 1, k, _, hreads, hkeys, hmap, hn => by
    rw [List.map_cons, List.map_cons, List.intercalate_cons_cons] at hn ⊢
    simp only [List.length_append, List.length_singleton] at hn
    rw [tokensOf_append, tokensOf_append, List.append_assoc, List.append_assoc]
    obtain ⟨w, hread, hw⟩ := hreads e (by simp) n
      (tokensOf [.symbol ','] ++ (tokensOf ([.symbol ','].intercalate
        (lexemes next.2 :: todo.map fun e => lexemes e.2)) ++ (Lexeme.symbol ']').token 1 :: rest))
      (by omega) (by simp [tokensOf])
    have hmap' := pushItems_set (ascending_indexes hkeys) hmap hw
    obtain ⟨map', hloop, hmap''⟩ := arrayLoop_items rest (next :: todo) (done ++ [e])
      (n := n) (by simp) (fun e he => hreads e (by simp [he])) (by simpa using hkeys) hmap'
      (by rw [List.map_cons]; omega)
    refine ⟨map', ?_, by simpa using hmap''⟩
    rw [arrayLoop_next F hread (by simp), decimal_index, ← (index_of_split hkeys).1]
    rwa [List.length_append, List.length_singleton, List.map_cons] at hloop

/-- The items of an object are read one after the other. -/
theorem objectLoop_items (rest : List GluaParserToken) : ∀ (todo done : List (LuaKey × LuaValue))
    {map : List (Str × GluaStorageValue)} {n : Nat}, todo ≠ [] → (∀ e ∈ todo, Reads F e.2) →
      Ascending (keyTexts (done ++ todo)) → pushItems map = done.map (fun e => (e.1.text, e.2)) →
        ([Lexeme.symbol ','].intercalate
          (todo.map fun e => [.string e.1.text, .symbol ':'] ++ lexemes e.2)).length < n →
            ∃ map', objectLoop F n map
              (tokensOf ([.symbol ','].intercalate
                (todo.map fun e => [.string e.1.text, .symbol ':'] ++ lexemes e.2)) ++
                  (Lexeme.symbol '\x7d').token 1 :: rest) =
              some (.table .unknownTable map', nextToken ((Lexeme.symbol '\x7d').token 1 :: rest)) ∧
            pushItems map' = (done ++ todo).map fun e => (e.1.text, e.2)
  | [], _, _, _, hne, _, _, _, _ => absurd rfl hne
  | [e], done, map, n + 1, _, hreads, horder, hmap, hn => by
    rw [List.map_singleton, List.intercalate_singleton] at hn ⊢
    simp only [List.length_append, List.length_cons, List.length_nil] at hn
    obtain ⟨w, hread, hw⟩ := hreads e (by simp) n ((Lexeme.symbol '\x7d').token 1 :: rest) (by omega)
      (by simp)
    exact ⟨_, objectLoop_close F (by simp) hread, pushItems_set horder hmap hw⟩
  | e :: next :: todo, done, map, n + 1, _, hreads, horder, hmap, hn => by
    rw [List.map_cons, List.map_cons, List.intercalate_cons_cons] at hn ⊢
    simp only [List.length_append, List.length_cons, List.length_nil] at hn
    rw [tokensOf_append, tokensOf_append, tokensOf_append, List.append_assoc, List.append_assoc,
      List.append_assoc]
    obtain ⟨w, hread, hw⟩ := hreads e (by simp) n
      (tokensOf [.symbol ','] ++ (tokensOf ([.symbol ','].intercalate
        (([.string next.1.text, .symbol ':'] ++ lexemes next.2) ::
          todo.map fun e => [.string e.1.text, .symbol ':'] ++ lexemes e.2)) ++
            (Lexeme.symbol '\x7d').token 1 :: rest))
      (by omega) (by simp [tokensOf])
    have hmap' := pushItems_set horder hmap hw
    obtain ⟨map', hloop, hmap''⟩ := objectLoop_items rest (next :: todo)
      (done ++ [e]) (n := n) (by simp) (fun e he => hreads e (by simp [he])) (by simpa using horder)
      hmap' (by rw [List.map_cons]; omega)
    refine ⟨map', ?_, by simpa using hmap''⟩
    exact (objectLoop_next F (by simp) hread (by simp)).trans hloop

theorem push_array {type : StorageValueTypes} {map : List (Str × GluaStorageValue)}
    (htype : type.isAnyArray = true) (hkeys : entries.map Prod.fst = indexKeys entries.length)
    (hlength : entries.length ≤ maxSupportArraySize) (hnil : ∀ e ∈ entries, e.2 ≠ .nil)
    (hmap : pushItems map = entries.map fun e => (e.1.text, e.2)) :
    pushStorageValue (.table type map) = .table entries := by
  have hpush := pushArray_indexes entries [] hnil hkeys hlength
  rw [pushStorageValue, hmap, if_pos htype]
  exact congrArg _ hpush

theorem push_object {type : StorageValueTypes} {map : List (Str × GluaStorageValue)}
    (htype : type.isAnyArray = false) (horder : Ordered entries)
    (hkeys : ∀ e ∈ entries, ∃ s, e.1 = .string s ∧ printableString s = true ∧ s ≠ packageKey)
    (hnil : ∀ e ∈ entries, e.2 ≠ .nil)
    (hmap : pushItems map = entries.map fun e => (e.1.text, e.2)) :
    pushStorageValue (.table type map) = .table entries := by
  have hset : (entries.map fun e => (e.1.text, e.2)).foldl
      (fun entries e => setEntry (.string (cString e.1)) e.2 entries) [] =
        entries.foldl (fun entries e => setEntry e.1 e.2 entries) [] := by
    rw [List.foldl_map]
    refine List.foldl_ext _ _ _ fun done e he => ?_
    obtain ⟨s, hs, hprint, -⟩ := hkeys e he
    rw [hs, text_string hprint, cString_printable hprint]
  rw [pushStorageValue, hmap, if_neg (by simp [htype]), hset]
  exact congrArg _ (foldl_setEntry [] hnil horder)

theorem lexemes_head {depth : Nat} (hprint : printableValue depth v = true) :
    ∃ l ls, lexemes v = l :: ls ∧ (l.token 1).type ≠ .char ']' := by
  cases v with
  | boolean b => exact ⟨_, _, rfl, by cases b <;> simp [Lexeme.token]⟩
  | integer i => exact ⟨_, _, rfl, by simp [Lexeme.token]⟩
  | string s => exact ⟨_, _, rfl, by simp [Lexeme.token]⟩
  | table entries =>
    refine ⟨_, _, rfl, ?_⟩
    cases isArrayFormat (keyTexts entries) <;> simp [Lexeme.token]
  | _ => simp [printableValue] at hprint

theorem not_nil_of_printable {depth : Nat} (hprint : printableValue depth v = true) : v ≠ .nil := by
  rintro rfl
  simp [printableValue] at hprint

/-- The tokens of a table are read as a table that is pushed as it. -/
theorem read_table {depth : Nat} (hkeys : JsonKeys entries) (hplain : plainTable entries = true)
    (hlength : entries.length ≤ maxTokenParserCyclesCount)
    (hprint : ∀ e ∈ entries, printableValue depth e.2 = true) (hreads : ∀ e ∈ entries, Reads F e.2)
    {n : Nat} (hn : (lexemes (.table entries)).length ≤ n) (rest : List GluaParserToken) :
    ∃ w t, tokensToLuaValue F n (tokensOf (lexemes (.table entries)) ++ rest) =
      some (w, nextToken (t :: rest)) ∧ pushStorageValue w = .table entries := by
  have hnil : ∀ e ∈ entries, e.2 ≠ .nil := fun e he => not_nil_of_printable (hprint e he)
  rw [lexemes, itemLexemes_eq] at hn ⊢
  rcases plainTable_keys hkeys hplain (hlength.trans_lt (by decide)) with
    ⟨harray, hindexes⟩ | ⟨hrecord, horder, hstrings⟩
  · simp only [harray, if_true, List.nil_append, List.length_cons, List.length_append,
      List.length_nil] at hn ⊢
    obtain ⟨n, rfl⟩ : ∃ m, n = m + 1 := ⟨n - 1, by omega⟩
    have hbound : entries.length ≤ maxSupportArraySize := hlength.trans (by decide)
    obtain _ | ⟨e, es⟩ := entries
    · exact ⟨_, _, rfl, push_array rfl hindexes hbound hnil rfl⟩
    obtain ⟨map, hloop, hmap⟩ := arrayLoop_items F rest (e :: es) [] (n := n)
      (by simp) hreads hindexes pushItems_nil (by omega)
    refine ⟨.table .unknownArray map, (Lexeme.symbol ']').token 1, ?_,
      push_array rfl hindexes hbound hnil hmap⟩
    obtain ⟨l, ls, hl, hhead⟩ := lexemes_head (hprint e (by simp))
    obtain ⟨items, hitems⟩ := intercalate_head (.symbol ',') (lexemes e.2) (es.map fun e => lexemes e.2)
    rw [List.map_cons, hitems, hl] at hloop ⊢
    rw [tokensOf_bracketed, ← hloop]
    exact read_bracket F hhead
  · have hempty : entries ≠ [] := by
      rintro rfl
      rw [show isArrayFormat (keyTexts []) = true from isArrayFormat_indexKeys (n := 0) (by decide)] at hrecord
      cases hrecord
    simp only [hrecord, Bool.false_eq_true, if_false, List.length_cons, List.length_append,
      List.length_nil] at hn ⊢
    obtain ⟨n, rfl⟩ : ∃ m, n = m + 1 := ⟨n - 1, by omega⟩
    obtain ⟨map, hloop, hmap⟩ := objectLoop_items F rest entries [] (n := n) hempty
      hreads (ascending_strings horder hstrings) pushItems_nil (by omega)
    refine ⟨.table .unknownTable map, (Lexeme.symbol '\x7d').token 1, ?_,
      push_object rfl horder hstrings hnil hmap⟩
    obtain ⟨e, es, rfl⟩ := List.exists_cons_of_ne_nil hempty
    obtain ⟨items, hitems⟩ := intercalate_head (.symbol ',') ([.string e.1.text, .symbol ':'] ++ lexemes e.2)
      (es.map fun e => [.string e.1.text, .symbol ':'] ++ lexemes e.2)
    rw [List.map_cons, hitems] at hloop ⊢
    rw [tokensOf_bracketed, ← hloop]
    exact read_brace F (t := (Lexeme.string e.1.text).token 1) (by simp [Lexeme.token])

/-- The tokens of a value are read as a value that is pushed as it. -/
theorem reads_value (hv : IsJson v) : ∀ {depth : Nat}, printableValue depth v = true →
    (lexemes v).length ≤ maxTokenParserCyclesCount → Reads F v := by
  induction hv with
  | boolean b =>
    intro depth _ _
    cases b <;> exact reads_scalar F rfl (by simp [Lexeme.token]) (by simp [Lexeme.token]) rfl rfl
  | integer i =>
    intro depth hprint _
    have hdigits : (Nat.toDigits 10 i.toInt.toNat).takeWhile isDigit = Nat.toDigits 10 i.toInt.toNat :=
      List.takeWhile_eq_self_iff.2 fun c hc => by
        simpa [isDigit] using Decimals.toDigits_digits i.toInt.toNat c hc
    have hread : streamInt (Nat.toDigits 10 i.toInt.toNat) = i := by
      simp only [printableValue, Bool.and_eq_true, decide_eq_true_eq] at hprint
      have hlt := i.toInt_lt
      rw [streamInt, hdigits, Nat.ofDigitChars_ten_toDigits, Int.toNat_of_nonneg hprint.2,
        min_eq_right (by omega), Int64.ofInt_toInt]
    refine reads_scalar F rfl (by simp [Lexeme.token]) (by simp [Lexeme.token]) rfl ?_
    rw [pushStorageValue, Lexeme.token, hread]
  | string s =>
    intro depth hprint _
    simp only [printableValue, Bool.and_eq_true] at hprint
    refine reads_scalar F rfl (by simp [Lexeme.token]) (by simp [Lexeme.token]) rfl ?_
    rw [pushStorageValue, Lexeme.token, cString_printable hprint.2]
  | table entries hkeys hvalues ih =>
    intro depth hprint hlength n rest hn hrest
    simp only [printableValue, printableValues_eq, Bool.and_eq_true, List.all_eq_true] at hprint
    obtain ⟨hentries, hshorter⟩ := length_lexemes_table entries
    obtain ⟨w, t, hread, hw⟩ := read_table F hkeys hprint.1.2 (by omega) hprint.2
      (fun e he => ih e he (hprint.2 e he) ((hshorter e he).le.trans hlength)) hn rest
    exact ⟨w, by rw [hread, nextToken_cons _ hrest], hw⟩

/-! ## The round trip -/

theorem text_no_null : ∀ {ls : List Lexeme}, Lexed ls → ∀ c ∈ ls.flatMap Lexeme.text, c ≠ nullChar
  | l :: ls, ⟨hl, _, hls⟩, c, hc => by
    rw [List.flatMap_cons, List.mem_append] at hc
    rcases hc with hc | hc
    · rintro rfl
      cases l with
      | symbol d =>
        rw [Lexeme.text, List.mem_singleton] at hc
        rw [← hc] at hl
        exact absurd hl (by decide)
      | numeral n => exact absurd (Decimals.toDigits_digits n _ hc).1 (by decide)
      | word b =>
        revert hc
        cases b <;> decide
      | string s =>
        have hmem : nullChar ∈ s := by simpa [Lexeme.text, nullChar] using hc
        exact printableString_chars hl _ hmem (by decide)
    · exact text_no_null hls c hc

/-- A table that is printed as a text which spells it is read from that text. -/
theorem loads_dumps (htable : IsJson (.table entries)) (hprint : printable entries = true) :
    loads F (dumps F entries) = some (.table entries) := by
  obtain ⟨hkeys, hvalues⟩ : JsonKeys entries ∧ ∀ e ∈ entries, IsJson e.2 := by
    cases htable with
    | table _ hkeys hvalues => exact ⟨hkeys, hvalues⟩
  simp only [printable, printableValues_eq, Bool.and_eq_true, decide_eq_true_eq, List.all_eq_true] at hprint
  obtain ⟨⟨hplain, hprint⟩, hlength⟩ := hprint
  obtain ⟨hentries, hshorter⟩ := length_lexemes_table entries
  have hsmall : maxTokenParserCyclesCount < 2 ^ 31 := by decide
  have htext : luatablemapToJsonStream F (traverseTable (toStorageEntries 1 entries)) =
      (lexemes (.table entries)).flatMap Lexeme.text :=
    table_text F hkeys hplain (by omega) fun e he =>
      value_text F (hvalues e he) (hprint e he) (by have := hshorter e he; omega)
  have hlexed : Lexed (lexemes (.table entries)) := by
    have h := lexed_table hkeys hplain (by omega) hprint
      (fun e he ls hls hclose => lexed_value (hvalues e he) (hprint e he)
        (by have := hshorter e he; omega) hls hclose) (show Lexed [] from trivial)
    rwa [List.append_nil] at h
  have hstring : cString ((lexemes (.table entries)).flatMap Lexeme.text) =
      (lexemes (.table entries)).flatMap Lexeme.text :=
    List.takeWhile_eq_self_iff.2 fun c hc => bne_iff_ne.2 (text_no_null hlexed c hc)
  obtain ⟨q, hq, htokens⟩ := parse_lexemes hlexed hlength
  obtain ⟨w, t, hread, hw⟩ := read_table F hkeys hplain (by omega) hprint
    (fun e he => reads_value F (hvalues e he) (hprint e he) ((hshorter e he).le.trans hlength))
    (n := 2 * q.tokens.length + 2) (by rw [htokens, List.length_map]; omega) []
  rw [List.append_nil, tokensOf, ← htokens] at hread
  rw [loads, dumps, htext, hstring, hstring, hq]
  simp only [hread, Option.map_some, hw]

/-- A table of a number and a string. -/
def smallTable (i : Int64) : List (LuaKey × LuaValue) :=
  [(.string ['a'], .integer i), (.string ['b'], .string ['x', ' ', '1'])]

theorem smallTable_json (i : Int64) : IsJson (.table (smallTable i)) := by
  refine .table _ (.inl ⟨?_, ?_⟩) ?_
  · simp [smallTable]
  · rw [smallTable, Ordered, List.pairwise_pair]
    exact ⟨by simp, rfl⟩
  · simp [smallTable, IsJson.integer, IsJson.string]

theorem loads_dumps_smallTable :
    loads ⟨fun _ => [], fun _ => 0⟩ (dumps ⟨fun _ => [], fun _ => 0⟩ (smallTable 7)) = some (.table (smallTable 7)) :=
  loads_dumps ⟨fun _ => [], fun _ => 0⟩ (smallTable_json 7) (by decide)

/-- The tokens of a table of a negative number: its sign is one of them. -/
def negativeTokens : List GluaParserToken :=
  [⟨['\x7b'], [], .char '\x7b', 1⟩, ⟨['a'], ['"', 'a', '"'], .ltkString, 1⟩, ⟨[':'], [], .char ':', 1⟩,
    ⟨['-'], [], .char '-', 1⟩, ⟨['5'], [], .ltkInt, 1⟩, ⟨[','], [], .char ',', 1⟩,
    ⟨['b'], ['"', 'b', '"'], .ltkString, 1⟩, ⟨[':'], [], .char ':', 1⟩,
    ⟨['x', ' ', '1'], ['"', 'x', ' ', '1', '"'], .ltkString, 1⟩, ⟨['\x7d'], [], .char '\x7d', 1⟩]

/-- The sign of a number is read as a token of its own, which no value begins with. -/
theorem loads_dumps_negative : ¬∀ (F : NumberFormat) (entries : List (LuaKey × LuaValue)),
    IsJson (.table entries) → loads F (dumps F entries) = some (.table entries) := by
  intro h
  have hread := h ⟨fun _ => [], fun _ => 0⟩ (smallTable (-5)) (smallTable_json (-5))
  have htext : dumps ⟨fun _ => [], fun _ => 0⟩ (smallTable (-5)) = "\x7b\"a\":-5,\"b\":\"x 1\"\x7d".toList := rfl
  have hparse : parse (cString "\x7b\"a\":-5,\"b\":\"x 1\"\x7d".toList) = .ok
    { rest := []
      parsingLinenumber := 1
      parsingBuff := []
      cycleCount := 10
      tokens := negativeTokens } := rfl
  have hnone : tokensToLuaValue ⟨fun _ => [], fun _ => 0⟩ (2 * negativeTokens.length + 2) negativeTokens = none := rfl
  rw [htext, loads, hparse] at hread
  simp only [hnone] at hread
  cases hread

end Achain.Glua
