import Achain.Glua.Json
import Achain.Lib.Decimals
import Mathlib.Data.List.Lex
import Mathlib.Data.List.TakeWhile

/-!
# The maps of tables

A table whose keys are strings, or the numbers from 1 on, has its entries in the map that it is copied to,
and is made again from that map.
-/

namespace Achain.Glua

open Decimals

/-! ## The order of texts -/

theorem luaTableLess_iff {a b : Str} : luaTableLess a b = true ↔ List.Shortlex (· < ·) a b := by
  rw [List.shortlex_def, luaTableLess, ← List.lt_iff_lex_lt]
  split_ifs with hlength
  · have hne : a.length ≠ b.length := by simpa using hlength
    simp [hne]
  · have heq : a.length = b.length := by simpa using hlength
    simp only [heq, decide_eq_true_eq, lt_self_iff_false, true_and, false_or]
    rfl

theorem luaTableLess_asymm {a b : Str} (h : luaTableLess a b = true) : luaTableLess b a = false := by
  rw [Bool.eq_false_iff, ne_eq, luaTableLess_iff]
  exact asymm (luaTableLess_iff.1 h)

theorem luaTableLess_of_not {a b : Str} (hne : a ≠ b) (h : luaTableLess b a = false) :
    luaTableLess a b = true := by
  rw [Bool.eq_false_iff, ne_eq, luaTableLess_iff] at h
  rw [luaTableLess_iff]
  by_contra hless
  exact hne (Std.Trichotomous.trichotomous a b hless h)

/-- Texts in the order of a map. -/
def Ascending (keys : List Str) : Prop := keys.Pairwise fun a b => luaTableLess a b = true

/-- What comes after all keys of a map goes to its end. -/
theorem tableMapSet_append {key : Str} {v : GluaStorageValue} :
    ∀ {map : List (Str × GluaStorageValue)}, (∀ e ∈ map, luaTableLess e.1 key = true) →
      tableMapSet key v map = map ++ [(key, v)]
  | [], _ => rfl
  | e :: map, h => by
    have hless := h e (by simp)
    rw [tableMapSet, luaTableLess_asymm hless, if_neg (by simp), if_pos hless,
      tableMapSet_append fun e he => h e (by simp [he]), List.cons_append]

/-- Entries in order are added one after the other. -/
theorem foldl_addToMap : ∀ {entries : List (LuaKey × GluaStorageValue)} (map : List (Str × GluaStorageValue)),
    (∀ e ∈ entries, e.1.text ≠ packageKey) →
      Ascending (map.map Prod.fst ++ entries.map fun e => e.1.text) →
        entries.foldl addToMap map = map ++ entries.map fun e => (e.1.text, e.2)
  | [], map, _, _ => by simp
  | e :: entries, map, hpackage, horder => by
    have hlast : ∀ m ∈ map, luaTableLess m.1 e.1.text = true := fun m hm =>
      (List.pairwise_append.1 horder).2.2 m.1 (List.mem_map_of_mem hm) e.1.text (by simp)
    rw [List.foldl_cons, addToMap, if_neg (hpackage e (by simp)), tableMapSet_append hlast,
      foldl_addToMap _ (fun e he => hpackage e (by simp [he])) (by simpa using horder)]
    simp

/-! ## Keys -/

/-- The keys from 1 on. -/
def indexKeys (n : Nat) : List LuaKey := (List.range n).map fun i : Nat => .integer (i + 1)

theorem indexKeys_succ (n : Nat) : indexKeys (n + 1) = indexKeys n ++ [.integer (n + 1)] := by
  simp [indexKeys, List.range_succ]

theorem mem_indexKeys {n : Nat} {key : LuaKey} :
    key ∈ indexKeys n ↔ ∃ i < n, key = .integer (i + 1) := by
  simp [indexKeys, eq_comm]

theorem text_index (i : Nat) : (LuaKey.integer (i + 1)).text = Nat.toDigits 10 (i + 1) := by
  have hpos : ¬((i : Int) + 1 < 0) := by omega
  rw [LuaKey.text, decimal, if_neg hpos]
  rfl

theorem decimal_index (i : Nat) : decimal (i + 1 : Nat) = (LuaKey.integer (i + 1)).text := by
  rw [LuaKey.text]
  rfl

theorem less_index {i j : Nat} (h : i < j) :
    luaTableLess (LuaKey.integer (i + 1)).text (LuaKey.integer (j + 1)).text = true := by
  rw [luaTableLess_iff, text_index, text_index]
  exact shortlex_toDigits (by omega)

theorem ascending_indexKeys (n : Nat) : Ascending ((indexKeys n).map LuaKey.text) := by
  rw [Ascending, indexKeys, List.map_map, List.pairwise_map]
  exact List.pairwise_lt_range.imp fun h => less_index h

theorem luaLen_indexKeys (n : Nat) : luaLen (indexKeys n) = n := by
  have hall : ∀ i ∈ List.range n, decide (LuaKey.integer (i + 1) ∈ indexKeys n) = true := fun i hi => by
    rw [decide_eq_true_eq, mem_indexKeys]
    exact ⟨i, List.mem_range.1 hi, rfl⟩
  have hlength : (indexKeys n).length = n := by simp [indexKeys]
  rw [luaLen, hlength, List.takeWhile_eq_self_iff.2 hall, List.length_range]

theorem luaLen_strings {keys : List LuaKey} (h : ∀ key ∈ keys, ∃ s, key = .string s) : luaLen keys = 0 := by
  have hnone : ∀ i : Nat, ¬LuaKey.integer (i + 1) ∈ keys := fun i hi => by
    obtain ⟨s, hs⟩ := h _ hi
    cases hs
  simp [luaLen, hnone]

theorem isIndex_index {n i : Nat} (hn : n < 2 ^ 31) (hi : i < n) :
    (LuaKey.integer (i + 1)).isIndex n = true := by
  have hmod : ((i : Int) + 1).bmod (2 ^ 32) = i + 1 := by
    rw [Int.bmod_eq_of_le] <;> omega
  simp only [LuaKey.isIndex, hmod, Bool.and_eq_true, decide_eq_true_eq]
  omega

/-! ## The map of a table -/

theorem traverseTable_strings {entries : List (LuaKey × GluaStorageValue)}
    (hkeys : ∀ e ∈ entries, ∃ s, e.1 = .string s) (hpackage : ∀ e ∈ entries, e.1.text ≠ packageKey)
    (horder : Ascending (entries.map fun e => e.1.text)) :
    traverseTable entries = entries.map fun e => (e.1.text, e.2) := by
  have hlen : luaLen (entries.map Prod.fst) = 0 := luaLen_strings fun key hkey => by
    obtain ⟨e, he, rfl⟩ := List.mem_map.1 hkey
    exact hkeys e he
  have hothers : (entries.filter fun e => !e.1.isIndex 0) = entries := List.filter_eq_self.2 fun e he => by
    obtain ⟨s, hs⟩ := hkeys e he
    rw [hs]
    rfl
  rw [traverseTable, hlen, hothers]
  simp [foldl_addToMap [] hpackage horder]

theorem text_index_ne_package (i : Nat) : (LuaKey.integer (i + 1)).text ≠ packageKey := by
  intro h
  have hdigit := (toDigits_digits (i + 1) 'p' (by rw [← text_index, h]; decide)).2
  exact absurd hdigit (by decide)

theorem traverseTable_indexes {entries : List (LuaKey × GluaStorageValue)} {n : Nat} (hn : n < 2 ^ 31)
    (hkeys : entries.map Prod.fst = indexKeys n) :
    traverseTable entries = entries.map fun e => (e.1.text, e.2) := by
  have hindex : ∀ e ∈ entries, ∃ i < n, e.1 = .integer (i + 1) := fun e he =>
    mem_indexKeys.1 (hkeys ▸ List.mem_map_of_mem he)
  have hindexes : (entries.filter fun e => decide (∃ i ∈ List.range n, e.1 = LuaKey.integer (i + 1))) = entries :=
    List.filter_eq_self.2 fun e he => by simpa using hindex e he
  have hothers : (entries.filter fun e => !e.1.isIndex n) = [] := List.filter_eq_nil_iff.2 fun e he => by
    obtain ⟨i, hi, hkey⟩ := hindex e he
    simp [hkey, isIndex_index hn hi]
  have htexts : (entries.map fun e => e.1.text) = (indexKeys n).map LuaKey.text := by
    rw [← hkeys, List.map_map]
    rfl
  have hpackage : ∀ e ∈ entries, e.1.text ≠ packageKey := fun e he => by
    obtain ⟨i, -, hkey⟩ := hindex e he
    rw [hkey]
    exact text_index_ne_package i
  rw [traverseTable, hkeys, luaLen_indexKeys, hindexes, hothers, List.append_nil,
    foldl_addToMap [] hpackage (by rw [htexts]; exact ascending_indexKeys n), List.nil_append]

/-! ## Keys of an array -/

theorem stoi_digits {n : Nat} (hn : n < 2 ^ 31) : stoi (Nat.toDigits 10 n) = some (n : Int) := by
  have hdigits : ∀ c ∈ Nat.toDigits 10 n, isDigit c = true := fun c hc => by
    simpa [isDigit] using toDigits_digits n c hc
  have hvalue : Nat.ofDigitChars 10 (Nat.toDigits 10 n) 0 = n := Nat.ofDigitChars_ten_toDigits
  obtain ⟨c, ds, hds⟩ := List.exists_cons_of_length_pos (Nat.length_toDigits_pos (b := 10) (n := n))
  rw [hds] at hdigits hvalue ⊢
  have hall : (c :: ds).takeWhile isDigit = c :: ds := List.takeWhile_eq_self_iff.2 hdigits
  have hc : isDigit c = true := hdigits c (by simp)
  have hspace : isSpace c = false := by
    cases hspace : isSpace c with
    | false => rfl
    | true =>
      simp only [isSpace, isNewLineStart, Bool.or_eq_true, beq_iff_eq] at hspace
      rcases hspace with ((((rfl | rfl) | rfl) | rfl) | rfl) | rfl <;> exact absurd hc (by decide)
  have hminus : c ≠ '-' := by
    rintro rfl
    exact absurd hc (by decide)
  have hplus : c ≠ '+' := by
    rintro rfl
    exact absurd hc (by decide)
  rw [stoi, List.dropWhile_cons_of_neg (by simp [hspace])]
  simp [hminus, hplus, hall, hvalue]
  omega

theorem text_index_injective {i j : Nat} (h : (LuaKey.integer (i + 1)).text = (LuaKey.integer (j + 1)).text) :
    i = j := by
  rw [text_index, text_index] at h
  exact Nat.succ.inj (toDigits_injective h)

theorem intKey_index {i : Nat} (hi : i + 1 < 2 ^ 31) :
    intKey (LuaKey.integer (i + 1)).text = some (i + 1 : Int) := by
  have hempty : (Nat.toDigits 10 (i + 1)).isEmpty = false := by
    rw [List.isEmpty_eq_false_iff]
    exact List.ne_nil_of_length_pos Nat.length_toDigits_pos
  have hzero : Nat.toDigits 10 (i + 1) ≠ ['0'] := fun h =>
    Nat.succ_ne_zero i (toDigits_injective (h.trans (by decide : ['0'] = Nat.toDigits 10 0)))
  have hne : ((i + 1 : Nat) : Int) ≠ 0 := by omega
  rw [text_index, intKey, hempty, if_neg (by simp), if_neg hzero, stoi_digits hi]
  exact if_neg hne

theorem mapM_eq_some {α β : Type} {f : α → Option β} {g : α → β} : ∀ {l : List α},
    (∀ a ∈ l, f a = some (g a)) → l.mapM f = some (l.map g)
  | [], _ => rfl
  | a :: l, h => by
    rw [List.mapM_cons, h a (by simp), mapM_eq_some fun a ha => h a (by simp [ha])]
    rfl

theorem isArrayFormat_indexKeys {n : Nat} (hn : n < 2 ^ 31) :
    isArrayFormat ((indexKeys n).map LuaKey.text) = true := by
  have hints : ((indexKeys n).map LuaKey.text).mapM intKey =
      some ((List.range n).map fun i : Nat => (i + 1 : Int)) := by
    rw [indexKeys, List.map_map, List.mapM_map]
    exact mapM_eq_some fun i hi => intKey_index (by have := List.mem_range.1 hi; omega)
  have hsorted : ((List.range n).map fun i : Nat => (i + 1 : Int)).Pairwise
      fun a b => decide (a ≤ b) = true := by
    rw [List.pairwise_map]
    exact List.pairwise_lt_range.imp fun h => by simpa using h.le
  rw [isArrayFormat, hints]
  simp [List.mergeSort_of_pairwise hsorted]

/-! ## The table of a map -/

theorem pushItems_eq : ∀ map : List (Str × GluaStorageValue),
    pushItems map = map.map fun e => (e.1, pushStorageValue e.2)
  | [] => rfl
  | e :: map => by rw [pushItems, pushItems_eq map, List.map_cons]

/-- A table is in the order of its keys. -/
def Ordered (entries : List (LuaKey × LuaValue)) : Prop :=
  entries.Pairwise fun a b => a.1 ≠ b.1 ∧ b.1.less a.1 = false

theorem putEntry_append {key : LuaKey} {v : LuaValue} : ∀ {entries : List (LuaKey × LuaValue)},
    (∀ e ∈ entries, e.1 ≠ key ∧ key.less e.1 = false) → putEntry key v entries = entries ++ [(key, v)]
  | [], _ => rfl
  | e :: entries, h => by
    obtain ⟨hne, hless⟩ := h e (by simp)
    rw [putEntry, if_neg hne.symm, hless, if_neg (by simp), putEntry_append fun e he => h e (by simp [he]),
      List.cons_append]

theorem setEntry_append {key : LuaKey} {v : LuaValue} {entries : List (LuaKey × LuaValue)} (hv : v ≠ .nil)
    (h : ∀ e ∈ entries, e.1 ≠ key ∧ key.less e.1 = false) :
    setEntry key v entries = entries ++ [(key, v)] := by
  rw [← putEntry_append h]
  cases v with
  | nil => exact absurd rfl hv
  | _ => rfl

/-- Entries in order are set one after the other. -/
theorem foldl_setEntry : ∀ {todo : List (LuaKey × LuaValue)} (done : List (LuaKey × LuaValue)),
    (∀ e ∈ todo, e.2 ≠ .nil) →
    Ordered (done ++ todo) →
      todo.foldl (fun entries e => setEntry e.1 e.2 entries) done = done ++ todo
  | [], done, _, _ => by simp
  | e :: todo, done, hnil, horder => by
    have hlast : ∀ d ∈ done, d.1 ≠ e.1 ∧ e.1.less d.1 = false := fun d hd =>
      (List.pairwise_append.1 horder).2.2 d hd e (by simp)
    rw [List.foldl_cons, setEntry_append (hnil e (by simp)) hlast,
      foldl_setEntry _ (fun e he => hnil e (by simp [he])) (by simpa using horder)]
    simp

theorem ordered_index {i j : Nat} (h : i < j) :
    LuaKey.integer (i + 1) ≠ LuaKey.integer (j + 1) ∧
      (LuaKey.integer (j + 1)).less (LuaKey.integer (i + 1)) = false := by
  have hne : (i + 1 : Int) ≠ j + 1 := by omega
  have htext : ¬(LuaKey.integer (j + 1)).text = (LuaKey.integer (i + 1)).text := fun h' =>
    h.ne (text_index_injective h').symm
  simp [LuaKey.less, hne, htext, luaTableLess_asymm (less_index h)]

theorem indexKeys_prefix {n : Nat} (keys rest : List LuaKey) (h : keys ++ rest = indexKeys n) :
    keys = indexKeys keys.length := by
  have hlength := congrArg List.length h
  have htake := congrArg (List.take keys.length) h
  rw [List.length_append, indexKeys, List.length_map, List.length_range] at hlength
  rw [List.take_left', indexKeys, ← List.map_take, List.take_range, Nat.min_eq_left (by omega)] at htake
  · exact htake
  · rfl

/-- The keys up to an entry of an array. -/
theorem index_of_split {n : Nat} {e : LuaKey × LuaValue} {done todo : List (LuaKey × LuaValue)}
    (hkeys : (done ++ e :: todo).map Prod.fst = indexKeys n) :
    e.1 = .integer (done.length + 1) ∧ done.map Prod.fst = indexKeys done.length := by
  have hprefix : done.map Prod.fst ++ [e.1] = indexKeys (done.length + 1) := by
    have h := indexKeys_prefix (n := n) (done.map Prod.fst ++ [e.1]) (todo.map Prod.fst)
      (by rw [← hkeys]; simp)
    simpa using h
  rw [indexKeys_succ] at hprefix
  obtain ⟨hdone, he⟩ := List.append_inj' hprefix rfl
  exact ⟨List.singleton_inj.1 he, hdone⟩

/-- No entry has the index after those of a list. -/
theorem lookup_index {done : List (LuaKey × LuaValue)} {n : Nat} (hkeys : done.map Prod.fst = indexKeys n) :
    (done.map fun e => (e.1.text, e.2)).lookup (decimal (n + 1 : Nat)) = none := by
  rw [List.lookup_eq_none_iff]
  intro item hitem
  obtain ⟨d, hd, rfl⟩ := List.mem_map.1 hitem
  obtain ⟨i, hi, hkey⟩ := mem_indexKeys.1 (hkeys ▸ List.mem_map_of_mem hd)
  rw [decimal_index, bne_iff_ne]
  intro heq
  rw [hkey] at heq
  exact hi.ne (text_index_injective heq).symm

/-- The items of an array are found one by one. -/
theorem pushArray_indexes {n : Nat} : ∀ (todo done : List (LuaKey × LuaValue)) {fuel : Nat},
    (∀ e ∈ todo, e.2 ≠ .nil) → (done ++ todo).map Prod.fst = indexKeys n → todo.length ≤ fuel →
      pushArray ((done ++ todo).map fun e => (e.1.text, e.2)) fuel done.length done = done ++ todo
  | [], done, 0, _, _, _ => by simp [pushArray]
  | [], done, fuel + 1, _, hkeys, _ => by
    rw [List.append_nil] at hkeys ⊢
    have hlength : done.length = n := by simpa [indexKeys] using congrArg List.length hkeys
    rw [pushArray, lookup_index (hlength ▸ hkeys)]
  | e :: todo, done, fuel + 1, hnil, hkeys, hfuel => by
    obtain ⟨hkey, hdone⟩ := index_of_split hkeys
    have hlookup : ((done ++ e :: todo).map fun e => (e.1.text, e.2)).lookup
        (decimal (done.length + 1 : Nat)) = some e.2 := by
      rw [List.map_append, List.lookup_append, lookup_index hdone, decimal_index, List.map_cons, ← hkey,
        List.lookup_cons_self]
      rfl
    have hlast : ∀ d ∈ done, d.1 ≠ .integer (done.length + 1) ∧
        (LuaKey.integer (done.length + 1)).less d.1 = false := fun d hd => by
      obtain ⟨i, hi, hi'⟩ := mem_indexKeys.1 (hdone ▸ List.mem_map_of_mem hd)
      rw [hi']
      exact ordered_index hi
    have hset : setEntry (.integer (done.length + 1 : Nat)) e.2 done = done ++ [e] := by
      rw [Nat.cast_add_one, setEntry_append (hnil e (by simp)) hlast, ← hkey]
    have hrest := pushArray_indexes (n := n) todo (done ++ [e])
      (fun e he => hnil e (by simp [he])) (by simpa using hkeys) (by simpa using hfuel)
    rw [pushArray, hlookup]
    simp only [hset]
    simpa using hrest

end Achain.Glua
