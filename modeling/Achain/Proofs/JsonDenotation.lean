import Achain.Proofs.JsonGrammar
import Achain.Proofs.JsonTables

/-!
# What is pushed of a value is what it denotes

The members of an object go to a map, in which a later one replaces an earlier one of its key, and from
the map to a table in the order of the keys. The table is the one that the assignments of the members
build. The items of an array are looked up in their map one by one.
-/

namespace Achain.Glua

variable {F : NumberFormat}

/-! ## Assignments -/

/-- The entry of a key: none for nil. -/
def entryOf (key : LuaKey) : LuaValue → List (LuaKey × LuaValue)
  | .nil => []
  | v => [(key, v)]

section Set

variable {key : LuaKey} {v : LuaValue} {entries : List (LuaKey × LuaValue)}

theorem setEntry_cases (key : LuaKey) (v : LuaValue) (entries : List (LuaKey × LuaValue)) :
    v = .nil ∧ setEntry key v entries = entries.filter (fun e => e.1 ≠ key) ∧ entryOf key v = [] ∨
      setEntry key v entries = putEntry key v entries ∧ entryOf key v = [(key, v)] := by
  cases v with
  | nil => exact .inl ⟨rfl, rfl, rfl⟩
  | _ => exact .inr ⟨rfl, rfl⟩

theorem filter_ne_key (h : ∀ e ∈ entries, e.1 ≠ key) : entries.filter (fun e => e.1 ≠ key) = entries :=
  List.filter_eq_self.2 fun e he => decide_eq_true (h e he)

/-- A key before all others goes to the front. -/
theorem setEntry_front (h : ∀ e ∈ entries, e.1 ≠ key ∧ key.less e.1 = true) :
    setEntry key v entries = entryOf key v ++ entries := by
  rcases setEntry_cases key v entries with ⟨-, hset, hentry⟩ | ⟨hset, hentry⟩
  · rw [hset, hentry, filter_ne_key fun e he => (h e he).1]
    rfl
  · rw [hset, hentry]
    cases entries with
    | nil => rfl
    | cons e entries =>
      obtain ⟨hne, hless⟩ := h e (by simp)
      rw [putEntry, if_neg hne.symm, if_pos hless]
      rfl

theorem setEntry_same {u : LuaValue} (h : ∀ e ∈ entries, e.1 ≠ key) :
    setEntry key v ((key, u) :: entries) = entryOf key v ++ entries := by
  rcases setEntry_cases key v ((key, u) :: entries) with ⟨-, hset, hentry⟩ | ⟨hset, hentry⟩
  · rw [hset, hentry, List.filter_cons_of_neg (by simp), filter_ne_key h]
    rfl
  · rw [hset, hentry, putEntry, if_pos rfl]
    rfl

theorem setEntry_skip {e : LuaKey × LuaValue} (hne : e.1 ≠ key) (hless : key.less e.1 = false) :
    setEntry key v (e :: entries) = e :: setEntry key v entries := by
  rcases setEntry_cases key v (e :: entries) with ⟨hnil, hset, -⟩ | ⟨hset, -⟩
  · subst hnil
    rw [hset, List.filter_cons_of_pos (by simpa using hne)]
    rfl
  · rcases setEntry_cases key v entries with ⟨hnil, -, -⟩ | ⟨hset', -⟩
    · subst hnil
      rw [setEntry, List.filter_cons_of_pos (by simpa using hne)]
      rfl
    · rw [hset, hset', putEntry, if_neg (Ne.symm hne), if_neg (by simp [hless])]

theorem setEntry_append_entryOf {key' : LuaKey} {u : LuaValue} (hne : key' ≠ key)
    (hless : key.less key' = false) :
    setEntry key v (entryOf key' u ++ entries) = entryOf key' u ++ setEntry key v entries := by
  rcases setEntry_cases key' u [] with ⟨-, -, hentry⟩ | ⟨-, hentry⟩
  · rw [hentry]
    rfl
  · rw [hentry]
    exact setEntry_skip hne hless

end Set

/-! ## Members -/

/-- The table of a map whose keys are null-free strings. -/
def held (map : List (Str × GluaStorageValue)) : List (LuaKey × LuaValue) :=
  map.flatMap fun e => entryOf (.string e.1) (pushStorageValue e.2)

theorem held_cons (e : Str × GluaStorageValue) (map : List (Str × GluaStorageValue)) :
    held (e :: map) = entryOf (.string e.1) (pushStorageValue e.2) ++ held map := rfl

theorem key_of_mem_entryOf {key : LuaKey} {v : LuaValue} {e : LuaKey × LuaValue}
    (h : e ∈ entryOf key v) : e.1 = key := by
  rcases setEntry_cases key v [] with ⟨-, -, hentry⟩ | ⟨-, hentry⟩ <;> rw [hentry] at h
  · cases h
  · rw [List.mem_singleton.1 h]

theorem key_of_mem_held {map : List (Str × GluaStorageValue)} {e : LuaKey × LuaValue} (h : e ∈ held map) :
    ∃ m ∈ map, e.1 = .string m.1 := by
  obtain ⟨m, hm, he⟩ := List.mem_flatMap.1 h
  exact ⟨m, hm, key_of_mem_entryOf he⟩

/-- A string without nulls is a C string. -/
theorem cString_eq_self {s : Str} (h : nullChar ∉ s) : cString s = s := by
  refine List.takeWhile_eq_self_iff.2 fun c hc => bne_iff_ne.2 ?_
  rintro rfl
  exact h hc

theorem less_string {a b : Str} (ha : nullChar ∉ a) (hb : nullChar ∉ b) :
    (LuaKey.string a).less (.string b) = luaTableLess a b := by
  simp [LuaKey.less, LuaKey.text, cString_eq_self ha, cString_eq_self hb]

theorem luaTableLess_trans {a b c : Str} (h : luaTableLess a b = true) (h' : luaTableLess b c = true) :
    luaTableLess a c = true := by
  rw [luaTableLess_iff, List.shortlex_def, ← List.lt_iff_lex_lt] at h h' ⊢
  rcases h with h | ⟨hlength, h⟩ <;> rcases h' with h' | ⟨hlength', h'⟩
  · exact .inl (h.trans h')
  · exact .inl (hlength' ▸ h)
  · exact .inl (hlength ▸ h')
  · exact .inr ⟨hlength.trans hlength', List.lt_trans h h'⟩

theorem luaTableLess_irrefl (a : Str) : luaTableLess a a = false := by
  by_contra h
  have h := Bool.not_eq_false _ ▸ h
  exact absurd h (by rw [luaTableLess_asymm h]; nofun)

section Map

variable {key : Str} {w : GluaStorageValue} {map : List (Str × GluaStorageValue)}

theorem mem_keys_tableMapSet {s : Str} : ∀ {map : List (Str × GluaStorageValue)},
    s ∈ (tableMapSet key w map).map Prod.fst → s = key ∨ s ∈ map.map Prod.fst
  | [], h => by
    rw [tableMapSet] at h
    exact .inl (by simpa using h)
  | e :: map, h => by
    rw [tableMapSet] at h
    split_ifs at h
    · simpa using h
    · rcases List.mem_cons.1 h with rfl | h
      · exact .inr (by simp)
      · exact (mem_keys_tableMapSet h).imp_right (List.mem_cons_of_mem _)
    · exact .inr h

theorem ascending_tableMapSet : ∀ {map : List (Str × GluaStorageValue)}, Ascending (map.map Prod.fst) →
    Ascending ((tableMapSet key w map).map Prod.fst)
  | [], _ => List.pairwise_singleton _ _
  | e :: map, h => by
    obtain ⟨hhead, htail⟩ := List.pairwise_cons.1 h
    rw [tableMapSet]
    split_ifs with hless hless'
    · refine List.pairwise_cons.2 ⟨fun s hs => ?_, h⟩
      rcases List.mem_cons.1 hs with rfl | hs
      · exact hless
      · exact luaTableLess_trans hless (hhead s hs)
    · refine List.pairwise_cons.2 ⟨fun s hs => ?_, ascending_tableMapSet htail⟩
      rcases mem_keys_tableMapSet hs with rfl | hs
      · exact hless'
      · exact hhead s hs
    · exact h

/-- The keys of a map are C strings in order. -/
structure PlainKeys (map : List (Str × GluaStorageValue)) : Prop where
  ascending : Ascending (map.map Prod.fst)
  nullFree : ∀ e ∈ map, nullChar ∉ e.1

theorem plainKeys_nil : PlainKeys [] := ⟨.nil, nofun⟩

theorem PlainKeys.set (h : PlainKeys map) (hkey : nullChar ∉ key) : PlainKeys (tableMapSet key w map) where
  ascending := ascending_tableMapSet h.ascending
  nullFree m hm := by
    rcases mem_keys_tableMapSet (List.mem_map_of_mem hm) with heq | hmem
    · rwa [heq]
    · obtain ⟨m', hm', heq⟩ := List.mem_map.1 hmem
      exact heq ▸ h.nullFree m' hm'

/-- An assignment to the table of a map is one to the map. -/
theorem held_tableMapSet (hkey : nullChar ∉ key) {map : List (Str × GluaStorageValue)} (h : PlainKeys map) :
    setEntry (.string key) (pushStorageValue w) (held map) = held (tableMapSet key w map) := by
  induction map with
  | nil =>
    rw [tableMapSet, held_cons]
    exact setEntry_front fun x hx => absurd hx List.not_mem_nil
  | cons e map ih =>
    obtain ⟨hhead, htail⟩ := List.pairwise_cons.1 h.ascending
    have hnull' : nullChar ∉ e.1 := h.nullFree e (by simp)
    have hrest : ∀ e ∈ map, nullChar ∉ e.1 := fun e he => h.nullFree e (by simp [he])
    -- the keys after a key that is not after `e.1`
    have hfront (h : ∀ m ∈ map, luaTableLess key m.1 = true) : ∀ x ∈ held map,
        x.1 ≠ .string key ∧ (LuaKey.string key).less x.1 = true := by
      intro x hx
      obtain ⟨m, hm, heq⟩ := key_of_mem_held hx
      rw [heq, less_string hkey (hrest m hm)]
      refine ⟨fun hsame => ?_, h m hm⟩
      have hirrefl := h m hm
      rw [LuaKey.string.inj hsame, luaTableLess_irrefl] at hirrefl
      cases hirrefl
    rw [tableMapSet]
    split_ifs with hless hless'
    · rw [held_cons (key, w)]
      refine setEntry_front fun x hx => ?_
      rw [held_cons, List.mem_append] at hx
      rcases hx with hx | hx
      · rw [key_of_mem_entryOf hx, less_string hkey hnull']
        refine ⟨fun hsame => ?_, hless⟩
        rw [LuaKey.string.inj hsame, luaTableLess_irrefl] at hless
        cases hless
      · exact hfront (fun m hm => luaTableLess_trans hless (hhead m.1 (List.mem_map_of_mem hm))) x hx
    · rw [held_cons, held_cons, ← ih ⟨htail, hrest⟩]
      refine setEntry_append_entryOf (fun hsame => ?_) ?_
      · rw [LuaKey.string.inj hsame, luaTableLess_irrefl] at hless'
        cases hless'
      · rw [less_string hkey hnull']
        exact luaTableLess_asymm hless'
    · have hsame : key = e.1 := by
        by_contra hne
        exact hless (luaTableLess_of_not hne (Bool.not_eq_true _ ▸ hless'))
      subst hsame
      have hfront := hfront fun m hm => hhead m.1 (List.mem_map_of_mem hm)
      rw [held_cons, held_cons]
      rcases setEntry_cases (.string e.1) (pushStorageValue e.2) [] with ⟨-, -, hentry⟩ | ⟨-, hentry⟩
      · rw [hentry]
        exact setEntry_front hfront
      · rw [hentry]
        exact setEntry_same fun x hx => (hfront x hx).1

/-- Assignments to the table of a map, one after the other. -/
theorem held_foldl : ∀ (todo : List (Str × GluaStorageValue)) {map : List (Str × GluaStorageValue)},
    PlainKeys map → (∀ e ∈ todo, nullChar ∉ e.1) →
      todo.foldl (fun entries e => setEntry (.string e.1) (pushStorageValue e.2) entries) (held map) =
          held (todo.foldl (fun map e => tableMapSet e.1 e.2 map) map) ∧
        PlainKeys (todo.foldl (fun map e => tableMapSet e.1 e.2 map) map)
  | [], _, h, _ => ⟨rfl, h⟩
  | e :: todo, map, h, htodo => by
    have hkey : nullChar ∉ e.1 := htodo e (by simp)
    rw [List.foldl_cons, List.foldl_cons, held_tableMapSet hkey h]
    exact held_foldl todo (h.set hkey) fun e he => htodo e (by simp [he])

/-- A map in order is made of its own entries. -/
theorem foldl_tableMapSet : ∀ (todo done : List (Str × GluaStorageValue)),
    Ascending ((done ++ todo).map Prod.fst) →
      todo.foldl (fun map e => tableMapSet e.1 e.2 map) done = done ++ todo
  | [], done, _ => (List.append_nil done).symm
  | e :: todo, done, horder => by
    have hlast : ∀ m ∈ done, luaTableLess m.1 e.1 = true := fun m hm => by
      rw [List.map_append] at horder
      exact (List.pairwise_append.1 horder).2.2 m.1 (List.mem_map_of_mem hm) e.1 (by simp)
    rw [List.foldl_cons, tableMapSet_append hlast,
      foldl_tableMapSet todo (done ++ [e]) (by simpa using horder), List.append_assoc, List.singleton_append]

/-- The table that is made of a map. -/
theorem foldl_pushItems (h : PlainKeys map) :
    (pushItems map).foldl (fun entries e => setEntry (.string (cString e.1)) e.2 entries) [] =
      held map := by
  have hstrings : map.foldl
      (fun entries e => setEntry (.string (cString e.1)) (pushStorageValue e.2) entries) [] =
        map.foldl (fun entries e => setEntry (.string e.1) (pushStorageValue e.2) entries) [] := by
    refine List.foldl_ext _ _ _ fun entries e he => ?_
    rw [cString_eq_self (h.nullFree e he)]
  rw [pushItems_eq, List.foldl_map, hstrings]
  have hheld := (held_foldl map plainKeys_nil h.nullFree).1
  rwa [foldl_tableMapSet map [] h.ascending] at hheld

end Map

namespace Json

variable {members : List (Str × Json)} {items : List Json}

theorem storeMembers_eq : ∀ (members : List (Str × Json)) (map : List (Str × GluaStorageValue)),
    storeMembers F map members =
      (members.map fun m => (m.1, storage F m.2)).foldl (fun map e => tableMapSet e.1 e.2 map) map
  | [], _ => rfl
  | (key, v) :: members, map => by
    rw [storeMembers, storeMembers_eq members, List.map_cons, List.foldl_cons]

theorem assignMembers_eq : ∀ (members : List (Str × Json)) (entries : List (LuaKey × LuaValue)),
    (∀ m ∈ members, pushStorageValue (storage F m.2) = denote F m.2) →
      assignMembers F entries members = (members.map fun m => (m.1, storage F m.2)).foldl
        (fun entries e => setEntry (.string e.1) (pushStorageValue e.2) entries) entries
  | [], _, _ => rfl
  | (key, v) :: members, entries, h => by
    rw [assignMembers, assignMembers_eq members _ fun m hm => h m (by simp [hm]), List.map_cons,
      List.foldl_cons, h (key, v) (by simp)]

theorem push_object (hnull : ∀ m ∈ members, nullChar ∉ m.1)
    (hvalues : ∀ m ∈ members, pushStorageValue (storage F m.2) = denote F m.2) :
    pushStorageValue (storage F (.object members)) = denote F (.object members) := by
  have hstored : ∀ e ∈ members.map fun m => (m.1, storage F m.2), nullChar ∉ e.1 := by
    intro e he
    obtain ⟨m, hm, rfl⟩ := List.mem_map.1 he
    exact hnull m hm
  obtain ⟨hheld, hplain⟩ := held_foldl _ plainKeys_nil hstored
  rw [storage, pushStorageValue, denote, storeMembers_eq, assignMembers_eq members [] hvalues]
  exact congrArg LuaValue.table ((foldl_pushItems hplain).trans hheld.symm)

/-! ## Items -/

/-- The map of the items, from an index on. -/
def indexed (F : NumberFormat) (count : Nat) (items : List Json) : List (Str × GluaStorageValue) :=
  (items.zipIdx count).map fun e => (decimal (e.2 + 1 : Nat), storage F e.1)

theorem indexed_cons (count : Nat) (v : Json) (items : List Json) :
    indexed F count (v :: items) =
      (decimal (count + 1 : Nat), storage F v) :: indexed F (count + 1) items :=
  rfl

theorem storeItems_eq : ∀ (items : List Json) (count : Nat) (map : List (Str × GluaStorageValue)),
    (∀ e ∈ map, ∃ i < count, e.1 = decimal (i + 1 : Nat)) →
      storeItems F count map items = map ++ indexed F count items
  | [], _, map, _ => (List.append_nil map).symm
  | v :: items, count, map, h => by
    have hlast : ∀ e ∈ map, luaTableLess e.1 (decimal (count + 1 : Nat)) = true := by
      intro e he
      obtain ⟨i, hi, heq⟩ := h e he
      rw [heq, decimal_index, decimal_index]
      exact less_index hi
    rw [storeItems, tableMapSet_append hlast, storeItems_eq items (count + 1), indexed_cons,
      List.append_assoc, List.singleton_append]
    intro e he
    rcases List.mem_append.1 he with he | he
    · obtain ⟨i, hi, heq⟩ := h e he
      exact ⟨i, hi.trans (Nat.lt_succ_self _), heq⟩
    · exact ⟨count, Nat.lt_succ_self _, by rw [List.mem_singleton.1 he]⟩

theorem lookup_indexed : ∀ (items : List Json) (count i : Nat),
    (pushItems (indexed F count items)).lookup (decimal (count + i + 1 : Nat)) =
      items[i]?.map fun v => pushStorageValue (storage F v)
  | [], _, _ => rfl
  | v :: items, count, 0 => by
    rw [indexed_cons, pushItems]
    exact List.lookup_cons_self
  | v :: items, count, i + 1 => by
    have hne : decimal (count + (i + 1) + 1 : Nat) ≠ decimal (count + 1 : Nat) := by
      rw [decimal_index, decimal_index]
      exact fun heq => by simpa using text_index_injective heq
    have hnext : count + (i + 1) + 1 = count + 1 + i + 1 := by omega
    rw [indexed_cons, pushItems, List.lookup_cons, beq_eq_false_iff_ne.2 hne, hnext]
    exact lookup_indexed items (count + 1) i

/-- The items are pushed up to the maximal size. -/
theorem pushArray_eq (hvalues : ∀ v ∈ items, pushStorageValue (storage F v) = denote F v) :
    ∀ (n count : Nat) (entries : List (LuaKey × LuaValue)), n + count = maxSupportArraySize →
      pushArray (pushItems (indexed F 0 items)) n count entries =
        assignItems F count entries (items.drop count)
  | 0, count, entries, hn => by
    rw [pushArray]
    cases items.drop count with
    | nil => rfl
    | cons v rest => rw [assignItems, if_neg (by omega)]
  | n + 1, count, entries, hn => by
    have hlookup := lookup_indexed (F := F) items 0 count
    rw [Nat.zero_add] at hlookup
    rw [pushArray, hlookup]
    cases hv : items[count]? with
    | none =>
      rw [List.drop_eq_nil_of_le (List.getElem?_eq_none_iff.1 hv)]
      rfl
    | some v =>
      obtain ⟨hlt, heq⟩ := List.getElem?_eq_some_iff.1 hv
      rw [List.drop_eq_getElem_cons hlt, heq, assignItems, if_pos (by omega)]
      dsimp only [Option.map_some]
      rw [hvalues v (heq ▸ List.getElem_mem hlt)]
      exact pushArray_eq hvalues n (count + 1) _ (by omega)

theorem push_array (hvalues : ∀ v ∈ items, pushStorageValue (storage F v) = denote F v) :
    pushStorageValue (storage F (.array items)) = denote F (.array items) := by
  rw [storage, pushStorageValue, denote, storeItems_eq items 0 [] nofun, List.nil_append]
  exact congrArg LuaValue.table (pushArray_eq hvalues maxSupportArraySize 0 [] rfl)

/-! ## Values -/

variable {tok : Nat → GluaParserToken} {i j : Nat} {v : Json}

theorem push_ofWord {s : Str} (h : ofWord s = some v) : pushStorageValue (storage F v) = denote F v := by
  unfold ofWord at h
  split_ifs at h <;> cases h <;> rfl

/-- A token without nulls is pushed as what it denotes. -/
theorem push_ofToken {t : GluaParserToken} (hnull : t.type = .ltkString → nullChar ∉ t.token)
    (h : ofToken t = some v) : pushStorageValue (storage F v) = denote F v := by
  unfold ofToken at h
  split at h
  · split_ifs at h
    cases h
    rfl
  · cases h
    rfl
  · next hstring =>
    cases h
    rw [storage, pushStorageValue, cString_eq_self (hnull hstring), denote]
  · exact push_ofWord h
  · exact push_ofWord h
  · exact push_ofWord h
  · cases h

mutual

/-- What is stored of a value that is spelled without nulls is pushed as what it denotes. -/
theorem Spells.push (hnull : ∀ i, (tok i).type = .ltkString → nullChar ∉ (tok i).token) {i j : Nat}
    {v : Json} (h : Spells tok i j v) : pushStorageValue (storage F v) = denote F v :=
  match h with
  | .token htoken => push_ofToken (hnull _) htoken
  | .emptyArray _ _ => push_array nofun
  | .array _ hitems => push_array (SpellsItems.push hnull hitems)
  | .emptyObject _ _ => push_object nofun nofun
  | .object _ hmembers =>
    have hall := SpellsMembers.push hnull hmembers
    push_object (fun m hm => (hall m hm).1) fun m hm => (hall m hm).2

theorem SpellsItems.push (hnull : ∀ i, (tok i).type = .ltkString → nullChar ∉ (tok i).token) {i j : Nat}
    {items : List Json} (h : SpellsItems tok i j items) :
    ∀ v ∈ items, pushStorageValue (storage F v) = denote F v :=
  match h with
  | .last hv _ => List.forall_mem_singleton.2 (Spells.push hnull hv)
  | .more hv _ hitems => List.forall_mem_cons.2 ⟨Spells.push hnull hv, SpellsItems.push hnull hitems⟩

theorem SpellsMembers.push (hnull : ∀ i, (tok i).type = .ltkString → nullChar ∉ (tok i).token) {i j : Nat}
    {members : List (Str × Json)} (h : SpellsMembers tok i j members) :
    ∀ m ∈ members, nullChar ∉ m.1 ∧ pushStorageValue (storage F m.2) = denote F m.2 :=
  match h with
  | .last hkey _ hv _ => List.forall_mem_singleton.2 ⟨hnull _ hkey, Spells.push hnull hv⟩
  | .more hkey _ hv _ hmembers =>
    List.forall_mem_cons.2 ⟨⟨hnull _ hkey, Spells.push hnull hv⟩, SpellsMembers.push hnull hmembers⟩

end

end Json

end Achain.Glua
