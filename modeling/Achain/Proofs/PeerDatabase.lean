import Achain.Net.PeerDatabase
import Achain.Proofs.LevelMaps

/-!
# The peer database in memory and on disk

The set in memory has the entries of the open file as long as the key of a new entry, one more than the
last key stored, is not in use. It is in use exactly when the last key stored is the greatest of 32 bits
and the key `0` is stored too.
-/

namespace Achain.Net

open Table Traces Db

/-! ## The set in memory -/

namespace PotentialPeerSet

variable {s : PotentialPeerSet} {e e' : PotentialPeerDatabaseEntry} {endpoint : Endpoint}

/-- The entries from the first to the last seen. -/
def all (s : PotentialPeerSet) : List PotentialPeerDatabaseEntry := s.entries.entries

@[simp] theorem all_empty : empty.all = [] := rfl

theorem eq_of_endpoint (he : e ∈ s.all) (he' : e' ∈ s.all) (h : e.getEndpoint = e'.getEndpoint) :
    e = e' :=
  List.inj_on_of_nodup_map s.unique he he' h

theorem find_eq_some : s.find endpoint = some e ↔ e ∈ s.all ∧ e.getEndpoint = endpoint := by
  constructor
  · intro h
    exact ⟨List.mem_of_find?_eq_some h, by simpa using List.find?_some h⟩
  · rintro ⟨he, hendpoint⟩
    cases hfind : s.find endpoint with
    | none => exact absurd hendpoint (s.find_eq_none.1 hfind e he)
    | some e' =>
      have he' := List.mem_of_find?_eq_some hfind
      have hendpoint' : e'.getEndpoint = endpoint := by simpa using List.find?_some hfind
      rw [eq_of_endpoint he he' (hendpoint.trans hendpoint'.symm)]

theorem mem_insert : e' ∈ (s.insert e).all ↔ e' ∈ s.all ∨ e' = e ∧ s.find e.getEndpoint = none := by
  unfold insert
  split_ifs with h
  · rw [all, (s.entries.insert_perm e).mem_iff, List.mem_cons, or_comm]
    simp [h, all]
  · simp [h]

theorem mem_erase : e ∈ (s.erase endpoint).all ↔ e ∈ s.all ∧ e.getEndpoint ≠ endpoint := by
  simp [all, erase, ByKey.KeyMultiset.filter]

theorem mem_modify {u : PotentialPeerEntry} : e ∈ (s.modify u).all ↔
    e ∈ s.all ∧ e.getEndpoint ≠ u.endpoint ∨
      ∃ e₀ ∈ s.all, e₀.getEndpoint = u.endpoint ∧ e = { e₀ with peerEntry := u } := by
  rw [all, modify, (ByKey.KeyMultiset.modify_perm_map (s.pairwise_endpoint _)).mem_iff, List.mem_map]
  constructor
  · rintro ⟨a, ha, rfl⟩
    by_cases hendpoint : a.getEndpoint = u.endpoint
    · exact .inr ⟨a, ha, hendpoint, by simp [hendpoint]⟩
    · rw [if_neg (by simpa using hendpoint)]
      exact .inl ⟨ha, hendpoint⟩
  · rintro (⟨he, hendpoint⟩ | ⟨e₀, he₀, hendpoint, rfl⟩)
    · exact ⟨e, he, by simp [hendpoint]⟩
    · exact ⟨e₀, he₀, by simp [hendpoint]⟩

/-- The entry of an endpoint that is inserted first stays. -/
theorem mem_foldl_insert : ∀ {l : List PotentialPeerDatabaseEntry} {s : PotentialPeerSet},
    (∀ a ∈ s.all ++ l, ∀ b ∈ s.all ++ l, a.getEndpoint = b.getEndpoint → a = b) →
      (e ∈ (l.foldl PotentialPeerSet.insert s).all ↔ e ∈ s.all ∨ e ∈ l)
  | [], s, _ => by simp
  | a :: l, s, h => by
    have hmem : ∀ b, b ∈ (s.insert a).all ↔ b ∈ s.all ∨ b = a := by
      intro b
      rw [mem_insert]
      refine ⟨.imp_right And.left, ?_⟩
      rintro (hb | rfl)
      · exact .inl hb
      · cases hfind : s.find b.getEndpoint with
        | none => exact .inr ⟨rfl, rfl⟩
        | some c =>
          obtain ⟨hc, hendpoint⟩ := find_eq_some.1 hfind
          exact .inl (h c (by simp [hc]) b (by simp) hendpoint ▸ hc)
    have hsub : ∀ c ∈ (s.insert a).all ++ l, c ∈ s.all ++ a :: l := by
      intro c hc
      rw [List.mem_append, hmem] at hc
      rw [List.mem_append, List.mem_cons]
      tauto
    rw [List.foldl_cons, mem_foldl_insert fun c hc d hd => h c (hsub c hc) d (hsub d hd), hmem,
      List.mem_cons, or_assoc]

theorem mem_of_mem_foldl_insert : ∀ {l : List PotentialPeerDatabaseEntry} {s : PotentialPeerSet},
    e ∈ (l.foldl PotentialPeerSet.insert s).all → e ∈ s.all ∨ e ∈ l
  | [], _, h => .inl h
  | a :: l, s, h => by
    rcases mem_of_mem_foldl_insert (l := l) h with h | h
    · exact (mem_insert.1 h).imp_right fun ha => List.mem_cons.2 (.inl ha.1)
    · exact .inr (List.mem_cons_of_mem a h)

end PotentialPeerSet

/-! ## Tables of entries -/

/-- What a table with keys of 32 bits and different endpoints says of the endpoints. -/
structure Represents (t : Tab Nat PotentialPeerEntry) (m : Endpoint → Option PotentialPeerEntry) :
    Prop where
  keys_lt : ∀ k ∈ t, k < 2 ^ 32
  unique : ∀ k k' e e', t.lookup k = some e → t.lookup k' = some e' → e.endpoint = e'.endpoint → k = k'
  entry_iff : ∀ endpoint e, m endpoint = some e ↔ ∃ k, t.lookup k = some e ∧ e.endpoint = endpoint

namespace Represents

variable {t : Tab Nat PotentialPeerEntry} {m : Endpoint → Option PotentialPeerEntry} {k : Nat}
  {e : PotentialPeerEntry}

theorem empty : Represents ∅ fun _ => none where
  keys_lt k hk := absurd hk Finmap.notMem_empty
  unique k k' e e' h := by simp at h
  entry_iff endpoint e := by simp

/-- An entry is stored under the key of its endpoint, or under an unused key for a new endpoint. -/
theorem insert (h : Represents t m) (hk : k < 2 ^ 32)
    (hkey : ∀ k' e', t.lookup k' = some e' → (e'.endpoint = e.endpoint ↔ k' = k)) :
    Represents (t.insert k e) (Function.update m e.endpoint (some e)) where
  keys_lt k' hk' := by
    rcases Finmap.mem_insert.1 hk' with rfl | hk'
    · exact hk
    · exact h.keys_lt k' hk'
  unique k₁ k₂ e₁ e₂ h₁ h₂ hendpoint := by
    by_cases hk₁ : k₁ = k <;> by_cases hk₂ : k₂ = k
    · rw [hk₁, hk₂]
    · subst hk₁
      rw [Finmap.lookup_insert, Option.some.injEq] at h₁
      rw [Finmap.lookup_insert_of_ne _ hk₂] at h₂
      exact ((hkey k₂ e₂ h₂).1 (by rw [← hendpoint, h₁])).symm
    · subst hk₂
      rw [Finmap.lookup_insert, Option.some.injEq] at h₂
      rw [Finmap.lookup_insert_of_ne _ hk₁] at h₁
      exact (hkey k₁ e₁ h₁).1 (by rw [hendpoint, h₂])
    · rw [Finmap.lookup_insert_of_ne _ hk₁] at h₁
      rw [Finmap.lookup_insert_of_ne _ hk₂] at h₂
      exact h.unique k₁ k₂ e₁ e₂ h₁ h₂ hendpoint
  entry_iff endpoint e' := by
    by_cases hendpoint : endpoint = e.endpoint
    · subst hendpoint
      rw [Function.update_self]
      constructor
      · rintro ⟨⟩
        exact ⟨k, Finmap.lookup_insert _, rfl⟩
      · rintro ⟨k', hlookup, hendpoint⟩
        by_cases hk' : k' = k
        · subst hk'
          rwa [Finmap.lookup_insert] at hlookup
        · rw [Finmap.lookup_insert_of_ne _ hk'] at hlookup
          exact absurd ((hkey k' e' hlookup).1 hendpoint) hk'
    · rw [Function.update_of_ne hendpoint, h.entry_iff]
      refine exists_congr fun k' => and_congr_left fun hendpoint' => ?_
      by_cases hk' : k' = k
      · subst hk'
        rw [Finmap.lookup_insert]
        constructor
        · intro hlookup
          exact absurd (hendpoint'.symm.trans ((hkey k' e' hlookup).2 rfl)) hendpoint
        · rintro ⟨⟩
          exact absurd hendpoint'.symm hendpoint
      · rw [Finmap.lookup_insert_of_ne _ hk']

theorem erase (h : Represents t m) (hlookup : t.lookup k = some e) :
    Represents (t.erase k) (Function.update m e.endpoint none) where
  keys_lt k' hk' := h.keys_lt k' (Finmap.mem_erase.1 hk').2
  unique k₁ k₂ e₁ e₂ h₁ h₂ hendpoint := by
    have hof : ∀ {k' e'}, (t.erase k).lookup k' = some e' → t.lookup k' = some e' := by
      intro k' e' hk'
      have hne : k' ≠ k := by
        rintro rfl
        simp at hk'
      rwa [Finmap.lookup_erase_ne hne] at hk'
    exact h.unique k₁ k₂ e₁ e₂ (hof h₁) (hof h₂) hendpoint
  entry_iff endpoint e' := by
    by_cases hendpoint : endpoint = e.endpoint
    · subst hendpoint
      rw [Function.update_self]
      refine iff_of_false nofun ?_
      rintro ⟨k', hk', hendpoint⟩
      have hne : k' ≠ k := by
        rintro rfl
        simp at hk'
      rw [Finmap.lookup_erase_ne hne] at hk'
      exact hne (h.unique k' k e' e hk' hlookup hendpoint)
    · rw [Function.update_of_ne hendpoint, h.entry_iff]
      refine exists_congr fun k' => and_congr_left fun hendpoint' => ?_
      by_cases hk' : k' = k
      · subst hk'
        rw [Finmap.lookup_erase]
        refine iff_of_false (fun hk' => ?_) nofun
        rw [hlookup, Option.some.injEq] at hk'
        subst hk'
        exact hendpoint hendpoint'.symm
      · rw [Finmap.lookup_erase_ne hk']

end Represents

/-! ## The purpose of the database -/

/-- What the calls store: the entry stored last for an endpoint in every file, and the open file. -/
structure Remembered where
  entries : FilePath → Endpoint → Option PotentialPeerEntry
  current : Option FilePath

namespace Remembered

variable (r : Remembered)

def modify (f : (Endpoint → Option PotentialPeerEntry) → Endpoint → Option PotentialPeerEntry) :
    Remembered :=
  match r.current with
  | none => r
  | some dir => { r with entries := Function.update r.entries dir (f (r.entries dir)) }

def erase (endpoint : Endpoint) : Remembered := r.modify fun m => Function.update m endpoint none

def «open» (dir : FilePath) : Remembered :=
  if r.current.isSome then r else { r with current := some dir }

/-- What a call stores and erases. Entries that are pruned when a file is opened count as erased. -/
def call (pruned : List Endpoint) : PeerCall → Remembered
  | .open dir => pruned.foldl erase (r.open dir)
  | .updateEntry _ e => r.modify fun m => Function.update m e.endpoint (some e)
  | .erase endpoint => r.erase endpoint
  | .clear => r.modify fun _ _ => none
  | .close => { r with current := none }

/-- The entry last stored in the open file and not erased. -/
def entry (endpoint : Endpoint) : Option PotentialPeerEntry :=
  r.current.bind fun dir => r.entries dir endpoint

end Remembered

namespace PeerDatabase

variable (db : PeerDatabase)

/-- The entries that a call prunes. -/
def pruned : PeerCall → List PotentialPeerDatabaseEntry
  | .open dir =>
    match db.leveldb.open dir true with
    | .ok leveldb =>
      if maximumPeerdbSize < (loaded leveldb).size then
        (loaded leveldb).all.drop maximumPeerdbSize
      else []
    | .error _ => []
  | _ => []

/-- The set and the open file have the same entries, with different keys and endpoints, and looking up an
endpoint finds the entry last stored for it. -/
structure Consistent (r : Remembered) : Prop where
  same : ∀ e : PotentialPeerDatabaseEntry,
    e ∈ db.potentialPeerSet.all ↔ db.leveldb.entries.lookup e.databaseKey = some e.peerEntry
  keys : (db.potentialPeerSet.all.map (·.databaseKey)).Nodup
  endpoints : (db.potentialPeerSet.all.map (·.getEndpoint)).Nodup
  storedEndpoints : ∀ k k' e e', db.leveldb.entries.lookup k = some e →
    db.leveldb.entries.lookup k' = some e' → e.endpoint = e'.endpoint → k = k'
  lookup : ∀ endpoint, db.lookupEntryForEndpoint endpoint = r.entry endpoint

/-- A call does not give the key of another entry to a new one: when the last key is the greatest of
32 bits, the key `0` is free. -/
def KeyIsFree : PeerCall → Prop
  | .updateEntry _ e => db.potentialPeerSet.find e.endpoint = none →
    2 ^ 32 - 1 ∈ db.leveldb.entries → 0 ∉ db.leveldb.entries
  | _ => True

/-- What holds all along: every file has different keys and endpoints and the entries stored last, and the
set those of the open file. -/
structure Holds (r : Remembered) : Prop where
  current : db.leveldb.db = r.current
  files : ∀ dir, Represents (db.leveldb.contents dir) (r.entries dir)
  same : ∀ e : PotentialPeerDatabaseEntry,
    e ∈ db.potentialPeerSet.all ↔ db.leveldb.entries.lookup e.databaseKey = some e.peerEntry

variable {db : PeerDatabase} {r : Remembered} {e : PotentialPeerDatabaseEntry}

/-! ## Reading a file -/

theorem mem_stored {leveldb : LevelPodMap Nat PotentialPeerEntry} :
    e ∈ stored leveldb ↔ leveldb.entries.lookup e.databaseKey = some e.peerEntry := by
  simp only [stored, LevelPodMap.sortedKeys, List.mem_filterMap, Finset.mem_sort, Option.map_eq_some_iff]
  constructor
  · rintro ⟨key, -, value, hlookup, rfl⟩
    exact hlookup
  · intro hlookup
    exact ⟨e.databaseKey, Finmap.mem_keys.2 (Finmap.mem_of_lookup_eq_some hlookup), e.peerEntry,
      hlookup, rfl⟩

/-- All entries are read where no two have an endpoint in common. -/
theorem mem_loaded {leveldb : LevelPodMap Nat PotentialPeerEntry}
    (h : ∀ k k' e e', leveldb.entries.lookup k = some e → leveldb.entries.lookup k' = some e' →
      e.endpoint = e'.endpoint → k = k') :
    e ∈ (loaded leveldb).all ↔ leveldb.entries.lookup e.databaseKey = some e.peerEntry := by
  rw [loaded, PotentialPeerSet.mem_foldl_insert, mem_stored]
  · simp
  · intro a ha b hb hendpoint
    rw [PotentialPeerSet.all_empty, List.nil_append, mem_stored] at ha hb
    have hkey := h _ _ _ _ ha hb hendpoint
    rw [← hkey, ha, Option.some.injEq] at hb
    obtain ⟨key, entry⟩ := a
    obtain ⟨key', entry'⟩ := b
    simp only at hkey hb
    rw [hkey, hb]

/-! ## What the calls keep -/

theorem Holds.start : (start fun _ => none).Holds ⟨fun _ _ => none, none⟩ where
  current := rfl
  files dir := .empty
  same e := by
    change e ∈ PotentialPeerSet.empty.all ↔ (∅ : Tab Nat PotentialPeerEntry).lookup _ = _
    simp

namespace Holds

variable {dir : FilePath}

theorem entries_eq (hdir : db.leveldb.db = some dir) :
    db.leveldb.entries = db.leveldb.contents dir :=
  LevelMap.entries_of_open hdir

theorem contents_setDisk {m : LevelPodMap Nat PotentialPeerEntry} (t : Tab Nat PotentialPeerEntry) :
    (m.setDisk dir (some t)).contents = Function.update m.contents dir t := by
  funext dir'
  by_cases hdir' : dir' = dir
  · subst hdir'
    simp
  · simp [LevelMap.setDisk, LevelMap.contents, hdir']

/-- Only an open database has entries in memory. -/
theorem isOpen_of_mem (h : db.Holds r) (he : e ∈ db.potentialPeerSet.all) :
    ∃ dir, db.leveldb.db = some dir := by
  rw [h.same] at he
  cases hdb : db.leveldb.db with
  | none => simp [LevelMap.entries, hdb] at he
  | some dir => exact ⟨dir, rfl⟩

theorem lookup_eq (h : db.Holds r) (endpoint : Endpoint) :
    db.lookupEntryForEndpoint endpoint = r.entry endpoint := by
  refine Option.ext fun value => ?_
  have hmemory : db.lookupEntryForEndpoint endpoint = some value ↔
      ∃ k, db.leveldb.entries.lookup k = some value ∧ value.endpoint = endpoint := by
    simp only [lookupEntryForEndpoint, Option.map_eq_some_iff, PotentialPeerSet.find_eq_some, h.same]
    constructor
    · rintro ⟨e, ⟨hlookup, hendpoint⟩, rfl⟩
      exact ⟨e.databaseKey, hlookup, hendpoint⟩
    · rintro ⟨k, hlookup, hendpoint⟩
      exact ⟨⟨k, value⟩, ⟨hlookup, hendpoint⟩, rfl⟩
  rw [hmemory, Remembered.entry, ← h.current]
  cases hdb : db.leveldb.db with
  | none => simp [LevelMap.entries, hdb]
  | some dir => rw [entries_eq hdb, Option.bind_some, (h.files dir).entry_iff]

theorem consistent (h : db.Holds r) : db.Consistent r where
  same := h.same
  keys := by
    refine List.pairwise_map.2 ((List.pairwise_map.1 db.potentialPeerSet.unique).imp_of_mem ?_)
    intro a b ha hb hendpoint hkey
    have ha := (h.same a).1 ha
    rw [hkey, (h.same b).1 hb, Option.some.injEq] at ha
    exact hendpoint (congrArg PotentialPeerEntry.endpoint ha).symm
  endpoints := db.potentialPeerSet.unique
  storedEndpoints := by
    cases hdb : db.leveldb.db with
    | none => simp [LevelMap.entries, hdb]
    | some dir =>
      rw [entries_eq hdb]
      exact (h.files dir).unique
  lookup := h.lookup_eq

/-- The entries of the open file change, and the set and what is stored with them. -/
theorem modified (h : db.Holds r) (hdir : db.leveldb.db = some dir) {t : Tab Nat PotentialPeerEntry}
    {f : (Endpoint → Option PotentialPeerEntry) → Endpoint → Option PotentialPeerEntry}
    {s : PotentialPeerSet} (ht : Represents t (f (r.entries dir)))
    (hs : ∀ e : PotentialPeerDatabaseEntry, e ∈ s.all ↔ t.lookup e.databaseKey = some e.peerEntry) :
    Holds ⟨db.leveldb.setDisk dir (some t), s⟩ (r.modify f) := by
  have hcurrent : r.current = some dir := h.current.symm.trans hdir
  have hmodify : r.modify f = { r with entries := Function.update r.entries dir (f (r.entries dir)) } := by
    simp [Remembered.modify, hcurrent]
  rw [hmodify]
  refine ⟨h.current, fun dir' => ?_, fun e => ?_⟩
  · rw [contents_setDisk]
    by_cases hdir' : dir' = dir
    · subst hdir'
      simpa using ht
    · simpa [hdir'] using h.files dir'
  · have hopen : (db.leveldb.setDisk dir (some t)).db = some dir := hdir
    rw [hs, LevelMap.entries_of_open hopen, LevelMap.contents_setDisk]

theorem found (h : db.Holds r) {endpoint : Endpoint} (hfind : db.potentialPeerSet.find endpoint = some e) :
    ∃ dir, db.leveldb.db = some dir ∧ (db.leveldb.contents dir).lookup e.databaseKey = some e.peerEntry ∧
      e.peerEntry.endpoint = endpoint := by
  obtain ⟨he, hendpoint⟩ := PotentialPeerSet.find_eq_some.1 hfind
  obtain ⟨dir, hdir⟩ := h.isOpen_of_mem he
  rw [h.same, entries_eq hdir] at he
  exact ⟨dir, hdir, he, hendpoint⟩

/-- An entry is erased from both. -/
theorem erased (h : db.Holds r) {endpoint : Endpoint} (hfind : db.potentialPeerSet.find endpoint = some e) :
    ∃ leveldb, db.leveldb.remove e.databaseKey = .ok leveldb ∧
      Holds ⟨leveldb, db.potentialPeerSet.erase endpoint⟩ (r.erase endpoint) := by
  obtain ⟨dir, hdir, hlookup, rfl⟩ := h.found hfind
  have hfile := h.files dir
  refine ⟨_, LevelMap.update_of_open hdir _, h.modified hdir (hfile.erase hlookup) fun e' => ?_⟩
  rw [PotentialPeerSet.mem_erase, h.same, entries_eq hdir]
  by_cases hkey : e'.databaseKey = e.databaseKey
  · rw [hkey, Finmap.lookup_erase, hlookup]
    refine iff_of_false ?_ nofun
    rintro ⟨hsame, hne⟩
    rw [Option.some.injEq] at hsame
    exact hne (congrArg PotentialPeerEntry.endpoint hsame).symm
  · rw [Finmap.lookup_erase_ne hkey]
    exact and_iff_left_of_imp fun he' hendpoint => hkey (hfile.unique _ _ _ _ he' hlookup hendpoint)

/-- An entry is stored in both, under the key of its endpoint or under an unused key. -/
theorem stored (h : db.Holds r) (hdir : db.leveldb.db = some dir) {u : PotentialPeerEntry} {k : Nat}
    (hk : k < 2 ^ 32)
    (hkey : ∀ k' e', (db.leveldb.contents dir).lookup k' = some e' → (e'.endpoint = u.endpoint ↔ k' = k))
    {s : PotentialPeerSet} (hs : ∀ e' : PotentialPeerDatabaseEntry, e' ∈ s.all ↔
      e' ∈ db.potentialPeerSet.all ∧ e'.getEndpoint ≠ u.endpoint ∨ e' = ⟨k, u⟩) :
    ∃ leveldb, db.leveldb.store k u = .ok leveldb ∧
      Holds ⟨leveldb, s⟩ (r.modify fun m => Function.update m u.endpoint (some u)) := by
  refine ⟨_, LevelMap.update_of_open hdir _,
    h.modified hdir ((h.files dir).insert hk hkey) fun e' => ?_⟩
  obtain ⟨k', u'⟩ := e'
  rw [hs, h.same, entries_eq hdir, PotentialPeerDatabaseEntry.mk.injEq]
  by_cases hk' : k' = k
  · subst hk'
    rw [Finmap.lookup_insert, Option.some.injEq]
    constructor
    · rintro (⟨hlookup, hne⟩ | ⟨-, rfl⟩)
      · exact absurd ((hkey _ _ hlookup).2 rfl) hne
      · rfl
    · rintro rfl
      exact .inr ⟨rfl, rfl⟩
  · rw [Finmap.lookup_insert_of_ne _ hk']
    constructor
    · rintro (⟨hlookup, -⟩ | ⟨hk, -⟩)
      · exact hlookup
      · exact absurd hk hk'
    · exact fun hlookup => .inl ⟨hlookup, fun hendpoint => hk' ((hkey _ _ hlookup).1 hendpoint)⟩

theorem erase (h : db.Holds r) (endpoint : Endpoint) :
    (db.erase endpoint).1.Holds (r.erase endpoint) := by
  unfold PeerDatabase.erase
  cases hfind : db.potentialPeerSet.find endpoint with
  | none =>
    have hnone : r.erase endpoint = r := by
      have hentry : r.entry endpoint = none := by
        rw [← h.lookup_eq, lookupEntryForEndpoint, hfind, Option.map_none]
      unfold Remembered.erase Remembered.modify
      cases hcurrent : r.current with
      | none => rfl
      | some dir =>
        have hdir : r.entries dir endpoint = none := by simpa [Remembered.entry, hcurrent] using hentry
        simp only
        rw [← hdir, Function.update_eq_self, Function.update_eq_self, ← hcurrent]
    rw [hnone]
    exact h
  | some e =>
    obtain ⟨leveldb, hremove, herased⟩ := h.erased hfind
    simp only
    rw [hremove]
    exact herased

/-- Pruning erases the entries one after the other. -/
theorem prune : ∀ {entries : List PotentialPeerDatabaseEntry} {db : PeerDatabase} {r : Remembered},
    db.Holds r → (∀ e ∈ entries, e ∈ db.potentialPeerSet.all) →
    (entries.map (·.getEndpoint)).Nodup → (PeerDatabase.prune db entries).2 = none ∧
      (PeerDatabase.prune db entries).1.Holds ((entries.map (·.getEndpoint)).foldl Remembered.erase r)
  | [], db, r, h, _, _ => ⟨rfl, h⟩
  | e :: entries, db, r, h, hmem, hnodup => by
    rw [List.map_cons, List.nodup_cons] at hnodup
    obtain ⟨leveldb, hremove, herased⟩ :=
      h.erased (PotentialPeerSet.find_eq_some.2 ⟨hmem e List.mem_cons_self, rfl⟩)
    unfold PeerDatabase.prune
    rw [hremove]
    refine prune herased (fun e' he' => ?_) hnodup.2
    refine PotentialPeerSet.mem_erase.2 ⟨hmem e' (List.mem_cons_of_mem e he'), fun hendpoint => ?_⟩
    exact hnodup.1 (List.mem_map.2 ⟨e', he', hendpoint⟩)

theorem «open» (h : db.Holds r) (dir : FilePath) :
    (db.open dir).1.Holds (((db.pruned (.open dir)).map (·.getEndpoint)).foldl Remembered.erase
      (r.open dir)) := by
  cases hdb : db.leveldb.db with
  | some dir' =>
    have hcurrent : r.current = some dir' := h.current.symm.trans hdb
    have hopen : r.open dir = r := by simp [Remembered.open, hcurrent]
    have herror := LevelMap.open_of_open hdb dir true
    simp only [PeerDatabase.open, pruned, herror, hopen]
    exact h
  | none =>
    have hcurrent : r.current = none := h.current.symm.trans hdb
    have hopen : r.open dir = { r with current := some dir } := by simp [Remembered.open, hcurrent]
    have hok : db.leveldb.open dir true = _ := LevelMap.open_of_closed hdb (.inr rfl)
    simp only [PeerDatabase.open, pruned, hok, hopen]
    set leveldb : LevelPodMap Nat PotentialPeerEntry :=
      ⟨Function.update db.leveldb.disk dir (some (db.leveldb.contents dir)), some dir⟩
    have hcontents : leveldb.contents = db.leveldb.contents :=
      (contents_setDisk (m := db.leveldb) _).trans (Function.update_eq_self dir _)
    have hentries : leveldb.entries = db.leveldb.contents dir := by
      have hopened : leveldb.db = some dir := rfl
      rw [LevelMap.entries_of_open hopened, hcontents]
    have hloaded : Holds ⟨leveldb, loaded leveldb⟩ { r with current := some dir } := by
      refine ⟨rfl, fun dir' => ?_, fun e => mem_loaded ?_⟩
      · rw [hcontents]
        exact h.files dir'
      · rw [hentries]
        exact (h.files dir).unique
    unfold load
    dsimp only
    split_ifs
    · change (PeerDatabase.prune _ ((loaded leveldb).all.drop maximumPeerdbSize)).1.Holds _
      refine (hloaded.prune (fun e he => List.mem_of_mem_drop he) ?_).2
      exact (loaded leveldb).unique.sublist ((List.drop_sublist _ _).map _)
    · exact hloaded

theorem newDatabaseKey_lt (unassigned : Nat) (last : Option Nat) :
    newDatabaseKey unassigned last < 2 ^ 32 :=
  Nat.mod_lt _ (by decide)

/-- The new key is in use exactly when the last key is the greatest and the first is stored. -/
theorem newDatabaseKey_mem_iff {t : Tab Nat PotentialPeerEntry} (hlt : ∀ k ∈ t, k < 2 ^ 32)
    (unassigned : Nat) : newDatabaseKey unassigned t.keys.max ∈ t ↔ 2 ^ 32 - 1 ∈ t ∧ 0 ∈ t := by
  cases hmax : t.keys.max with
  | bot =>
    rw [Finset.max_eq_bot] at hmax
    have hempty : ∀ k, k ∉ t := fun k hk => by simpa [hmax] using Finmap.mem_keys.2 hk
    exact iff_of_false (hempty _) fun h => hempty _ h.2
  | coe last =>
    have hlast : last ∈ t := Finmap.mem_keys.1 (Finset.mem_of_max hmax)
    have hle : ∀ k ∈ t, k ≤ last := fun k hk => Finset.le_max_of_eq (Finmap.mem_keys.2 hk) hmax
    have hbound := hlt last hlast
    change (last + 1) % 2 ^ 32 ∈ t ↔ _
    by_cases hgreatest : last = 2 ^ 32 - 1
    · subst hgreatest
      exact ⟨fun h => ⟨hlast, h⟩, And.right⟩
    · rw [Nat.mod_eq_of_lt (by omega)]
      refine iff_of_false (fun h => ?_) fun h => ?_
      · exact absurd (hle _ h) (by omega)
      · exact hgreatest (le_antisymm (by omega) (hle _ h.1))

theorem updateEntry (h : db.Holds r) (unassigned : Nat) (u : PotentialPeerEntry)
    (hfree : db.KeyIsFree (.updateEntry unassigned u)) :
    (db.updateEntry unassigned u).1.Holds (r.modify fun m => Function.update m u.endpoint (some u)) := by
  unfold PeerDatabase.updateEntry
  cases hfind : db.potentialPeerSet.find u.endpoint with
  | some e =>
    obtain ⟨dir, hdir, hlookup, hendpoint⟩ := h.found hfind
    have hfile := h.files dir
    have hkey : ∀ k' e', (db.leveldb.contents dir).lookup k' = some e' →
        (e'.endpoint = u.endpoint ↔ k' = e.databaseKey) := by
      intro k' e' hk'
      rw [← hendpoint]
      refine ⟨fun hsame => hfile.unique _ _ _ _ hk' hlookup hsame, ?_⟩
      rintro rfl
      rw [hlookup, Option.some.injEq] at hk'
      rw [hk']
    have hk := hfile.keys_lt e.databaseKey (Finmap.mem_of_lookup_eq_some hlookup)
    obtain ⟨leveldb, hstore, hstored⟩ := h.stored hdir hk hkey
      (s := db.potentialPeerSet.modify u) fun e' => by
        rw [PotentialPeerSet.mem_modify]
        refine or_congr_right ⟨?_, ?_⟩
        · rintro ⟨e₀, he₀, hendpoint₀, rfl⟩
          have hsame : e₀ = e := PotentialPeerSet.eq_of_endpoint he₀
            (PotentialPeerSet.find_eq_some.1 hfind).1 (hendpoint₀.trans hendpoint.symm)
          rw [hsame]
        · rintro rfl
          exact ⟨e, (PotentialPeerSet.find_eq_some.1 hfind).1, hendpoint, rfl⟩
    simp only
    rw [hstore]
    exact hstored
  | none =>
    have hnew := db.potentialPeerSet.find_eq_none.1 hfind
    cases hdb : db.leveldb.db with
    | none =>
      have hcurrent : r.current = none := h.current.symm.trans hdb
      have hclosed : LevelPodMap.last db.leveldb = .error .notOpen := by
        simp [LevelPodMap.last, LevelMap.isOpen, hdb]
      simp only [hclosed, Remembered.modify, hcurrent]
      exact h
    | some dir =>
      have hlast : LevelPodMap.last db.leveldb = .ok (db.leveldb.contents dir).keys.max := by
        simp [LevelPodMap.last, LevelMap.isOpen, hdb, LevelMap.entries]
      set k := newDatabaseKey unassigned (db.leveldb.contents dir).keys.max with hkdef
      have hunused : k ∉ db.leveldb.contents dir := by
        rw [hkdef, newDatabaseKey_mem_iff (h.files dir).keys_lt, not_and]
        have hfree := hfree hfind
        rwa [entries_eq hdb] at hfree
      have hkey : ∀ k' e', (db.leveldb.contents dir).lookup k' = some e' →
          (e'.endpoint = u.endpoint ↔ k' = k) := by
        intro k' e' hk'
        refine iff_of_false (fun hendpoint => ?_) ?_
        · have hmem : (⟨k', e'⟩ : PotentialPeerDatabaseEntry) ∈ db.potentialPeerSet.all := by
            rw [h.same, entries_eq hdb]
            exact hk'
          exact hnew _ hmem hendpoint
        · rintro rfl
          exact hunused (Finmap.mem_of_lookup_eq_some hk')
      obtain ⟨leveldb, hstore, hstored⟩ := h.stored hdb (newDatabaseKey_lt _ _) hkey
        (s := db.potentialPeerSet.insert ⟨k, u⟩) fun e' => by
          rw [PotentialPeerSet.mem_insert]
          refine or_congr (and_iff_left_of_imp fun he' => hnew e' he').symm ?_
          exact and_iff_left hfind
      simp only [hlast]
      rw [hstore]
      exact hstored

theorem lookup_foldl_erase (k : Nat) (keys : List Nat) (t : Tab Nat PotentialPeerEntry) :
    (keys.foldl (fun t key => t.erase key) t).lookup k = if k ∈ keys then none else t.lookup k := by
  have hwithout := without_foldl_erase (fun key => key) keys t k
  by_cases hk : k ∈ keys
  · rw [if_pos hk]
    exact hwithout.1 ⟨k, hk, rfl⟩
  · rw [if_neg hk]
    refine hwithout.2 ?_
    rintro ⟨key, hkey, rfl⟩
    exact hk hkey

/-- Removing keys one after the other does not throw. -/
theorem foldl_remove : ∀ (keys : List Nat) {m : LevelPodMap Nat PotentialPeerEntry}, m.db = some dir →
    (keys.foldl (fun m key => (m.remove key).toOption.getD m) m).db = some dir ∧
    (keys.foldl (fun m key => (m.remove key).toOption.getD m) m).contents =
      Function.update m.contents dir (keys.foldl (fun t key => t.erase key) (m.contents dir))
  | [], m, hdir => ⟨hdir, (Function.update_eq_self dir _).symm⟩
  | key :: keys, m, hdir => by
    have hremove : m.remove key = .ok (m.setDisk dir (some ((m.contents dir).erase key))) :=
      LevelMap.update_of_open hdir _
    have hopen : (m.setDisk dir (some ((m.contents dir).erase key))).db = some dir := hdir
    simp only [List.foldl_cons, hremove, Except.toOption, Option.getD_some]
    obtain ⟨hdb, hcontents⟩ := foldl_remove keys hopen
    refine ⟨hdb, hcontents.trans ?_⟩
    rw [contents_setDisk, Function.update_self, Function.update_idem]

theorem clear (h : db.Holds r) : db.clear.1.Holds (r.modify fun _ _ => none) := by
  unfold PeerDatabase.clear
  cases hdb : db.leveldb.db with
  | none =>
    have hcurrent : r.current = none := h.current.symm.trans hdb
    simp only [LevelMap.isOpen, hdb, Remembered.modify, hcurrent]
    exact h
  | some dir =>
    have hcurrent : r.current = some dir := h.current.symm.trans hdb
    obtain ⟨hopen, hcontents⟩ := foldl_remove (LevelPodMap.sortedKeys db.leveldb) hdb
    have hempty : (LevelPodMap.sortedKeys db.leveldb).foldl (fun t key => t.erase key)
        (db.leveldb.contents dir) = ∅ := by
      refine Finmap.ext_lookup fun k => ?_
      rw [lookup_foldl_erase, LevelPodMap.sortedKeys, entries_eq hdb]
      simp only [Finset.mem_sort, Finmap.mem_keys, Finmap.lookup_empty, ite_eq_left_iff]
      exact fun hk => Finmap.lookup_eq_none.2 hk
    rw [hempty] at hcontents
    simp only [LevelMap.isOpen, hdb, Option.isSome_some, if_true, Remembered.modify, hcurrent]
    refine ⟨hopen, fun dir' => ?_, fun e => ?_⟩
    · rw [hcontents]
      by_cases hdir' : dir' = dir
      · subst hdir'
        simpa using Represents.empty
      · simpa [hdir'] using h.files dir'
    · rw [LevelMap.entries_of_open hopen, hcontents, Function.update_self]
      simp

theorem close (h : db.Holds r) : db.close.Holds { r with current := none } where
  current := rfl
  files := h.files
  same e := by
    change e ∈ PotentialPeerSet.empty.all ↔ (∅ : Tab Nat PotentialPeerEntry).lookup _ = _
    simp

/-- A call that gives a free key to a new entry keeps what holds. -/
theorem call (h : db.Holds r) (c : PeerCall) (hfree : db.KeyIsFree c) :
    (db.call c).1.Holds (r.call ((db.pruned c).map (·.getEndpoint)) c) := by
  cases c with
  | «open» dir => exact h.open dir
  | updateEntry unassigned u => exact h.updateEntry unassigned u hfree
  | erase endpoint => exact h.erase endpoint
  | clear => exact h.clear
  | close => exact h.close

/-- After a call that gives the key of another entry to a new one, two entries in memory have it. -/
theorem not_consistent (h : db.Holds r) {c : PeerCall} (hused : ¬ db.KeyIsFree c) (r' : Remembered) :
    ¬ (db.call c).1.Consistent r' := by
  cases c with
  | updateEntry unassigned u =>
    simp only [KeyIsFree, Classical.not_imp, not_not] at hused
    obtain ⟨hfind, hgreatest, hzero⟩ := hused
    obtain ⟨dir, hdb⟩ : ∃ dir, db.leveldb.db = some dir := by
      cases hdb : db.leveldb.db with
      | none =>
        have hempty : db.leveldb.entries = ∅ := by simp [LevelMap.entries, hdb]
        rw [hempty] at hzero
        exact absurd hzero Finmap.notMem_empty
      | some dir => exact ⟨dir, rfl⟩
    rw [entries_eq hdb] at hgreatest hzero
    have hlast : LevelPodMap.last db.leveldb = .ok (db.leveldb.contents dir).keys.max := by
      simp [LevelPodMap.last, LevelMap.isOpen, hdb, LevelMap.entries]
    set k := newDatabaseKey unassigned (db.leveldb.contents dir).keys.max
    obtain ⟨e, hlookup⟩ := Finmap.mem_iff.1
      ((newDatabaseKey_mem_iff (h.files dir).keys_lt unassigned).2 ⟨hgreatest, hzero⟩)
    have hmem : (⟨k, e⟩ : PotentialPeerDatabaseEntry) ∈ db.potentialPeerSet.all := by
      rw [h.same, entries_eq hdb]
      exact hlookup
    have hset : (db.call (.updateEntry unassigned u)).1.potentialPeerSet =
        db.potentialPeerSet.insert ⟨k, u⟩ := by
      change (db.updateEntry unassigned u).1.potentialPeerSet = _
      unfold PeerDatabase.updateEntry
      simp only [hfind, hlast, LevelMap.store, LevelMap.update_of_open hdb]
      rfl
    intro hconsistent
    have hkeys := hconsistent.keys
    rw [hset] at hkeys
    have hsame := List.inj_on_of_nodup_map hkeys (PotentialPeerSet.mem_insert.2 (.inl hmem))
      (PotentialPeerSet.mem_insert.2 (.inr ⟨rfl, hfind⟩)) rfl
    have hendpoint := db.potentialPeerSet.find_eq_none.1 hfind _ hmem
    rw [hsame] at hendpoint
    exact hendpoint rfl
  | «open» _ => exact absurd trivial hused
  | erase _ => exact absurd trivial hused
  | clear => exact absurd trivial hused
  | close => exact absurd trivial hused

end Holds

/-- The database and what it should remember. -/
def step (x : PeerDatabase × Remembered) (c : PeerCall) : PeerDatabase × Remembered :=
  ((x.1.call c).1, x.2.call ((x.1.pruned c).map (·.getEndpoint)) c)

/-- A database that has just been constructed, with no files. -/
def fresh : PeerDatabase × Remembered := (start fun _ => none, ⟨fun _ _ => none, none⟩)

/-- Over any calls, memory and disk stay consistent if and only if every new entry gets a free key. -/
theorem consistent_iff_keys_free (calls : List PeerCall) :
    (∀ before after, calls = before ++ after →
        (run step fresh before).1.Consistent (run step fresh before).2) ↔
      Along step (fun x c => x.1.KeyIsFree c) fresh calls :=
  forall_iff_along (I := fun x : PeerDatabase × Remembered => x.1.Holds x.2)
    (P := fun x : PeerDatabase × Remembered => x.1.Consistent x.2)
    (fun _ h => h.consistent) (fun _ c h hfree => h.call c hfree)
    (fun _ _ h hused => h.not_consistent hused _) Holds.start calls

section Example

def peerFile : FilePath := ['p']

/-- Three peers in an empty database, whose first key is the greatest. -/
def threePeers : List PeerCall :=
  [.open peerFile, .updateEntry (2 ^ 32 - 2) (.new ⟨1, 8000⟩ 100),
    .updateEntry 0 (.new ⟨2, 8000⟩ 200), .updateEntry 0 (.new ⟨3, 8000⟩ 300)]

/-- The second and the third peer have the key `0`. -/
theorem peer_keys_clash :
    ¬ (run step fresh threePeers).1.Consistent (run step fresh threePeers).2 := by
  intro h
  have hkeys := h.keys
  revert hkeys
  decide +kernel

end Example

end PeerDatabase

end Achain.Net
