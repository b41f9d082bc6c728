import Achain.Proofs.PeerDatabase

/-!
# What is pruned when the peer database is opened

The entries erased when there are too many are those behind the first thousand in the order in which the
peers were seen last: the peers seen latest go.
-/

namespace Achain.Net

open Table Db

namespace PeerDatabase

variable {db : PeerDatabase} {dir : FilePath} {e e' : PotentialPeerDatabaseEntry}
  {leveldb : LevelPodMap Nat PotentialPeerEntry}

/-! ## What is read -/

theorem lookup_of_mem_loaded (h : e ∈ (loaded leveldb).all) :
    leveldb.entries.lookup e.databaseKey = some e.peerEntry :=
  mem_stored.1 ((PotentialPeerSet.mem_of_mem_foldl_insert h).resolve_left List.not_mem_nil)

theorem eq_of_databaseKey (h : e ∈ (loaded leveldb).all) (h' : e' ∈ (loaded leveldb).all)
    (hkey : e.databaseKey = e'.databaseKey) : e = e' := by
  have hlookup := lookup_of_mem_loaded h
  rw [hkey, lookup_of_mem_loaded h', Option.some.injEq] at hlookup
  obtain ⟨key, entry⟩ := e
  obtain ⟨key', entry'⟩ := e'
  simp only at hkey hlookup
  rw [hkey, hlookup]

theorem nodup_loaded : (loaded leveldb).all.Nodup := (loaded leveldb).unique.of_map

theorem nodup_keys_loaded : ((loaded leveldb).all.map (·.databaseKey)).Nodup :=
  nodup_loaded.map_on fun _ h _ h' hkey => eq_of_databaseKey h h' hkey

theorem keys_loaded_subset :
    ((loaded leveldb).all.map (·.databaseKey)).toFinset ⊆ leveldb.entries.keys := by
  intro k hk
  obtain ⟨e, he, rfl⟩ := List.mem_map.1 (List.mem_toFinset.1 hk)
  exact Finmap.mem_keys.2 (Finmap.mem_of_lookup_eq_some (lookup_of_mem_loaded he))

theorem card_keys_loaded :
    ((loaded leveldb).all.map (·.databaseKey)).toFinset.card = (loaded leveldb).all.length := by
  rw [List.toFinset_card_of_nodup nodup_keys_loaded, List.length_map]

theorem length_loaded_le : (loaded leveldb).all.length ≤ leveldb.entries.keys.card := by
  rw [← card_keys_loaded]
  exact Finset.card_le_card keys_loaded_subset

/-- No two entries of a table have an endpoint in common. -/
def UniqueEndpoints (t : Tab Nat PotentialPeerEntry) : Prop :=
  ∀ k k' e e', t.lookup k = some e → t.lookup k' = some e' → e.endpoint = e'.endpoint → k = k'

/-- All entries are read exactly when their endpoints are different. -/
theorem length_loaded_eq_iff :
    (loaded leveldb).all.length = leveldb.entries.keys.card ↔ UniqueEndpoints leveldb.entries := by
  constructor
  · intro hlength
    have hcard : leveldb.entries.keys.card ≤
        ((loaded leveldb).all.map (·.databaseKey)).toFinset.card := by
      rw [card_keys_loaded, hlength]
    have hkeys := Finset.eq_of_subset_of_card_le keys_loaded_subset hcard
    have hread : ∀ k e, leveldb.entries.lookup k = some e →
        (⟨k, e⟩ : PotentialPeerDatabaseEntry) ∈ (loaded leveldb).all := by
      intro k e hlookup
      have hk := Finmap.mem_keys.2 (Finmap.mem_of_lookup_eq_some hlookup)
      rw [← hkeys, List.mem_toFinset, List.mem_map] at hk
      obtain ⟨⟨k', e'⟩, hmem, rfl⟩ := hk
      have hsame := lookup_of_mem_loaded hmem
      rw [hlookup, Option.some.injEq] at hsame
      rwa [hsame]
    intro k k' e e' h h' hendpoint
    have hsame := PotentialPeerSet.eq_of_endpoint (hread k e h) (hread k' e' h') hendpoint
    exact congrArg PotentialPeerDatabaseEntry.databaseKey hsame
  · intro hunique
    rw [← card_keys_loaded]
    refine congrArg Finset.card (Finset.Subset.antisymm keys_loaded_subset fun k hk => ?_)
    obtain ⟨e, he⟩ := Finmap.mem_iff.1 (Finmap.mem_keys.1 hk)
    rw [List.mem_toFinset, List.mem_map]
    exact ⟨⟨k, e⟩, (mem_loaded hunique).2 he, rfl⟩

/-! ## What is pruned -/

theorem prune_of_open : ∀ (entries : List PotentialPeerDatabaseEntry) (db : PeerDatabase),
    db.leveldb.db = some dir →
    (prune db entries).1.leveldb.contents = Function.update db.leveldb.contents dir
      ((entries.map (·.databaseKey)).foldl (fun t key => t.erase key) (db.leveldb.contents dir)) ∧
    (prune db entries).1.potentialPeerSet.all =
      db.potentialPeerSet.all.filter fun e => e.getEndpoint ∉ entries.map (·.getEndpoint)
  | [], db, _ => ⟨(Function.update_eq_self dir _).symm, by simp [prune]⟩
  | e :: entries, db, hdir => by
    obtain ⟨leveldb, hremove, hopen, hleveldb⟩ : ∃ leveldb,
        db.leveldb.remove e.databaseKey = .ok leveldb ∧ leveldb.db = some dir ∧ leveldb.contents =
          Function.update db.leveldb.contents dir ((db.leveldb.contents dir).erase e.databaseKey) :=
      ⟨_, LevelMap.update_of_open hdir _, hdir, Holds.contents_setDisk _⟩
    unfold prune
    rw [hremove]
    have ih := prune_of_open entries ⟨leveldb, db.potentialPeerSet.erase e.getEndpoint⟩ hopen
    refine ⟨ih.1.trans ?_, ih.2.trans ?_⟩
    · simp only [hleveldb, Function.update_self, Function.update_idem]
      rfl
    · change (List.filter _ _).filter _ = _
      rw [List.filter_filter]
      refine List.filter_congr fun e' _ => ?_
      rw [Bool.eq_iff_iff]
      simp [and_comm]

theorem filter_drop_eq_take (s : PotentialPeerSet) (n : Nat) :
    (s.all.filter fun e => e.getEndpoint ∉ (s.all.drop n).map (·.getEndpoint)) = s.all.take n := by
  have hunique := s.unique
  change (s.all.map (·.getEndpoint)).Nodup at hunique
  rw [← List.take_append_drop n s.all, List.map_append, List.nodup_append] at hunique
  have hsplit : s.all = s.all.take n ++ s.all.drop n := (List.take_append_drop n s.all).symm
  generalize s.all.take n = kept at *
  generalize s.all.drop n = pruned at *
  rw [hsplit, List.filter_append, List.filter_eq_self.2, List.filter_eq_nil_iff.2, List.append_nil]
  · intro e he
    simpa using ⟨e, he, rfl⟩
  · intro e he
    refine decide_eq_true fun hpruned => ?_
    exact hunique.2.2 _ (List.mem_map.2 ⟨e, he, rfl⟩) _ hpruned rfl

/-! ## Opening a large database -/

/-- A closed database whose file has too many entries. -/
structure LargeDatabase (dir : FilePath) where
  db : PeerDatabase
  closed : db.leveldb.db = none
  large : maximumPeerdbSize < (db.leveldb.contents dir).keys.card

/-- The database has as many entries as it may in memory and on disk, and of those of a table none that
was seen later than one kept was removed. -/
structure KeepsFreshest (t : Tab Nat PotentialPeerEntry) (dir : FilePath) (db : PeerDatabase) :
    Prop where
  memory : db.potentialPeerSet.size = maximumPeerdbSize
  disk : (db.leveldb.contents dir).keys.card = maximumPeerdbSize
  freshest : ∀ k e k' e', t.lookup k = some e → (db.leveldb.contents dir).lookup k = none →
    (db.leveldb.contents dir).lookup k' = some e' → e.lastSeenTime ≤ e'.lastSeenTime

/-- All peers were seen last at one time. -/
def SameLastSeenTime (t : Tab Nat PotentialPeerEntry) : Prop :=
  ∀ k k' e e', t.lookup k = some e → t.lookup k' = some e' → e.lastSeenTime = e'.lastSeenTime

namespace LargeDatabase

variable (d : LargeDatabase dir)

/-- The entries in the file. -/
def table : Tab Nat PotentialPeerEntry := d.db.leveldb.contents dir

/-- The file when it has been opened. -/
def opened : LevelPodMap Nat PotentialPeerEntry :=
  ⟨Function.update d.db.leveldb.disk dir (some d.table), some dir⟩

/-- The entries read from the file. -/
def read : PotentialPeerSet := loaded d.opened

@[simp] theorem contents_opened : d.opened.contents dir = d.table := by
  simp [opened, LevelMap.contents]

@[simp] theorem entries_opened : d.opened.entries = d.table := by
  have hopen : d.opened.db = some dir := rfl
  rw [LevelMap.entries_of_open hopen, contents_opened]

theorem length_read_eq_iff : d.read.all.length = d.table.keys.card ↔ UniqueEndpoints d.table := by
  rw [read, ← entries_opened]
  exact length_loaded_eq_iff

theorem length_read_le : d.read.all.length ≤ d.table.keys.card := by
  rw [read, ← entries_opened]
  exact length_loaded_le

theorem lookup_of_mem_read {e : PotentialPeerDatabaseEntry} (h : e ∈ d.read.all) :
    d.table.lookup e.databaseKey = some e.peerEntry := by
  rw [← entries_opened]
  exact lookup_of_mem_loaded h

/-- The keys pruned. -/
def prunedKeys : List Nat := (d.read.all.drop maximumPeerdbSize).map (·.databaseKey)

/-- What the file holds after it was opened, if more than the maximum was read. -/
theorem open_of_lt (h : maximumPeerdbSize < d.read.all.length) :
    (d.db.open dir).1.leveldb.contents dir = d.prunedKeys.foldl (fun t key => t.erase key) d.table ∧
      (d.db.open dir).1.potentialPeerSet.all = d.read.all.take maximumPeerdbSize := by
  have hok : d.db.leveldb.open dir true = .ok d.opened :=
    LevelMap.open_of_closed d.closed (.inr rfl)
  have hopen : (d.db.open dir).1 = (prune ⟨d.opened, d.read⟩ (d.read.all.drop maximumPeerdbSize)).1 := by
    unfold PeerDatabase.open load
    rw [hok]
    exact congrArg Prod.fst (if_pos h)
  have hdir : d.opened.db = some dir := rfl
  obtain ⟨hcontents, hall⟩ := prune_of_open (d.read.all.drop maximumPeerdbSize)
    ⟨d.opened, d.read⟩ hdir
  rw [hopen, hcontents, hall, filter_drop_eq_take, Function.update_self, contents_opened]
  exact ⟨rfl, rfl⟩

theorem open_of_not_lt (h : ¬ maximumPeerdbSize < d.read.all.length) :
    (d.db.open dir).1.leveldb.contents dir = d.table := by
  have hok : d.db.leveldb.open dir true = .ok d.opened :=
    LevelMap.open_of_closed d.closed (.inr rfl)
  have hopen : (d.db.open dir).1 = ⟨d.opened, d.read⟩ := by
    unfold PeerDatabase.open load
    rw [hok]
    exact congrArg Prod.fst (if_neg h)
  rw [hopen, contents_opened]

theorem prunedKeys_nodup : d.prunedKeys.Nodup :=
  nodup_keys_loaded.sublist ((List.drop_sublist _ _).map _)

theorem prunedKeys_subset : d.prunedKeys.toFinset ⊆ d.table.keys := by
  rw [← entries_opened]
  refine subset_trans (fun k hk => ?_) keys_loaded_subset
  rw [List.mem_toFinset] at hk ⊢
  exact ((List.drop_sublist _ _).map _).subset hk

/-- As many entries are left in the file as may be exactly when all were read. -/
theorem card_open_eq_iff (h : maximumPeerdbSize < d.read.all.length) :
    ((d.db.open dir).1.leveldb.contents dir).keys.card = maximumPeerdbSize ↔ UniqueEndpoints d.table := by
  have hkeys : (d.prunedKeys.foldl (fun t key => t.erase key) d.table).keys =
      d.table.keys \ d.prunedKeys.toFinset := by
    ext k
    rw [Finset.mem_sdiff, List.mem_toFinset, Finmap.mem_keys, Finmap.mem_keys, Finmap.mem_iff,
      Finmap.mem_iff, Holds.lookup_foldl_erase]
    split_ifs with hk <;> simp [hk]
  have hlength : d.prunedKeys.length = d.read.all.length - maximumPeerdbSize := by
    rw [prunedKeys, List.length_map, List.length_drop]
  have hle := d.length_read_le
  rw [(d.open_of_lt h).1, hkeys, Finset.card_sdiff_of_subset d.prunedKeys_subset,
    List.toFinset_card_of_nodup d.prunedKeys_nodup, hlength, ← length_read_eq_iff]
  omega

/-- The file is left with too many entries when some were not read. -/
theorem uniqueEndpoints_of_card (h : ((d.db.open dir).1.leveldb.contents dir).keys.card = maximumPeerdbSize) :
    UniqueEndpoints d.table := by
  by_cases hlt : maximumPeerdbSize < d.read.all.length
  · exact (d.card_open_eq_iff hlt).1 h
  · have hlarge := d.large
    rw [d.open_of_not_lt hlt] at h
    exact absurd h hlarge.ne'

variable {d}

section Unique

variable (h : UniqueEndpoints d.table)

include h

theorem lt_length_read : maximumPeerdbSize < d.read.all.length := by
  rw [d.length_read_eq_iff.2 h]
  exact d.large

theorem mem_read_iff {e : PotentialPeerDatabaseEntry} :
    e ∈ d.read.all ↔ d.table.lookup e.databaseKey = some e.peerEntry := by
  rw [← entries_opened] at h ⊢
  exact mem_loaded h

theorem lookup_kept {e : PotentialPeerDatabaseEntry} (he : e ∈ d.read.all.take maximumPeerdbSize) :
    ((d.db.open dir).1.leveldb.contents dir).lookup e.databaseKey = some e.peerEntry := by
  have hnot : e.databaseKey ∉ d.prunedKeys := by
    intro hpruned
    obtain ⟨e', he', hkey⟩ := List.mem_map.1 hpruned
    have hsame : e' = e := eq_of_databaseKey (List.mem_of_mem_drop he') (List.mem_of_mem_take he) hkey
    have hnodup : d.read.all.Nodup := nodup_loaded
    rw [← List.take_append_drop maximumPeerdbSize d.read.all, List.nodup_append] at hnodup
    exact hnodup.2.2 e he e' he' hsame.symm
  rw [(d.open_of_lt (lt_length_read h)).1, Holds.lookup_foldl_erase, if_neg hnot]
  exact d.lookup_of_mem_read (List.mem_of_mem_take he)

theorem lookup_pruned {e : PotentialPeerDatabaseEntry} (he : e ∈ d.read.all.drop maximumPeerdbSize) :
    ((d.db.open dir).1.leveldb.contents dir).lookup e.databaseKey = none := by
  have hpruned : e.databaseKey ∈ d.prunedKeys := List.mem_map.2 ⟨e, he, rfl⟩
  rw [(d.open_of_lt (lt_length_read h)).1, Holds.lookup_foldl_erase, if_pos hpruned]

/-- What is pruned was seen no earlier than what is kept, so that it was seen at the same time if none of
it was seen later. -/
theorem sameLastSeenTime_of_keepsFreshest (hkeeps : KeepsFreshest d.table dir (d.db.open dir).1) :
    SameLastSeenTime d.table := by
  have hlt := lt_length_read h
  have heq : ∀ a ∈ d.read.all.take maximumPeerdbSize, ∀ b ∈ d.read.all.drop maximumPeerdbSize,
      a.peerEntry.lastSeenTime = b.peerEntry.lastSeenTime := by
    intro a ha b hb
    have hb' := d.lookup_of_mem_read (List.mem_of_mem_drop hb)
    have hle : a.getLastSeenTime ≤ b.getLastSeenTime :=
      ByKey.KeyMultiset.le_of_mem_take_of_mem_drop ha hb
    exact le_antisymm hle (hkeeps.freshest _ _ _ _ hb' (lookup_pruned h hb) (lookup_kept h ha))
  obtain ⟨a₀, ha₀⟩ : ∃ a, a ∈ d.read.all.take maximumPeerdbSize := by
    refine List.exists_mem_of_length_pos ?_
    rw [List.length_take, min_eq_left hlt.le]
    decide
  obtain ⟨b₀, hb₀⟩ : ∃ b, b ∈ d.read.all.drop maximumPeerdbSize := by
    refine List.exists_mem_of_length_pos ?_
    rw [List.length_drop]
    omega
  have hall : ∀ e ∈ d.read.all, e.peerEntry.lastSeenTime = b₀.peerEntry.lastSeenTime := by
    intro e he
    rw [← List.take_append_drop maximumPeerdbSize d.read.all, List.mem_append] at he
    obtain he | he := he
    · exact heq e he b₀ hb₀
    · exact (heq a₀ ha₀ e he).symm.trans (heq a₀ ha₀ b₀ hb₀)
  intro k k' e e' hk hk'
  have he : (⟨k, e⟩ : PotentialPeerDatabaseEntry) ∈ d.read.all := (mem_read_iff h).2 hk
  have he' : (⟨k', e'⟩ : PotentialPeerDatabaseEntry) ∈ d.read.all := (mem_read_iff h).2 hk'
  exact (hall _ he).trans (hall _ he').symm

theorem keepsFreshest_of_sameLastSeenTime (hsame : SameLastSeenTime d.table) :
    KeepsFreshest d.table dir (d.db.open dir).1 := by
  have hlt := lt_length_read h
  refine ⟨?_, (d.card_open_eq_iff hlt).2 h, fun k e k' e' hk _ hk' => ?_⟩
  · change (d.db.open dir).1.potentialPeerSet.all.length = _
    rw [(d.open_of_lt hlt).2, List.length_take, min_eq_left hlt.le]
  · rw [(d.open_of_lt hlt).1, Holds.lookup_foldl_erase] at hk'
    split_ifs at hk'
    exact (hsame k k' e e' hk hk').le

end Unique

variable (d) in
/-- Opening keeps the freshest entries exactly where no two entries have an endpoint in common and all
peers were seen last at one time. -/
theorem keepsFreshest_iff : KeepsFreshest d.table dir (d.db.open dir).1 ↔
    UniqueEndpoints d.table ∧ SameLastSeenTime d.table := by
  constructor
  · intro hkeeps
    have hunique := d.uniqueEndpoints_of_card hkeeps.disk
    exact ⟨hunique, sameLastSeenTime_of_keepsFreshest hunique hkeeps⟩
  · rintro ⟨hunique, hsame⟩
    exact keepsFreshest_of_sameLastSeenTime hunique hsame

end LargeDatabase

section Example

/-- The entries of some peers, seen one after the other. -/
def peersSeen : Nat → Tab Nat PotentialPeerEntry
  | 0 => ∅
  | n + 1 => (peersSeen n).insert n (.new ⟨n, 8000⟩ n)

theorem lookup_peersSeen (k : Nat) : ∀ n, (peersSeen n).lookup k =
    if k < n then some (.new ⟨k, 8000⟩ k) else none
  | 0 => by simp [peersSeen]
  | n + 1 => by
    rw [peersSeen]
    by_cases hk : k = n
    · subst hk
      simp
    · rw [Finmap.lookup_insert_of_ne _ hk, lookup_peersSeen k n]
      exact if_congr (by omega) rfl rfl

theorem keys_peersSeen (n : Nat) : (peersSeen n).keys = Finset.range n := by
  ext k
  rw [Finmap.mem_keys, Finmap.mem_iff, Finset.mem_range, lookup_peersSeen]
  split_ifs with hk <;> simp [hk]

/-- A closed database with the entries of 1001 peers in its file. -/
def largePeerFile : LargeDatabase peerFile where
  db := start fun _ => some (peersSeen 1001)
  closed := rfl
  large := by
    change maximumPeerdbSize < (peersSeen 1001).keys.card
    rw [keys_peersSeen, Finset.card_range]
    decide

/-- The peer seen last is removed. -/
theorem removes_freshest_peer :
    ¬ KeepsFreshest largePeerFile.table peerFile (largePeerFile.db.open peerFile).1 := by
  have htable : largePeerFile.table = peersSeen 1001 := rfl
  intro hkeeps
  have hunique := largePeerFile.uniqueEndpoints_of_card hkeeps.disk
  have hsame := LargeDatabase.sameLastSeenTime_of_keepsFreshest hunique hkeeps
  rw [htable] at hsame
  have htimes := hsame 0 1 _ _ (lookup_peersSeen 0 1001) (lookup_peersSeen 1 1001)
  exact absurd htimes (by decide)

end Example

end PeerDatabase

end Achain.Net
