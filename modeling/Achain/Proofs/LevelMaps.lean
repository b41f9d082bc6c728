import Achain.Db.LevelMap
import Achain.Lib.Traces

/-!
# The level maps lose nothing

A map that keeps its entries in memory mirrors the files: its cache has the entries of the open file,
and the disk has them once the dirty keys are written. Every call keeps this, if nothing is stored or
removed while no file is open.
-/

namespace Achain.Db

open Table Traces

variable {K V : Type}

/-! ## Batches -/

section Batches

variable [DecidableEq K] {cache : Tab K V}

theorem storesOf_total : ∀ {keys : List K}, (∀ key ∈ keys, key ∈ cache) →
    (CachedLevelMap.storesOf cache keys).2 = none ∧
      ∀ (t : Tab K V) (k : K),
        ((CachedLevelMap.storesOf cache keys).1.foldl BatchWrite.apply t).lookup k =
          if k ∈ keys then cache.lookup k else t.lookup k
  | [], _ => ⟨rfl, fun t k => by simp [CachedLevelMap.storesOf]⟩
  | key :: keys, h => by
    obtain ⟨value, hvalue⟩ := Finmap.mem_iff.1 (h key List.mem_cons_self)
    obtain ⟨hnone, hlookup⟩ := storesOf_total fun k hk => h k (List.mem_cons_of_mem key hk)
    simp only [CachedLevelMap.storesOf, hvalue]
    refine ⟨hnone, fun t k => ?_⟩
    rw [List.foldl_cons, hlookup, BatchWrite.apply]
    by_cases hk : k ∈ keys
    · simp [hk]
    · by_cases hkey : k = key
      · subst hkey
        simp [hk, hvalue]
      · simp [hk, hkey, Finmap.lookup_insert_of_ne]

theorem lookup_removes (k : K) : ∀ (keys : List K) (t : Tab K V),
    ((keys.map BatchWrite.remove).foldl BatchWrite.apply t).lookup k =
      if k ∈ keys then none else t.lookup k
  | [], t => by simp
  | key :: keys, t => by
    rw [List.map_cons, List.foldl_cons, lookup_removes k keys, BatchWrite.apply]
    by_cases hkey : k = key
    · subst hkey
      simp
    · simp [hkey, Finmap.lookup_erase_ne]

end Batches

/-! ## Files -/

namespace LevelMap

variable {m : LevelMap K V} {dir : FilePath}

theorem update_of_open (h : m.db = some dir) (f : Tab K V → Tab K V) :
    m.update f = .ok (m.setDisk dir (some (f (m.contents dir)))) := by
  simp [update, h]

theorem update_of_closed (h : m.db = none) (f : Tab K V → Tab K V) :
    m.update f = .error .notOpen := by
  simp [update, h]

theorem open_of_open (h : m.db = some dir) (dir' : FilePath) (create : Bool) :
    m.open dir' create = .error .alreadyOpen := by
  simp [LevelMap.open, isOpen, h]

theorem open_of_missing (h : m.db = none) (hmissing : m.disk dir = none) :
    m.open dir false = .error .levelMapOpenFailure := by
  simp [LevelMap.open, isOpen, h, hmissing]

theorem open_of_closed (h : m.db = none) {create : Bool}
    (hexists : m.disk dir ≠ none ∨ create = true) :
    m.open dir create =
      .ok { disk := Function.update m.disk dir (some (m.contents dir)), db := some dir } := by
  rcases hexists with hsome | rfl
  · simp [LevelMap.open, isOpen, h, hsome]
  · simp [LevelMap.open, isOpen, h]

@[simp] theorem contents_setDisk (t : Tab K V) : (m.setDisk dir (some t)).contents dir = t := by
  simp [setDisk, contents]

theorem entries_of_open (h : m.db = some dir) : m.entries = m.contents dir := by
  simp [entries, h]

theorem contents_of_disk {t : Tab K V} (h : m.disk dir = some t) : m.contents dir = t := by
  simp [contents, h]

end LevelMap

namespace Files

variable {f : Files K V} {dir : FilePath}

theorem modify_of_open (h : f.current = some dir) (g : Tab K V → Tab K V) :
    f.modify g =
      { f with files := Function.update f.files dir (some (g ((f.files dir).getD ∅))) } := by
  simp [modify, h]

theorem modify_of_closed (h : f.current = none) (g : Tab K V → Tab K V) : f.modify g = f := by
  simp [modify, h]

theorem open_of_open (h : f.current = some dir) (dir' : FilePath) (create : Bool) :
    f.open dir' create = f := by
  simp [Files.open, h]

theorem open_of_missing (h : f.current = none) (hmissing : f.files dir = none) :
    f.open dir false = f := by
  simp [Files.open, h, hmissing]

theorem open_of_closed (h : f.current = none) {create : Bool}
    (hexists : f.files dir ≠ none ∨ create = true) :
    f.open dir create =
      { files := Function.update f.files dir (some ((f.files dir).getD ∅)), current := some dir } := by
  rcases hexists with hsome | rfl
  · simp [Files.open, h, hsome]
  · simp [Files.open, h]

theorem entries_of_closed (h : f.current = none) : f.entries = ∅ := by
  simp [entries, h]

theorem entries_modify (h : f.current = some dir) (g : Tab K V → Tab K V) :
    (f.modify g).entries = g f.entries := by
  simp [modify_of_open h, entries, h]

end Files

/-! ## The cached map -/

namespace CachedLevelMap

variable [DecidableEq K] {m : CachedLevelMap K V} {f : Files K V}

/-- The entries on disk once the keys that are marked are stored and removed. -/
def updatedDisk (m : CachedLevelMap K V) : Tab K V :=
  ((storesOf m.cache m.dirtyStore).1 ++ m.dirtyRemove.map BatchWrite.remove).foldl BatchWrite.apply
    m.db.entries

/-- The map holds what the files do. -/
structure Mirrors (m : CachedLevelMap K V) (f : Files K V) : Prop where
  current : m.db.db = f.current
  cache : m.cache = f.entries
  elsewhere : ∀ dir, f.current ≠ some dir → m.db.disk dir = f.files dir
  exists_file : ∀ dir, f.current = some dir → (m.db.disk dir).isSome ∧ (f.files dir).isSome
  clean : ∀ key, key ∉ m.dirtyStore → key ∉ m.dirtyRemove →
    m.db.entries.lookup key = m.cache.lookup key
  stored : ∀ key ∈ m.dirtyStore, key ∈ m.cache
  removed : ∀ key ∈ m.dirtyRemove, key ∉ m.cache
  nodup : m.dirtyStore.Nodup ∧ m.dirtyRemove.Nodup
  settled : m.writeThrough = true ∨ f.current = none → m.dirtyStore = [] ∧ m.dirtyRemove = []

theorem Mirrors.updatedDisk_eq (h : m.Mirrors f) : m.updatedDisk = m.cache := by
  refine Finmap.ext_lookup fun key => ?_
  rw [updatedDisk, List.foldl_append, lookup_removes, (storesOf_total h.stored).2]
  by_cases hremove : key ∈ m.dirtyRemove
  · rw [if_pos hremove, Finmap.lookup_eq_none.2 (h.removed key hremove)]
  · rw [if_neg hremove]
    by_cases hstore : key ∈ m.dirtyStore
    · rw [if_pos hstore]
    · rw [if_neg hstore, h.clean key hstore hremove]

/-- Nothing is stored while no file is open, and a removal then has to throw. -/
def Allowed (m : CachedLevelMap K V) : CachedCall K V → Prop
  | .store _ _ => m.db.isOpen
  | .remove _ => m.db.isOpen ∨ m.writeThrough
  | _ => True

theorem mirrors_start (disk : FilePath → Option (Tab K V)) : (start disk).Mirrors ⟨disk, none⟩ where
  current := rfl
  cache := rfl
  elsewhere _ _ := rfl
  exists_file _ h := nomatch h
  clean _ _ _ := rfl
  stored _ h := nomatch h
  removed _ h := nomatch h
  nodup := ⟨.nil, .nil⟩
  settled _ := ⟨rfl, rfl⟩

/-- A flush writes the cache to the open file. -/
theorem Mirrors.flush_of_open (h : m.Mirrors f) {dir : FilePath} (hdir : f.current = some dir) :
    m.flush = ({ m with
      db := m.db.setDisk dir (some m.cache), dirtyStore := [], dirtyRemove := [] }, none) := by
  have hopen : m.db.db = some dir := h.current.trans hdir
  have hbatch := h.updatedDisk_eq
  rw [updatedDisk, LevelMap.entries_of_open hopen] at hbatch
  simp only [flush, (storesOf_total h.stored).1, LevelMap.commit, LevelMap.update_of_open hopen,
    hbatch]

theorem Mirrors.flush_of_closed (h : m.Mirrors f) (hclosed : f.current = none) :
    m.flush = (m, some .notOpen) := by
  have hdb : m.db.db = none := h.current.trans hclosed
  simp only [flush, (storesOf_total h.stored).1, LevelMap.commit, LevelMap.update_of_closed hdb]

/-- The map with the cache written to the open file. -/
theorem Mirrors.flushed (h : m.Mirrors f) {dir : FilePath} (hdir : f.current = some dir)
    (writeThrough : Bool) :
    Mirrors { m with
      db := m.db.setDisk dir (some m.cache)
      dirtyStore := []
      dirtyRemove := []
      writeThrough := writeThrough } f where
  current := h.current
  cache := h.cache
  elsewhere dir' hne := by
    have hdir' : dir' ≠ dir := fun e => hne (e ▸ hdir)
    simp [LevelMap.setDisk, Function.update_of_ne hdir', h.elsewhere dir' hne]
  exists_file dir' hdir' := by
    obtain rfl : dir = dir' := Option.some.inj (hdir.symm.trans hdir')
    simp [LevelMap.setDisk, (h.exists_file dir hdir).2]
  clean key _ _ := by
    have hopen : (m.db.setDisk dir (some m.cache)).db = some dir := h.current.trans hdir
    simp [LevelMap.entries, hopen]
  stored _ hkey := nomatch hkey
  removed _ hkey := nomatch hkey
  nodup := ⟨.nil, .nil⟩
  settled _ := ⟨rfl, rfl⟩

theorem Mirrors.open (h : m.Mirrors f) (dir : FilePath) (create writeThrough : Bool) :
    (m.open dir create writeThrough).1.Mirrors (f.open dir create) := by
  cases hcurrent : f.current with
  | some dir' =>
    have hopen : m.db.db = some dir' := h.current.trans hcurrent
    rw [CachedLevelMap.open, LevelMap.open_of_open hopen, Files.open_of_open hcurrent]
    exact h
  | none =>
    have hclosed : m.db.db = none := h.current.trans hcurrent
    have hdisk : m.db.disk dir = f.files dir := h.elsewhere dir (by simp [hcurrent])
    by_cases hexists : m.db.disk dir ≠ none ∨ create = true
    · rw [CachedLevelMap.open, LevelMap.open_of_closed hclosed hexists,
        Files.open_of_closed hcurrent (hdisk ▸ hexists)]
      have hcache : m.cache = ∅ := h.cache.trans (Files.entries_of_closed hcurrent)
      obtain ⟨hstore, hremove⟩ := h.settled (.inr hcurrent)
      refine ⟨rfl, ?_, ?_, ?_, ?_, ?_, ?_, h.nodup, fun _ => ⟨hstore, hremove⟩⟩
      · simp [hcache, LevelMap.entries, Files.entries, LevelMap.contents, hdisk]
      · intro dir' hne
        have hdir' : dir' ≠ dir := fun e => hne (e ▸ rfl)
        simp [Function.update_of_ne hdir', h.elsewhere dir' (by simp [hcurrent])]
      · intro dir' hdir'
        obtain rfl := Option.some.inj hdir'
        simp
      · intro key _ _
        simp [hcache]
      · simp [hstore]
      · simp [hremove]
    · obtain ⟨hmissing, hcreate⟩ := not_or.1 hexists
      obtain rfl := Bool.eq_false_iff.2 hcreate
      rw [not_not] at hmissing
      rw [CachedLevelMap.open, LevelMap.open_of_missing hclosed hmissing,
        Files.open_of_missing hcurrent (hdisk ▸ hmissing)]
      exact h

/-- What the map holds of the other files is not changed with the open one. -/
theorem Mirrors.modified {m' : CachedLevelMap K V} (h : m.Mirrors f) {dir : FilePath}
    (hdir : f.current = some dir) {g : Tab K V → Tab K V}
    (hdb : m'.db = m.db ∨ ∃ t, m'.db = m.db.setDisk dir (some t)) (hcache : m'.cache = g m.cache)
    (hclean : ∀ key, key ∉ m'.dirtyStore → key ∉ m'.dirtyRemove →
      m'.db.entries.lookup key = m'.cache.lookup key)
    (hstored : ∀ key ∈ m'.dirtyStore, key ∈ m'.cache)
    (hremoved : ∀ key ∈ m'.dirtyRemove, key ∉ m'.cache)
    (hnodup : m'.dirtyStore.Nodup ∧ m'.dirtyRemove.Nodup)
    (hsettled : m'.writeThrough = true → m'.dirtyStore = [] ∧ m'.dirtyRemove = []) :
    m'.Mirrors (f.modify g) where
  current := by
    rw [Files.modify_of_open hdir]
    rcases hdb with hdb | ⟨t, hdb⟩ <;> exact (congrArg LevelMap.db hdb).trans h.current
  cache := by rw [hcache, h.cache, Files.entries_modify hdir]
  elsewhere dir' hne := by
    rw [Files.modify_of_open hdir] at hne ⊢
    have hdir' : dir' ≠ dir := fun e => hne (e ▸ hdir)
    rcases hdb with hdb | ⟨t, hdb⟩ <;>
      simp [hdb, LevelMap.setDisk, Function.update_of_ne hdir', h.elsewhere dir' hne]
  exists_file dir' hdir' := by
    rw [Files.modify_of_open hdir] at hdir' ⊢
    obtain rfl : dir = dir' := Option.some.inj (hdir.symm.trans hdir')
    rcases hdb with hdb | ⟨t, hdb⟩ <;> simp [hdb, LevelMap.setDisk, (h.exists_file dir hdir).1]
  clean := hclean
  stored := hstored
  removed := hremoved
  nodup := hnodup
  settled hset := by
    rcases hset with hset | hset
    · exact hsettled hset
    · rw [Files.modify_of_open hdir] at hset
      exact nomatch hdir.symm.trans hset

/-- Without dirty keys the open file has the entries of the cache. -/
theorem Mirrors.contents_eq (h : m.Mirrors f) {dir : FilePath} (hdb : m.db.db = some dir)
    (hthrough : m.writeThrough = true) : m.db.contents dir = m.cache := by
  obtain ⟨hstore, hremove⟩ := h.settled (.inl hthrough)
  refine Finmap.ext_lookup fun key => ?_
  rw [← LevelMap.entries_of_open hdb]
  exact h.clean key (by simp [hstore]) (by simp [hremove])

/-- A change that is written through. -/
theorem Mirrors.through (h : m.Mirrors f) {dir : FilePath} (hdir : f.current = some dir)
    (hthrough : m.writeThrough = true) (g : Tab K V → Tab K V) :
    Mirrors { m with
      cache := g m.cache
      db := m.db.setDisk dir (some (g (m.db.contents dir))) } (f.modify g) := by
  have hdb : m.db.db = some dir := h.current.trans hdir
  obtain ⟨hstore, hremove⟩ := h.settled (.inl hthrough)
  refine h.modified hdir (.inr ⟨_, rfl⟩) rfl ?_ (by simp [hstore]) (by simp [hremove]) h.nodup
    fun _ => ⟨hstore, hremove⟩
  intro key _ _
  have hopen : (m.db.setDisk dir (some (g (m.db.contents dir)))).db = some dir := hdb
  rw [LevelMap.entries_of_open hopen, LevelMap.contents_setDisk, h.contents_eq hdb hthrough]

theorem Mirrors.store (h : m.Mirrors f) (key : K) (value : V) (hopen : m.db.isOpen) :
    (m.store key value).1.Mirrors (f.modify (·.insert key value)) := by
  obtain ⟨dir, hdb⟩ := Option.isSome_iff_exists.1 hopen
  have hdir : f.current = some dir := h.current.symm.trans hdb
  cases hthrough : m.writeThrough with
  | true =>
    simp only [CachedLevelMap.store, if_pos hthrough, LevelMap.store, LevelMap.update_of_open hdb]
    exact h.through hdir hthrough (·.insert key value)
  | false =>
    simp only [CachedLevelMap.store, hthrough, Bool.false_eq_true, if_false]
    refine h.modified hdir (.inl rfl) rfl ?_ ?_ ?_
      ⟨h.nodup.1.insert, h.nodup.2.erase key⟩ (by simp)
    · intro key' hstore hremove
      simp only [List.mem_insert_iff, not_or] at hstore
      rw [List.mem_erase_of_ne hstore.1] at hremove
      rw [Finmap.lookup_insert_of_ne _ hstore.1]
      exact h.clean key' hstore.2 hremove
    · intro key' hstore
      rw [Finmap.mem_insert]
      exact (List.mem_insert_iff.1 hstore).imp id (h.stored key')
    · intro key' hremove
      obtain ⟨hne, hremove⟩ := (h.nodup.2.mem_erase_iff).1 hremove
      rw [Finmap.mem_insert, not_or]
      exact ⟨hne, h.removed key' hremove⟩

theorem Mirrors.remove_of_open (h : m.Mirrors f) (key : K) {dir : FilePath}
    (hdir : f.current = some dir) : (m.remove key).1.Mirrors (f.modify (·.erase key)) := by
  have hdb : m.db.db = some dir := h.current.trans hdir
  cases hthrough : m.writeThrough with
  | true =>
    simp only [CachedLevelMap.remove, if_pos hthrough, LevelMap.remove,
      LevelMap.update_of_open hdb]
    exact h.through hdir hthrough (·.erase key)
  | false =>
    simp only [CachedLevelMap.remove, hthrough, Bool.false_eq_true, if_false]
    refine h.modified hdir (.inl rfl) rfl ?_ ?_ ?_
      ⟨h.nodup.1.erase key, h.nodup.2.insert⟩ (by simp)
    · intro key' hstore hremove
      simp only [List.mem_insert_iff, not_or] at hremove
      rw [List.mem_erase_of_ne hremove.1] at hstore
      rw [Finmap.lookup_erase_ne hremove.1]
      exact h.clean key' hstore hremove.2
    · intro key' hstore
      obtain ⟨hne, hstore⟩ := (h.nodup.1.mem_erase_iff).1 hstore
      exact Finmap.mem_erase.2 ⟨hne, h.stored key' hstore⟩
    · intro key' hremove hmem
      obtain ⟨hne, hmem⟩ := Finmap.mem_erase.1 hmem
      exact h.removed key' ((List.mem_insert_iff.1 hremove).resolve_left hne) hmem

theorem Mirrors.remove (h : m.Mirrors f) (key : K) (hallowed : m.db.isOpen ∨ m.writeThrough) :
    (m.remove key).1.Mirrors (f.modify (·.erase key)) := by
  cases hcurrent : f.current with
  | some dir => exact h.remove_of_open key hcurrent
  | none =>
    have hdb : m.db.db = none := h.current.trans hcurrent
    have hthrough : m.writeThrough := by simpa [LevelMap.isOpen, hdb] using hallowed
    have hcache : m.cache = ∅ := h.cache.trans (Files.entries_of_closed hcurrent)
    rw [Files.modify_of_closed hcurrent]
    simp only [CachedLevelMap.remove, if_pos hthrough, LevelMap.remove,
      LevelMap.update_of_closed hdb]
    have herase : m.cache.erase key = m.cache := by
      rw [hcache]
      rfl
    rw [herase]
    exact h

theorem Mirrors.flush (h : m.Mirrors f) : m.flush.1.Mirrors f := by
  cases hcurrent : f.current with
  | some dir =>
    rw [h.flush_of_open hcurrent]
    exact h.flushed hcurrent m.writeThrough
  | none =>
    rw [h.flush_of_closed hcurrent]
    exact h

theorem Mirrors.setWriteThrough (h : m.Mirrors f) (writeThrough : Bool) :
    (m.setWriteThrough writeThrough).1.Mirrors f := by
  unfold CachedLevelMap.setWriteThrough
  split_ifs with hsame hthrough
  · exact h
  · cases hcurrent : f.current with
    | some dir =>
      rw [h.flush_of_open hcurrent]
      exact h.flushed hcurrent writeThrough
    | none =>
      rw [h.flush_of_closed hcurrent]
      exact h
  · obtain rfl := Bool.eq_false_iff.2 hthrough
    exact { h with settled := fun hset => h.settled (.inr (hset.resolve_left (by simp))) }

/-- A close leaves the entries of the cache in the file. -/
theorem Mirrors.close_of_open (h : m.Mirrors f) {dir : FilePath} (hdir : f.current = some dir) :
    m.close = ({ m with
      db := { m.db.setDisk dir (some m.cache) with db := none }
      cache := ∅
      dirtyStore := []
      dirtyRemove := [] }, none) := by
  have hdb : m.db.db = some dir := h.current.trans hdir
  simp only [CachedLevelMap.close, LevelMap.isOpen, hdb, Option.isSome_some, if_true,
    h.flush_of_open hdir]
  rfl

theorem Mirrors.close (h : m.Mirrors f) : m.close.1.Mirrors f.close := by
  cases hcurrent : f.current with
  | some dir =>
    rw [h.close_of_open hcurrent]
    refine ⟨rfl, rfl, ?_, ?_, fun _ _ _ => rfl, ?_, ?_, ⟨.nil, .nil⟩, fun _ => ⟨rfl, rfl⟩⟩
    rotate_left
    · exact fun _ hdir => nomatch hdir
    · exact fun _ hkey => nomatch hkey
    · exact fun _ hkey => nomatch hkey
    intro dir' _
    by_cases hdir' : dir' = dir
    · subst hdir'
      obtain ⟨t, ht⟩ := Option.isSome_iff_exists.1 (h.exists_file dir' hcurrent).2
      simp [LevelMap.setDisk, Files.close, h.cache, Files.entries, hcurrent, ht]
    · have hne : f.current ≠ some dir' := fun e =>
        hdir' (Option.some.inj (e.symm.trans hcurrent))
      simp [LevelMap.setDisk, Function.update_of_ne hdir', Files.close, h.elsewhere dir' hne]
  | none =>
    have hdb : m.db.db = none := h.current.trans hcurrent
    simp only [CachedLevelMap.close, LevelMap.isOpen, hdb, Option.isSome_none, Bool.false_eq_true,
      if_false]
    refine ⟨rfl, rfl, ?_, ?_, fun _ _ _ => rfl, ?_, ?_, ⟨.nil, .nil⟩, fun _ => ⟨rfl, rfl⟩⟩
    · exact fun dir _ => h.elsewhere dir (by simp [hcurrent])
    · exact fun _ hdir => nomatch hdir
    · exact fun _ hkey => nomatch hkey
    · exact fun _ hkey => nomatch hkey

theorem Mirrors.call (h : m.Mirrors f) (c : CachedCall K V) (hallowed : m.Allowed c) :
    (m.call c).1.Mirrors (f.cachedCall c) := by
  cases c with
  | «open» dir create writeThrough => exact h.open dir create writeThrough
  | store key value => exact h.store key value hallowed
  | remove key => exact h.remove key hallowed
  | setWriteThrough writeThrough => exact h.setWriteThrough writeThrough
  | flush => exact h.flush
  | close => exact h.close

/-- Nothing stored is lost: what is fetched is what was stored last and not removed since, the disk
holds it once the dirty keys are written, and closing the map and opening the file again gives the
same entries. -/
structure LosesNothing (m : CachedLevelMap K V) (f : Files K V) : Prop where
  fetch : ∀ key, m.fetchOptional key = f.entries.lookup key
  disk : m.updatedDisk = m.cache
  disjoint : ∀ key ∈ m.dirtyStore, key ∉ m.dirtyRemove
  reopen : ∀ dir create writeThrough, f.current = some dir →
    m.close.2 = none ∧ (m.close.1.open dir create writeThrough).2 = none ∧
      (m.close.1.open dir create writeThrough).1.cache = m.cache

theorem Mirrors.losesNothing (h : m.Mirrors f) : m.LosesNothing f where
  fetch key := by rw [fetchOptional, h.cache]
  disk := h.updatedDisk_eq
  disjoint key hstore hremove := h.removed key hremove (h.stored key hstore)
  reopen dir create writeThrough hdir := by
    rw [h.close_of_open hdir]
    have hsome : Function.update m.db.disk dir (some m.cache) dir ≠ none := by simp
    simp only [CachedLevelMap.open, LevelMap.setDisk]
    rw [LevelMap.open_of_closed rfl (.inl hsome)]
    simp [LevelMap.entries, LevelMap.contents]

end CachedLevelMap

/-! ## The fast map -/

namespace FastLevelMap

variable {m : FastLevelMap K V} {f : Files K V}

/-- The map holds what the files do; the file of the open map is on disk if it is enabled. -/
structure Mirrors (m : FastLevelMap K V) (f : Files K V) : Prop where
  current : m.ldbPath = f.current
  cache : m.cache = f.entries
  elsewhere : ∀ dir, f.current ≠ some dir → m.ldb.disk dir = f.files dir
  enabled : m.ldbEnabled = true → m.ldb.db = f.current ∧
    ∀ dir, f.current = some dir → m.ldb.disk dir = some m.cache
  disabled : m.ldbEnabled = false → m.ldb.db = none ∧
    ∃ dir, f.current = some dir ∧ m.ldb.disk dir = none
  exists_file : ∀ dir, f.current = some dir → f.files dir ≠ none

/-- Nothing is stored while no file is open. -/
def Allowed (m : FastLevelMap K V) : FastCall K V → Prop
  | .store _ _ => m.ldbPath.isSome
  | _ => True

theorem mirrors_start (disk : FilePath → Option (Tab K V)) : (start disk).Mirrors ⟨disk, none⟩ where
  current := rfl
  cache := rfl
  elsewhere _ _ := rfl
  enabled _ := ⟨rfl, fun _ hdir => nomatch hdir⟩
  disabled h := nomatch h
  exists_file _ hdir := nomatch hdir

theorem Mirrors.enabled_of_closed (h : m.Mirrors f) (hclosed : f.current = none) :
    m.ldbEnabled = true := by
  by_contra hdisabled
  obtain ⟨-, dir, hdir, -⟩ := h.disabled (Bool.eq_false_iff.2 hdisabled)
  exact nomatch hclosed.symm.trans hdir

/-- A change of the entries, in the cache and, if it is enabled, on disk. -/
theorem Mirrors.modified (h : m.Mirrors f) {dir : FilePath} (hdir : f.current = some dir)
    (g : Tab K V → Tab K V) :
    Mirrors { m with
      cache := g m.cache
      ldb := if m.ldbEnabled then m.ldb.setDisk dir (some (g m.cache)) else m.ldb } (f.modify g) := by
  have hentries := Files.entries_modify hdir g
  rw [Files.modify_of_open hdir] at hentries ⊢
  refine ⟨h.current, ?_, ?_, ?_, ?_, ?_⟩
  · rw [hentries, h.cache]
  · intro dir' hne
    have hdir' : dir' ≠ dir := fun e => hne (e ▸ hdir)
    split_ifs <;> simp [LevelMap.setDisk, Function.update_of_ne hdir', h.elsewhere dir' hne]
  · intro henabled
    rw [if_pos henabled]
    refine ⟨(h.enabled henabled).1, fun dir' hdir' => ?_⟩
    obtain rfl : dir = dir' := Option.some.inj (hdir.symm.trans hdir')
    simp [LevelMap.setDisk]
  · intro hdisabled
    rw [if_neg (by simpa using hdisabled)]
    exact h.disabled hdisabled
  · intro dir' hdir'
    obtain rfl : dir = dir' := Option.some.inj (hdir.symm.trans hdir')
    simp

theorem Mirrors.contents_eq (h : m.Mirrors f) (henabled : m.ldbEnabled = true) {dir : FilePath}
    (hdir : f.current = some dir) : m.ldb.contents dir = m.cache :=
  LevelMap.contents_of_disk ((h.enabled henabled).2 dir hdir)

variable [DecidableEq K]

theorem Mirrors.open (h : m.Mirrors f) (path : FilePath) :
    (m.open path).1.Mirrors (f.open path true) := by
  cases hcurrent : f.current with
  | some dir =>
    have hopen : m.ldbPath.isSome := by simp [h.current, hcurrent]
    rw [FastLevelMap.open, if_pos hopen, Files.open_of_open hcurrent]
    exact h
  | none =>
    have hclosed : m.ldbPath = none := h.current.trans hcurrent
    have henabled := h.enabled_of_closed hcurrent
    have hdb : m.ldb.db = none := (h.enabled henabled).1.trans hcurrent
    have hdisk : m.ldb.disk path = f.files path := h.elsewhere path (by simp [hcurrent])
    have hcache : m.cache = ∅ := h.cache.trans (Files.entries_of_closed hcurrent)
    have hnot : ¬m.ldbPath.isSome := by simp [hclosed]
    simp only [FastLevelMap.open, if_neg hnot, LevelMap.open_of_closed hdb (.inr rfl),
      Files.open_of_closed hcurrent (.inr rfl)]
    refine ⟨rfl, ?_, ?_, fun _ => ⟨rfl, ?_⟩, ?_, ?_⟩
    · simp [hcache, LevelMap.entries, Files.entries, LevelMap.contents, hdisk]
    · intro dir hne
      have hdir : dir ≠ path := fun e => hne (e ▸ rfl)
      simp [Function.update_of_ne hdir, h.elsewhere dir (by simp [hcurrent])]
    · intro dir hdir
      obtain rfl := Option.some.inj hdir
      simp [hcache, LevelMap.entries, LevelMap.contents]
    · intro hdisabled
      exact nomatch henabled.symm.trans hdisabled
    · intro dir hdir
      obtain rfl := Option.some.inj hdir
      simp

theorem Mirrors.store (h : m.Mirrors f) (key : K) (value : V) (hopen : m.ldbPath.isSome) :
    (m.store key value).1.Mirrors (f.modify (·.insert key value)) := by
  obtain ⟨dir, hpath⟩ := Option.isSome_iff_exists.1 hopen
  have hdir : f.current = some dir := h.current.symm.trans hpath
  have hmodified := h.modified hdir (·.insert key value)
  cases henabled : m.ldbEnabled with
  | true =>
    have hdb : m.ldb.db = some dir := (h.enabled henabled).1.trans hdir
    simp only [FastLevelMap.store, if_pos henabled, LevelMap.store, LevelMap.update_of_open hdb,
      h.contents_eq henabled hdir]
    rwa [if_pos henabled] at hmodified
  | false =>
    have hdisabled : ¬m.ldbEnabled = true := by simp [henabled]
    simp only [FastLevelMap.store, if_neg hdisabled]
    rwa [if_neg hdisabled] at hmodified

theorem Mirrors.remove (h : m.Mirrors f) (key : K) :
    (m.remove key).1.Mirrors (f.modify (·.erase key)) := by
  cases hcurrent : f.current with
  | some dir =>
    have hmodified := h.modified hcurrent (·.erase key)
    cases henabled : m.ldbEnabled with
    | true =>
      have hdb : m.ldb.db = some dir := (h.enabled henabled).1.trans hcurrent
      simp only [FastLevelMap.remove, if_pos henabled, LevelMap.remove,
        LevelMap.update_of_open hdb, h.contents_eq henabled hcurrent]
      rwa [if_pos henabled] at hmodified
    | false =>
      have hdisabled : ¬m.ldbEnabled = true := by simp [henabled]
      simp only [FastLevelMap.remove, if_neg hdisabled]
      rwa [if_neg hdisabled] at hmodified
  | none =>
    have henabled := h.enabled_of_closed hcurrent
    have hdb : m.ldb.db = none := (h.enabled henabled).1.trans hcurrent
    have herase : m.cache.erase key = m.cache := by
      rw [h.cache, Files.entries_of_closed hcurrent]
      rfl
    simp only [FastLevelMap.remove, if_pos henabled, LevelMap.remove,
      LevelMap.update_of_closed hdb, herase]
    rw [Files.modify_of_closed hcurrent]
    exact h

/-- Enabling a map that is disabled writes the cache to its file. -/
theorem Mirrors.toggle_on (h : m.Mirrors f) (hdisabled : m.ldbEnabled = false) :
    ∃ dir, f.current = some dir ∧ m.toggleLeveldb true = ({ m with
      ldb := { disk := Function.update m.ldb.disk dir (some m.cache), db := some dir }
      ldbEnabled := true }, none) := by
  obtain ⟨hdb, dir, hdir, hdisk⟩ := h.disabled hdisabled
  refine ⟨dir, hdir, ?_⟩
  have hpath : m.ldbPath = some dir := h.current.trans hdir
  simp only [toggleLeveldb, hpath, hdisabled, Bool.true_eq_false, if_false, if_true,
    LevelMap.open_of_closed hdb (.inr rfl)]
  rw [LevelMap.update_of_open (show LevelMap.db ⟨_, some dir⟩ = some dir from rfl)]
  simp [LevelMap.setDisk, LevelMap.contents, hdisk]

theorem Mirrors.toggleLeveldb (h : m.Mirrors f) (enabled : Bool) :
    (m.toggleLeveldb enabled).1.Mirrors f := by
  cases hcurrent : f.current with
  | none =>
    have hpath : m.ldbPath = none := h.current.trans hcurrent
    simp only [FastLevelMap.toggleLeveldb, hpath]
    exact h
  | some dir =>
    have hpath : m.ldbPath = some dir := h.current.trans hcurrent
    by_cases hsame : enabled = m.ldbEnabled
    · simp only [FastLevelMap.toggleLeveldb, hpath, if_pos hsame]
      exact h
    cases enabled with
    | true =>
      obtain ⟨dir', hdir', htoggle⟩ := h.toggle_on (by simpa using Ne.symm hsame)
      rw [htoggle]
      refine ⟨h.current, h.cache, ?_, fun _ => ⟨hdir'.symm, ?_⟩, fun hoff => (nomatch hoff),
        h.exists_file⟩
      · intro dir'' hne
        have hdir'' : dir'' ≠ dir' := fun e => hne (e ▸ hdir')
        simp [Function.update_of_ne hdir'', h.elsewhere dir'' hne]
      · intro dir'' hdir''
        obtain rfl : dir' = dir'' := Option.some.inj (hdir'.symm.trans hdir'')
        simp
    | false =>
      simp only [FastLevelMap.toggleLeveldb, hpath, if_neg hsame, Bool.false_eq_true, if_false]
      refine ⟨hcurrent.symm, h.cache, ?_, fun hon => (nomatch hon), fun _ => ⟨rfl, dir, hcurrent, ?_⟩,
        h.exists_file⟩
      · intro dir' hne
        have hdir' : dir' ≠ dir := fun e => hne (e ▸ hcurrent)
        simp [LevelMap.setDisk, LevelMap.close, Function.update_of_ne hdir', h.elsewhere dir' hne]
      · simp [LevelMap.setDisk]

/-- A close leaves the entries of the cache in the file. -/
theorem Mirrors.close_of_open (h : m.Mirrors f) {dir : FilePath} (hdir : f.current = some dir) :
    m.close = ({ m with
      ldb := { disk := Function.update m.ldb.disk dir (some m.cache), db := none }
      ldbPath := none
      ldbEnabled := true
      cache := ∅ }, none) := by
  have hopen : m.ldbPath.isSome := by simp [h.current, hdir]
  cases henabled : m.ldbEnabled with
  | true =>
    have hdisk : Function.update m.ldb.disk dir (some m.cache) = m.ldb.disk := by
      rw [← (h.enabled henabled).2 dir hdir, Function.update_eq_self]
    simp [close, hopen, henabled, closeLdb, LevelMap.close, hdisk]
  | false =>
    obtain ⟨dir', hdir', htoggle⟩ := h.toggle_on henabled
    obtain rfl : dir = dir' := Option.some.inj (hdir.symm.trans hdir')
    simp [close, hopen, henabled, htoggle, closeLdb, LevelMap.close]

theorem Mirrors.close (h : m.Mirrors f) : m.close.1.Mirrors f.close := by
  cases hcurrent : f.current with
  | some dir =>
    rw [h.close_of_open hcurrent]
    refine ⟨rfl, rfl, ?_, fun _ => ⟨rfl, ?_⟩, fun hoff => (nomatch hoff), ?_⟩
    · intro dir' _
      by_cases hdir' : dir' = dir
      · subst hdir'
        obtain ⟨t, ht⟩ := Option.ne_none_iff_exists'.1 (h.exists_file dir' hcurrent)
        simp [Files.close, h.cache, Files.entries, hcurrent, ht]
      · have hne : f.current ≠ some dir' := fun e =>
          hdir' (Option.some.inj (e.symm.trans hcurrent))
        simp [Function.update_of_ne hdir', Files.close, h.elsewhere dir' hne]
    · exact fun _ hdir => nomatch hdir
    · exact fun _ hdir => nomatch hdir
  | none =>
    have hpath : ¬m.ldbPath.isSome := by simp [h.current, hcurrent]
    simp only [FastLevelMap.close, if_neg hpath]
    have henabled := h.enabled_of_closed hcurrent
    refine ⟨h.current.trans hcurrent, rfl, ?_, ?_, ?_, fun _ hdir => nomatch hdir⟩
    · exact fun dir _ => h.elsewhere dir (by simp [hcurrent])
    · exact fun hon => ⟨(h.enabled hon).1.trans hcurrent, fun _ hdir => nomatch hdir⟩
    · exact fun hoff => nomatch henabled.symm.trans hoff

theorem Mirrors.call (h : m.Mirrors f) (c : FastCall K V) (hallowed : m.Allowed c) :
    (m.call c).1.Mirrors (f.fastCall c) := by
  cases c with
  | «open» path => exact h.open path
  | store key value => exact h.store key value hallowed
  | remove key => exact h.remove key
  | toggleLeveldb enabled => exact h.toggleLeveldb enabled
  | close => exact h.close

/-- As for the cached map; while the map is enabled the disk has the entries of the cache. -/
structure LosesNothing (m : FastLevelMap K V) (f : Files K V) : Prop where
  fetch : ∀ key, m.find key = f.entries.lookup key
  disk : m.ldbEnabled = true → m.ldb.entries = m.cache
  reopen : ∀ dir, f.current = some dir →
    m.close.2 = none ∧ (m.close.1.open dir).2 = none ∧ (m.close.1.open dir).1.cache = m.cache

theorem Mirrors.losesNothing (h : m.Mirrors f) : m.LosesNothing f where
  fetch key := by rw [find, h.cache]
  disk henabled := by
    cases hcurrent : f.current with
    | none =>
      rw [LevelMap.entries, (h.enabled henabled).1, hcurrent, h.cache,
        Files.entries_of_closed hcurrent]
      rfl
    | some dir =>
      rw [LevelMap.entries_of_open ((h.enabled henabled).1.trans hcurrent),
        h.contents_eq henabled hcurrent]
  reopen dir hdir := by
    rw [h.close_of_open hdir]
    simp only [FastLevelMap.open, Option.isSome_none, Bool.false_eq_true, if_false]
    rw [LevelMap.open_of_closed rfl (.inr rfl)]
    simp [LevelMap.entries, LevelMap.contents]

end FastLevelMap

/-! ## Both maps -/

/-- Over any calls of which none stores or removes anything while no file is open, the two maps lose
nothing. -/
theorem level_maps_lose_nothing [DecidableEq K] (disk : FilePath → Option (Tab K V)) :
    (∀ calls : List (CachedCall K V),
      Along (fun m c => (CachedLevelMap.call m c).1) CachedLevelMap.Allowed (.start disk) calls →
        (run (fun m c => (CachedLevelMap.call m c).1) (.start disk) calls).LosesNothing
          (run Files.cachedCall ⟨disk, none⟩ calls)) ∧
    ∀ calls : List (FastCall K V),
      Along (fun m c => (FastLevelMap.call m c).1) FastLevelMap.Allowed (.start disk) calls →
        (run (fun m c => (FastLevelMap.call m c).1) (.start disk) calls).LosesNothing
          (run Files.fastCall ⟨disk, none⟩ calls) := by
  refine ⟨fun calls h => ?_, fun calls h => ?_⟩
  · have hmirrors := h.simulates (R := CachedLevelMap.Mirrors)
      (fun m f c hm hc => hm.call c hc) (CachedLevelMap.mirrors_start disk)
    exact hmirrors.losesNothing
  · have hmirrors := h.simulates (R := FastLevelMap.Mirrors)
      (fun m f c hm hc => hm.call c hc) (FastLevelMap.mirrors_start disk)
    exact hmirrors.losesNothing

section Example

def walletFile : FilePath := ['w']

/-- A key is stored, the mode switched, the key removed, and the map closed. -/
theorem level_maps_lose_nothing_at_switch :
    (run (fun m c => (CachedLevelMap.call m c).1) (.start fun _ => none)
        [.open walletFile true false, .store 1 5, .setWriteThrough true, .remove 1, .close]).LosesNothing
      (run Files.cachedCall ⟨fun _ => none, none⟩
        [.open walletFile true false, .store 1 5, .setWriteThrough true, .remove 1, .close]) ∧
    (run (fun m c => (FastLevelMap.call m c).1) (.start fun _ => none)
        [.open walletFile, .toggleLeveldb false, .store 1 5, .close]).LosesNothing
      (run Files.fastCall ⟨fun _ => none, none⟩
        [.open walletFile, .toggleLeveldb false, .store 1 5, .close]) :=
  ⟨(level_maps_lose_nothing (K := Nat) (V := Nat) fun _ => none).1 _
      ⟨trivial, rfl, trivial, .inl rfl, trivial, trivial⟩,
    (level_maps_lose_nothing (K := Nat) (V := Nat) fun _ => none).2 _
      ⟨trivial, trivial, rfl, trivial, trivial⟩⟩

def removingWhileClosed : List (CachedCall Nat Nat) :=
  [.open walletFile true false, .store 1 5, .close, .remove 1, .open walletFile true false]

/-- A key removed while no file is open is marked: when the file is open again the cache has the key,
and the next flush removes it from the disk alone. -/
theorem removed_while_closed :
    let m := run (fun m c => (CachedLevelMap.call m c).1) (.start fun _ => none) removingWhileClosed
    m.fetchOptional 1 = some 5 ∧ m.updatedDisk.lookup 1 = none ∧
      ¬m.LosesNothing (run Files.cachedCall ⟨fun _ => none, none⟩ removingWhileClosed) := by
  refine ⟨by decide, by decide, fun h => ?_⟩
  have hlookup := congrArg (Finmap.lookup 1) h.disk
  revert hlookup
  decide

end Example

end Achain.Db
