import Achain.Proofs.ContractFiles

/-!
# Contracts read back from their files

What a writer writes is the bytes of some `Contents`, when the names are not too long, and the bytes tell
the contents (`Contents.bytes_inj`); what a reader returns has no long names, no zeros in them and no more
of them than an `int` counts (`Code.bounded_of_returns`). So a code or a module is read back exactly when
its contents are complete and stand for it (`roundTrip_iff`).
-/

namespace Achain.ContractFile

open ByKey Readers Readers.Reader

variable {s : Bytes} {sha : Sha1} {code : Code} {c c' : Contents} {rest rest' : Bytes}

/-! ## Names -/

theorem zero_notMem_cString : 0 ∉ cString s := fun h => by
  have h' := List.mem_takeWhile_imp h
  simp at h'

theorem cString_of_notMem (h : 0 ∉ s) : cString s = s := by
  refine List.takeWhile_eq_self_iff.2 fun b hb => decide_eq_true ?_
  rintro rfl
  exact h hb

theorem length_cString_le : (cString s).length ≤ s.length := (List.takeWhile_sublist _).length_le

theorem byteKey_inj {s t : Bytes} (h : byteKey s = byteKey t) : s = t :=
  List.map_injective_iff.2 (fun _ _ => UInt8.toNat_inj.1) h

theorem mem_ofList_names {l : List Bytes} : s ∈ (KeySet.ofList byteKey l).entries ↔ s ∈ l :=
  KeySet.mem_ofList fun _ _ _ _ => byteKey_inj

theorem map_cString {l : List Bytes} (h : ∀ s ∈ l, 0 ∉ s) : l.map cString = l :=
  (List.map_congr_left fun s hs => cString_of_notMem (h s hs)).trans (List.map_id' l)

theorem map_cString_fst {l : List (Bytes × StorageType)} (h : ∀ e ∈ l, 0 ∉ e.1) :
    (l.map fun info => (cString info.1, info.2)) = l :=
  (List.map_congr_left fun e he => by rw [cString_of_notMem (h e he)]).trans (List.map_id' l)

def Code.names (code : Code) : List Bytes :=
  code.abi.entries ++ code.offlineAbi.entries ++ code.events.entries ++
    code.storageProperties.entries.map Prod.fst

namespace Contents

def names (c : Contents) : List Bytes :=
  c.abi.2 ++ c.offlineAbi.2 ++ c.events.2 ++ c.storageProperties.2.map Prod.fst

/-- Every count is that of its section. -/
structure Counted (c : Contents) : Prop where
  abi : c.abi.2.length = c.abi.1.toInt.toNat
  offlineAbi : c.offlineAbi.2.length = c.offlineAbi.1.toInt.toNat
  events : c.events.2.length = c.events.1.toInt.toNat
  storageProperties : c.storageProperties.2.length = c.storageProperties.1.toInt.toNat

theorem holds_iff {valid : Bytes → Prop} : c.Holds valid ↔ c.Counted ∧ ∀ s ∈ c.names, valid s := by
  simp only [names, List.forall_mem_append, List.forall_mem_map]
  constructor
  · intro h
    exact ⟨⟨h.abi.1, h.offlineAbi.1, h.events.1, h.storageProperties.1⟩,
      ⟨⟨h.abi.2, h.offlineAbi.2⟩, h.events.2⟩, h.storageProperties.2⟩
  · rintro ⟨h, ⟨⟨habi, hoffline⟩, hevents⟩, hstorage⟩
    exact ⟨⟨h.abi, habi⟩, ⟨h.offlineAbi, hoffline⟩, ⟨h.events, hevents⟩, h.storageProperties, hstorage⟩

theorem code_names (c : Contents) (h : s ∈ (c.code sha).names) : ∃ t ∈ c.names, cString t = s := by
  have hmap : ∀ {l : List Bytes}, s ∈ (KeySet.ofList byteKey (l.map cString)).entries →
      ∃ t ∈ l, cString t = s := fun h => List.mem_map.1 (mem_ofList_names.1 h)
  simp only [Code.names, names, List.mem_append] at h ⊢
  obtain ((h | h) | h) | h := h
  · obtain ⟨t, ht, rfl⟩ := hmap h
    exact ⟨t, .inl (.inl (.inl ht)), rfl⟩
  · obtain ⟨t, ht, rfl⟩ := hmap h
    exact ⟨t, .inl (.inl (.inr ht)), rfl⟩
  · obtain ⟨t, ht, rfl⟩ := hmap h
    exact ⟨t, .inl (.inr ht), rfl⟩
  · obtain ⟨e, he, rfl⟩ := List.mem_map.1 h
    obtain ⟨info, hinfo, rfl⟩ := List.mem_map.1 (KeySet.mem_of_mem_ofList he)
    exact ⟨info.1, .inr (List.mem_map_of_mem hinfo), rfl⟩

/-- The names of a code that is read have no zeros, and are not too long. -/
theorem names_code (h : c.Holds Readable) (hs : s ∈ (c.code sha).names) :
    0 ∉ s ∧ s.length + 1 < 2 ^ 31 := by
  obtain ⟨t, ht, rfl⟩ := c.code_names hs
  have hread := (holds_iff.1 h).2 t ht
  have hle := length_cString_le (s := t)
  exact ⟨zero_notMem_cString, by have := hread.2; omega⟩

/-- So is the number of them. -/
theorem length_code (sha : Sha1) (h : c.Counted) :
    (c.code sha).abi.entries.length < 2 ^ 31 ∧ (c.code sha).offlineAbi.entries.length < 2 ^ 31 ∧
      (c.code sha).events.entries.length < 2 ^ 31 ∧
      (c.code sha).storageProperties.entries.length < 2 ^ 31 := by
  have hlt : ∀ {α : Type} {t : Section α} {n : Nat}, t.2.length = t.1.toInt.toNat → n ≤ t.2.length →
      n < 2 ^ 31 := by
    intro α t n ht hn
    have hint := t.1.toInt_lt
    omega
  have hlen : ∀ {l : List Bytes}, (KeySet.ofList byteKey (l.map cString)).entries.length ≤ l.length :=
    fun {l} => KeySet.length_ofList_le.trans_eq (List.length_map _)
  exact ⟨hlt h.abi hlen, hlt h.offlineAbi hlen, hlt h.events hlen,
    hlt h.storageProperties (KeySet.length_ofList_le.trans_eq (List.length_map _))⟩

/-- The bytes tell the contents. -/
theorem bytes_inj (hb : c.byteCode.length < 2 ^ 31) (hb' : c'.byteCode.length < 2 ^ 31)
    (h : c.Holds fun s => s.length < 2 ^ 31) (h' : c'.Holds fun s => s.length < 2 ^ 31)
    (heq : c.bytes sha ++ rest = c'.bytes sha ++ rest') : c = c' := by
  have hstrings := distinct_section distinct_string
  simp only [bytes, header, sections, List.append_assoc] at heq
  obtain ⟨-, heq⟩ := List.append_inj heq (by simp only [length_writeDigest, sha.length])
  obtain ⟨hcode, heq⟩ := distinct_string hb hb' heq
  obtain ⟨habi, heq⟩ := hstrings h.abi h'.abi heq
  obtain ⟨hoffline, heq⟩ := hstrings h.offlineAbi h'.offlineAbi heq
  obtain ⟨hevents, heq⟩ := hstrings h.events h'.events heq
  obtain ⟨hstorage, -⟩ :=
    distinct_section distinct_property h.storageProperties h'.storageProperties heq
  cases c
  cases c'
  simp_all only

/-- From the bytes of contents the reader returns what they stand for, if they are complete. -/
theorem returns_iff (hb : c.byteCode.length < 2 ^ 31) (h : c.Holds fun s => s.length < 2 ^ 31) :
    (∃ rest, (readCode sha (c.bytes sha)).outcome = .returns (code, rest)) ↔
      Fits c.byteCode (c.bytes sha).length ∧ (∀ s ∈ c.names, Readable s) ∧ c.code sha = code := by
  simp only [reads_readCode]
  constructor
  · rintro ⟨rest, c', hfits, hread, heq, rfl⟩
    have hshort : c'.Holds fun s => s.length < 2 ^ 31 := by
      obtain ⟨hcounted, hnames⟩ := holds_iff.1 hread
      exact holds_iff.2 ⟨hcounted, fun s hs => Nat.lt_of_succ_lt (hnames s hs).2⟩
    have hlen := hfits.length_lt
    obtain rfl := bytes_inj hb (by omega) h hshort (by rw [List.append_nil, heq])
    exact ⟨hfits, (holds_iff.1 hread).2, rfl⟩
  · rintro ⟨hfits, hnames, rfl⟩
    exact ⟨[], c, hfits, holds_iff.2 ⟨(holds_iff.1 h).1, hnames⟩, (List.append_nil _).symm, rfl⟩

end Contents

/-- What holds of every code that is read. -/
structure Code.Bounded (code : Code) : Prop where
  abi : code.abi.entries.length < 2 ^ 31
  offlineAbi : code.offlineAbi.entries.length < 2 ^ 31
  events : code.events.entries.length < 2 ^ 31
  storageProperties : code.storageProperties.entries.length < 2 ^ 31
  names : ∀ s ∈ code.names, 0 ∉ s ∧ s.length + 1 < 2 ^ 31
  byteCode : code.byteCode.length < 2 ^ 31

theorem Code.Bounded.length_lt (h : code.Bounded) : ∀ s ∈ code.names, s.length < 2 ^ 31 :=
  fun s hs => Nat.lt_of_succ_lt (h.names s hs).2

theorem Code.bounded_of_returns {file : Bytes} (h : (readCode sha file).outcome = .returns (code, rest)) :
    code.Bounded := by
  obtain ⟨c, hfits, hholds, -, rfl⟩ := reads_readCode.1 h
  obtain ⟨habi, hoffline, hevents, hstorage⟩ := Contents.length_code sha (Contents.holds_iff.1 hholds).1
  exact {
    abi := habi
    offlineAbi := hoffline
    events := hevents
    storageProperties := hstorage
    names := fun s => Contents.names_code hholds
    byteCode := lt_of_le_of_lt (Nat.le_add_right _ 24) hfits.length_lt }

/-! ## Writing -/

/-- As many of the entries as `(int) size()` says, under that count. -/
def counted {ι : Type} (l : List ι) : Section ι :=
  (Int32.ofNat l.length, l.take (Int32.ofNat l.length).toInt.toNat)

section counted

variable {ι : Type} {l : List ι}

theorem length_counted : (counted l).2.length = (counted l).1.toInt.toNat := by
  have hle := toInt_ofNat_le l.length
  show (l.take (Int32.ofNat l.length).toInt.toNat).length = _
  rw [List.length_take, min_eq_left (by omega)]
  rfl

theorem counted_of_lt (h : l.length < 2 ^ 31) : counted l = (Int32.ofNat l.length, l) := by
  rw [counted, Int32.toInt_ofNat_of_lt h, Int.toNat_natCast, List.take_length]

theorem mem_of_mem_counted {i : ι} (h : i ∈ (counted l).2) : i ∈ l := List.mem_of_mem_take h

end counted

theorem mapM_eq_some {ι κ : Type} {f : ι → Option κ} {g : ι → κ} :
    ∀ {l : List ι}, (∀ i ∈ l, f i = some (g i)) → l.mapM f = some (l.map g)
  | [], _ => rfl
  | i :: l, h => by
    rw [List.forall_mem_cons] at h
    rw [List.mapM_cons, h.1, mapM_eq_some h.2]
    rfl

theorem commonFwriteStream_of_lt (h : s.length < 2 ^ 31) :
    commonFwriteStream s (Int32.ofNat s.length) = some s := by
  have hlen : (Int32.ofNat s.length).toInt = s.length := Int32.toInt_ofNat_of_lt h
  rw [commonFwriteStream, hlen, if_neg (by omega), Int.toNat_natCast, List.take_length]

theorem writeString_of_lt (h : s.length < 2 ^ 31) : writeString s = some (encString s) := by
  rw [writeString, commonFwriteStream_of_lt h]
  rfl

theorem writeStrings_of_lt {count : Int32} {l : List Bytes} (h : ∀ s ∈ l, s.length < 2 ^ 31) :
    writeStrings count l = some (encSection encString (count, l)) := by
  rw [writeStrings, mapM_eq_some fun s hs => writeString_of_lt (h s hs)]
  rfl

theorem saveStrings_of_lt {l : List Bytes} (h : ∀ s ∈ l, s.length < 2 ^ 31) :
    saveStrings l = some (encSection encString (counted l)) :=
  writeStrings_of_lt fun s hs => h s (mem_of_mem_counted hs)

theorem writeProperties_of_lt {l : List (Bytes × StorageType)} (h : ∀ e ∈ l, e.1.length < 2 ^ 31) :
    writeProperties l = some (encSection encProperty (Int32.ofNat l.length, l)) := by
  have hproperty : ∀ e ∈ l, writeProperty e = some (encProperty e) := by
    intro e he
    rw [writeProperty, writeString_of_lt (h e he)]
    rfl
  rw [writeProperties, mapM_eq_some hproperty]
  rfl

/-- The length of a file with the byte code, the names of the three sections and the properties. -/
def fileSize (byteCode : Bytes) (names : List (List Bytes)) (properties : List (Bytes × StorageType)) :
    Nat :=
  24 + byteCode.length + (names.map fun l => 4 + (l.map fun s => 4 + s.length).sum).sum +
    (4 + (properties.map fun e => 8 + e.1.length).sum)

theorem length_bytes (sha : Sha1) (c : Contents) : (c.bytes sha).length =
    fileSize c.byteCode [c.abi.2, c.offlineAbi.2, c.events.2] c.storageProperties.2 := by
  simp only [Contents.bytes, header, Contents.sections, encSection, encString, encProperty, fileSize,
    List.length_append, List.length_flatMap, length_writeDigest, length_commonFwriteInt, sha.length,
    List.map_cons, List.map_nil, List.sum_cons, List.sum_nil]
  have hsum : ∀ l : List (Bytes × StorageType),
      (l.map fun e => 4 + e.1.length + 4).sum = (l.map fun e => 8 + e.1.length).sum := by
    intro l
    congr 2
    funext e
    omega
  rw [hsum]
  omega

/-! ## A code of the chain -/

namespace Code

/-- What `load_contract_to_file` writes of a code. -/
def contents (code : Code) : Contents where
  byteCode := code.byteCode
  abi := (Int32.ofNat code.abi.entries.length, code.abi.entries)
  offlineAbi := (Int32.ofNat code.offlineAbi.entries.length, code.offlineAbi.entries)
  events := (Int32.ofNat code.events.entries.length, code.events.entries)
  storageProperties :=
    (Int32.ofNat code.storageProperties.entries.length, code.storageProperties.entries)

/-- The counts are an `int`, every name is read as it is written, the byte code is neither empty nor too
long for its file, and the hash is that of the byte code. -/
structure Writable (sha : Sha1) (code : Code) : Prop where
  abi : code.abi.entries.length < 2 ^ 31
  offlineAbi : code.offlineAbi.entries.length < 2 ^ 31
  events : code.events.entries.length < 2 ^ 31
  storageProperties : code.storageProperties.entries.length < 2 ^ 31
  names : ∀ s ∈ code.names, Readable s ∧ 0 ∉ s
  byteCode : Fits code.byteCode (fileSize code.byteCode
    [code.abi.entries, code.offlineAbi.entries, code.events.entries] code.storageProperties.entries)
  codeHash : code.codeHash = getHash sha code.byteCode

theorem loadContractToFile_eq (hb : code.byteCode.length < 2 ^ 31)
    (h : ∀ s ∈ code.names, s.length < 2 ^ 31) :
    loadContractToFile sha code = some (code.contents.bytes sha) := by
  simp only [names, List.forall_mem_append, List.forall_mem_map] at h
  obtain ⟨⟨⟨habi, hoffline⟩, hevents⟩, hstorage⟩ := h
  rw [loadContractToFile, commonFwriteStream_of_lt hb, writeStrings_of_lt habi,
    writeStrings_of_lt hoffline, writeStrings_of_lt hevents, writeProperties_of_lt hstorage]
  simp only [Contents.bytes, header, Contents.sections, encString, contents, ← List.append_assoc]
  rfl

theorem code_contents (h : ∀ s ∈ code.names, 0 ∉ s) :
    code.contents.code sha = { code with codeHash := getHash sha code.byteCode } := by
  simp only [names, List.forall_mem_append, List.forall_mem_map] at h
  obtain ⟨⟨⟨habi, hoffline⟩, hevents⟩, hstorage⟩ := h
  simp only [Contents.code, contents, map_cString habi, map_cString hoffline, map_cString hevents,
    map_cString_fst hstorage, KeySet.ofList_entries]

theorem holds_contents {valid : Bytes → Prop} (habi : code.abi.entries.length < 2 ^ 31)
    (hoffline : code.offlineAbi.entries.length < 2 ^ 31) (hevents : code.events.entries.length < 2 ^ 31)
    (hstorage : code.storageProperties.entries.length < 2 ^ 31) (h : ∀ s ∈ code.names, valid s) :
    code.contents.Holds valid := by
  have hcounted : ∀ {α : Type} {l : List α}, l.length < 2 ^ 31 →
      l.length = (Int32.ofNat l.length).toInt.toNat := by
    intro α l hl
    rw [Int32.toInt_ofNat_of_lt hl, Int.toNat_natCast]
  exact Contents.holds_iff.2
    ⟨⟨hcounted habi, hcounted hoffline, hcounted hevents, hcounted hstorage⟩, h⟩

end Code

/-- The reader returns a code from the file that was written, if one was. -/
def ReadsBack (sha : Sha1) (file : Option Bytes) (code : Code) : Prop :=
  ∃ bytes rest, file = some bytes ∧ (readCode sha bytes).outcome = .returns (code, rest)

theorem readsBack_load_iff (sha : Sha1) (code : Code) :
    ReadsBack sha (loadContractToFile sha code) code ↔ code.Writable sha := by
  constructor
  · rintro ⟨bytes, rest, hload, hread⟩
    have hbounded := Code.bounded_of_returns hread
    rw [Code.loadContractToFile_eq hbounded.byteCode hbounded.length_lt] at hload
    cases hload
    obtain ⟨hfits, hnames, hcode⟩ := (Contents.returns_iff hbounded.byteCode
      (Code.holds_contents hbounded.abi hbounded.offlineAbi hbounded.events hbounded.storageProperties
        hbounded.length_lt)).1 ⟨rest, hread⟩
    rw [Code.code_contents fun s hs => (hbounded.names s hs).1] at hcode
    exact {
      abi := hbounded.abi
      offlineAbi := hbounded.offlineAbi
      events := hbounded.events
      storageProperties := hbounded.storageProperties
      names := fun s hs => ⟨hnames s hs, (hbounded.names s hs).1⟩
      byteCode := length_bytes sha code.contents ▸ hfits
      codeHash := (congrArg Code.codeHash hcode).symm }
  · intro h
    have hshort : ∀ s ∈ code.names, s.length < 2 ^ 31 :=
      fun s hs => Nat.lt_of_succ_lt (h.names s hs).1.2
    have hlen : code.byteCode.length < 2 ^ 31 :=
      lt_of_le_of_lt (Nat.le_add_right _ 24) h.byteCode.length_lt
    have hcode : code.contents.code sha = code := by
      rw [Code.code_contents fun s hs => (h.names s hs).2, ← h.codeHash]
    obtain ⟨rest, hrest⟩ := (Contents.returns_iff hlen
      (Code.holds_contents h.abi h.offlineAbi h.events h.storageProperties hshort)).2
      ⟨(length_bytes sha code.contents).symm ▸ h.byteCode, fun s hs => (h.names s hs).1, hcode⟩
    exact ⟨_, rest, Code.loadContractToFile_eq hlen hshort, hrest⟩

/-! ## A compiled module -/

namespace GluaModuleByteStream

variable {stream : GluaModuleByteStream}

def online (stream : GluaModuleByteStream) : List Bytes :=
  stream.contractApis.filter fun api => api ∉ stream.offlineApis

/-- The code of a module: its apis are those that are not offline apis. -/
def moduleCode (sha : Sha1) (stream : GluaModuleByteStream) : Code where
  abi := .ofList byteKey stream.online
  offlineAbi := .ofList byteKey stream.offlineApis
  events := .ofList byteKey stream.contractEmitEvents
  storageProperties := stream.contractStorageProperties
  byteCode := stream.buff
  codeHash := getHash sha stream.buff

def names (stream : GluaModuleByteStream) : List Bytes :=
  stream.online ++ stream.offlineApis ++ stream.contractEmitEvents ++
    stream.contractStorageProperties.entries.map Prod.fst

/-- What `save_code_to_file` writes of a module. -/
def contents (stream : GluaModuleByteStream) : Contents where
  byteCode := stream.buff
  abi := counted stream.online
  offlineAbi := counted stream.offlineApis
  events := counted stream.contractEmitEvents
  storageProperties := counted stream.contractStorageProperties.entries

/-- The apis can be counted, no name is only beyond the count of its section, every name is read as it is
written, and the byte code is neither empty nor too long for its file. -/
structure Writable (stream : GluaModuleByteStream) : Prop where
  contractApis : stream.contractApis.length < 2 ^ 31
  offlineCount : stream.contractApis = [] ∨ stream.offlineApis.length < 2 ^ 31
  offlineApis : ∀ s ∈ stream.offlineApis, s ∈ (counted stream.offlineApis).2
  events : ∀ s ∈ stream.contractEmitEvents, s ∈ (counted stream.contractEmitEvents).2
  storageProperties : stream.contractStorageProperties.entries.length < 2 ^ 31
  names : ∀ s ∈ stream.names, Readable s ∧ 0 ∉ s
  byteCode : Fits stream.buff (fileSize stream.buff [(counted stream.online).2,
    (counted stream.offlineApis).2, (counted stream.contractEmitEvents).2]
    (counted stream.contractStorageProperties.entries).2)

theorem onlineApis_of_lt {offline : List Bytes} (hlen : offline.length < 2 ^ 31) :
    ∀ {apis : List Bytes}, onlineApis offline apis = some (apis.filter fun api => api ∉ offline)
  | [] => rfl
  | api :: apis => by
    rw [onlineApis, intCounter, if_pos hlen, onlineApis_of_lt hlen, List.filter_cons]
    by_cases hmem : api ∈ offline
    · rw [if_neg (by rw [decide_eq_true_iff, not_not]; exact hmem)]
      exact congrArg some (if_pos hmem)
    · rw [if_pos (decide_eq_true hmem)]
      exact congrArg some (if_neg hmem)

theorem onlineApis_eq_some {offline r apis : List Bytes} : onlineApis offline apis = some r ↔
    (apis = [] ∨ offline.length < 2 ^ 31) ∧ apis.filter (fun api => api ∉ offline) = r := by
  by_cases hlen : offline.length < 2 ^ 31
  · rw [onlineApis_of_lt hlen, Option.some_inj, and_iff_right (.inr hlen)]
  · cases apis with
    | nil => exact Option.some_inj.trans (and_iff_right (.inl rfl)).symm
    | cons api apis =>
      rw [onlineApis, intCounter, if_neg hlen]
      exact iff_of_false nofun fun h => h.1.elim (List.cons_ne_nil _ _) hlen

theorem newApis_eq_some {r : List Bytes} : newApis stream = some r ↔
    stream.contractApis.length < 2 ^ 31 ∧
      (stream.contractApis = [] ∨ stream.offlineApis.length < 2 ^ 31) ∧ stream.online = r := by
  rw [newApis, intCounter]
  by_cases hlen : stream.contractApis.length < 2 ^ 31
  · rw [if_pos hlen]
    exact onlineApis_eq_some.trans (and_iff_right hlen).symm
  · rw [if_neg hlen]
    exact iff_of_false nofun fun h => hlen h.1

theorem saveCodeToFile_eq (hapis : newApis stream = some stream.online)
    (hb : stream.buff.length < 2 ^ 31) (hstorage : stream.contractStorageProperties.entries.length < 2 ^ 31)
    (h : ∀ s ∈ stream.names, s.length < 2 ^ 31) :
    saveCodeToFile sha stream = some (stream.contents.bytes sha) := by
  simp only [names, List.forall_mem_append, List.forall_mem_map] at h
  obtain ⟨⟨⟨honline, hoffline⟩, hevents⟩, hproperties⟩ := h
  simp only [saveCodeToFile, hapis, commonFwriteStream_of_lt hb, saveStrings_of_lt honline,
    saveStrings_of_lt hoffline, saveStrings_of_lt hevents, writeProperties_of_lt hproperties,
    ← counted_of_lt hstorage, Option.bind_eq_bind, Option.bind_some]
  simp only [Contents.bytes, header, Contents.sections, encString, contents, ← List.append_assoc]
  rfl

theorem counted_online (hapis : stream.contractApis.length < 2 ^ 31) :
    counted stream.online = (Int32.ofNat stream.online.length, stream.online) :=
  counted_of_lt (lt_of_le_of_lt (List.length_filter_le _ _) hapis)

theorem names_contents {s : Bytes} (h : s ∈ stream.contents.names) : s ∈ stream.names := by
  simp only [Contents.names, contents, names, List.mem_append, List.mem_map] at h ⊢
  exact h.imp (Or.imp (Or.imp mem_of_mem_counted mem_of_mem_counted) mem_of_mem_counted)
    fun ⟨e, he, hs⟩ => ⟨e, mem_of_mem_counted he, hs⟩

theorem mem_names_contents {s : Bytes} (hapis : stream.contractApis.length < 2 ^ 31)
    (hoffline : ∀ s ∈ stream.offlineApis, s ∈ (counted stream.offlineApis).2)
    (hevents : ∀ s ∈ stream.contractEmitEvents, s ∈ (counted stream.contractEmitEvents).2)
    (hstorage : stream.contractStorageProperties.entries.length < 2 ^ 31) (h : s ∈ stream.names) :
    s ∈ stream.contents.names := by
  simp only [Contents.names, contents, names, counted_online hapis, counted_of_lt hstorage,
    List.mem_append] at h ⊢
  exact h.imp_left (Or.imp (Or.imp_right (hoffline s)) (hevents s))

theorem names_moduleCode (sha : Sha1) {s : Bytes} :
    s ∈ (stream.moduleCode sha).names ↔ s ∈ stream.names := by
  simp only [Code.names, moduleCode, names, List.mem_append, mem_ofList_names]

theorem holds_contents {valid : Bytes → Prop} (h : ∀ s ∈ stream.names, valid s) :
    stream.contents.Holds valid :=
  Contents.holds_iff.2 ⟨⟨length_counted, length_counted, length_counted, length_counted⟩,
    fun s hs => h s (names_contents hs)⟩

theorem ofList_counted_iff {l : List Bytes} :
    KeySet.ofList byteKey (counted l).2 = KeySet.ofList byteKey l ↔ ∀ s ∈ l, s ∈ (counted l).2 := by
  constructor
  · intro h s hs
    rw [← mem_ofList_names, h, mem_ofList_names]
    exact hs
  · intro h
    refine KeySet.ext_mem fun s => ?_
    rw [mem_ofList_names, mem_ofList_names]
    exact ⟨mem_of_mem_counted, h s⟩

theorem code_contents_iff (hapis : stream.contractApis.length < 2 ^ 31)
    (hstorage : stream.contractStorageProperties.entries.length < 2 ^ 31)
    (h : ∀ s ∈ stream.names, 0 ∉ s) : stream.contents.code sha = stream.moduleCode sha ↔
      (∀ s ∈ stream.offlineApis, s ∈ (counted stream.offlineApis).2) ∧
        ∀ s ∈ stream.contractEmitEvents, s ∈ (counted stream.contractEmitEvents).2 := by
  simp only [names, List.forall_mem_append, List.forall_mem_map] at h
  obtain ⟨⟨⟨hzonline, hzoffline⟩, hzevents⟩, hzstorage⟩ := h
  rw [← ofList_counted_iff, ← ofList_counted_iff]
  simp only [Contents.code, contents, moduleCode, counted_online hapis, counted_of_lt hstorage,
    map_cString_fst hzstorage, map_cString hzonline,
    map_cString fun s hs => hzoffline s (mem_of_mem_counted hs),
    map_cString fun s hs => hzevents s (mem_of_mem_counted hs), KeySet.ofList_entries, Code.mk.injEq,
    and_true, true_and]

end GluaModuleByteStream

theorem readsBack_save_iff (sha : Sha1) (stream : GluaModuleByteStream) :
    ReadsBack sha (saveCodeToFile sha stream) (stream.moduleCode sha) ↔ stream.Writable := by
  constructor
  · rintro ⟨bytes, rest, hsave, hread⟩
    have hbounded := Code.bounded_of_returns hread
    have hnames : ∀ s ∈ stream.names, 0 ∉ s ∧ s.length + 1 < 2 ^ 31 :=
      fun s hs => hbounded.names s ((stream.names_moduleCode sha).2 hs)
    have hshort : ∀ s ∈ stream.names, s.length < 2 ^ 31 := fun s hs => Nat.lt_of_succ_lt (hnames s hs).2
    obtain ⟨apis, hapis, -⟩ := Option.bind_eq_some_iff.1 hsave
    obtain ⟨hcount, hoffline, rfl⟩ := GluaModuleByteStream.newApis_eq_some.1 hapis
    rw [GluaModuleByteStream.saveCodeToFile_eq hapis hbounded.byteCode hbounded.storageProperties hshort]
      at hsave
    cases hsave
    obtain ⟨hfits, hread', hcode⟩ := (Contents.returns_iff hbounded.byteCode
      (GluaModuleByteStream.holds_contents hshort)).1 ⟨rest, hread⟩
    rw [GluaModuleByteStream.code_contents_iff hcount hbounded.storageProperties fun s hs =>
      (hnames s hs).1] at hcode
    exact {
      contractApis := hcount
      offlineCount := hoffline
      offlineApis := hcode.1
      events := hcode.2
      storageProperties := hbounded.storageProperties
      names := fun s hs => ⟨hread' s (GluaModuleByteStream.mem_names_contents hcount hcode.1 hcode.2
        hbounded.storageProperties hs), (hnames s hs).1⟩
      byteCode := length_bytes sha stream.contents ▸ hfits }
  · intro h
    have hshort : ∀ s ∈ stream.names, s.length < 2 ^ 31 :=
      fun s hs => Nat.lt_of_succ_lt (h.names s hs).1.2
    have hlen : stream.buff.length < 2 ^ 31 :=
      lt_of_le_of_lt (Nat.le_add_right _ 24) h.byteCode.length_lt
    have hapis := GluaModuleByteStream.newApis_eq_some.2 ⟨h.contractApis, h.offlineCount, rfl⟩
    obtain ⟨rest, hrest⟩ := (Contents.returns_iff hlen
      (GluaModuleByteStream.holds_contents hshort)).2
      ⟨(length_bytes sha stream.contents).symm ▸ h.byteCode,
        fun s hs => (h.names s (GluaModuleByteStream.names_contents hs)).1,
        (GluaModuleByteStream.code_contents_iff h.contractApis h.storageProperties fun s hs =>
          (h.names s hs).2).2 ⟨h.offlineApis, h.events⟩⟩
    exact ⟨_, rest, GluaModuleByteStream.saveCodeToFile_eq hapis hlen h.storageProperties hshort, hrest⟩

/-- Which codes and which compiled modules are read back from the files that are written of them. -/
theorem roundTrip_iff (sha : Sha1) :
    (∀ code, ReadsBack sha (loadContractToFile sha code) code ↔ code.Writable sha) ∧
      ∀ stream, ReadsBack sha (saveCodeToFile sha stream) (stream.moduleCode sha) ↔ stream.Writable :=
  ⟨readsBack_load_iff sha, readsBack_save_iff sha⟩

/-- A code with an event that has no name. -/
def unnamedEvent : Code where
  abi := .empty
  offlineAbi := .empty
  events := .ofList byteKey [[]]
  storageProperties := .empty
  byteCode := [0]
  codeHash := getHash zeroSha [0]

theorem unnamed_event_not_read : ¬∀ sha (code : Code), code.codeHash = getHash sha code.byteCode →
    ReadsBack sha (loadContractToFile sha code) code := by
  intro h
  have hread := (readsBack_load_iff zeroSha unnamedEvent).1 (h zeroSha unnamedEvent rfl)
  have hempty := (hread.names [] (by decide)).1.1
  exact absurd hempty (by decide)

end Achain.ContractFile
