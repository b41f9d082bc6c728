import Achain.Lib.Index
import Achain.ChainDatabase

/-!
# The indexes of the accounts

The name map, the address map and the vote set of a database that starts empty and is written only
by `AccountEntry::store` and `AccountEntry::remove`. A store erases the addresses of a whole history
only where its current key has changed, so an entry that drops an older key while it keeps the
current one leaves the address of the older key behind.
-/

namespace Achain

open Table

variable {P : Primitives}

/-! ## What a store erases and inserts -/

/-- The addresses of the keys that are not null. -/
def liveAddresses (P : Primitives) (keys : List PublicKeyType) : List Address :=
  (keys.filter (· ≠ 0)).map P.address

namespace AccountEntry

variable (P : Primitives)

def signingKeys (a : AccountEntry) : List PublicKeyType :=
  match a.delegateInfo with
  | some d => d.signingKeyHistory.keys
  | none => []

/-- The addresses an account is found by: its owner's, and those of the active and signing keys in
its histories that are not null. -/
def addresses (a : AccountEntry) : List Address :=
  P.address a.ownerKey :: (liveAddresses P a.activeKeyHistory.keys ++ liveAddresses P a.signingKeys)

/-- The addresses of all its keys, null keys among them. -/
def keyAddresses (a : AccountEntry) : List Address :=
  P.address a.ownerKey :: (a.activeKeyHistory.keys ++ a.signingKeys).map P.address

/-- The addresses `AccountEntry::store` erases for the entry it replaces. -/
def erasedAddresses (prev entry : AccountEntry) : List Address :=
  (if P.address prev.ownerKey ≠ P.address entry.ownerKey then [P.address prev.ownerKey] else []) ++
    (if prev.activeKey ≠ entry.activeKey then prev.activeKeyHistory.keys.map P.address else []) ++
    match prev.delegateInfo, entry.delegateInfo with
    | none, _ => []
    | some d, none => d.signingKeyHistory.keys.map P.address
    | some d, some e =>
      if d.signingKeyHistory.last ≠ e.signingKeyHistory.last then
        d.signingKeyHistory.keys.map P.address
      else []

/-- The names `AccountEntry::store` erases for the entry it finds. -/
def erasedNames (prev : Option AccountEntry) (entry : AccountEntry) : List Str :=
  match prev with
  | some prev => if prev.name ≠ entry.name then [prev.name] else []
  | none => []

/-- The addresses `AccountEntry::store` erases for the entry it finds. -/
def erasedFor (prev : Option AccountEntry) (entry : AccountEntry) : List Address :=
  match prev with
  | some prev => erasedAddresses P prev entry
  | none => []

variable {P}

theorem addresses_subset {a : AccountEntry} {x : Address} (h : x ∈ a.addresses P) :
    x ∈ a.keyAddresses P := by
  simp only [addresses, liveAddresses, List.mem_cons, List.mem_append, List.mem_map,
    List.mem_filter] at h
  simp only [keyAddresses, List.mem_cons, List.mem_map, List.mem_append]
  rcases h with h | ⟨key, ⟨hkey, -⟩, rfl⟩ | ⟨key, ⟨hkey, -⟩, rfl⟩
  · exact .inl h
  · exact .inr ⟨key, .inl hkey, rfl⟩
  · exact .inr ⟨key, .inr hkey, rfl⟩

theorem erasedAddresses_subset {prev entry : AccountEntry} {x : Address}
    (h : x ∈ erasedAddresses P prev entry) : x ∈ prev.keyAddresses P := by
  simp only [erasedAddresses, List.mem_append] at h
  simp only [keyAddresses, List.mem_cons, List.map_append, List.mem_append]
  rcases h with (h | h) | h
  · split_ifs at h with hne
    · exact .inl (List.mem_singleton.1 h)
    · cases h
  · split_ifs at h with hne
    · exact .inr (.inl h)
    · cases h
  · refine .inr (.inr ?_)
    unfold signingKeys
    cases hd : prev.delegateInfo with
    | none =>
      rw [hd] at h
      cases h
    | some d =>
      cases he : entry.delegateInfo with
      | none => simpa only [hd, he] using h
      | some e =>
        simp only [hd, he] at h
        split_ifs at h with hne
        · exact h
        · cases h

end AccountEntry

/-! ## The maps as functions -/

/-- The table of the accounts and its two maps, as they are read. -/
@[ext] structure AccountMaps where
  table : AccountIdType → Option AccountEntry
  name : Str → Option AccountIdType
  address : Address → Option AccountIdType

namespace AccountMaps

variable (m : AccountMaps)

def insertId (id : AccountIdType) (e : AccountEntry) : AccountMaps :=
  { m with table := fun k => if k = id then some e else m.table k }

def eraseId (id : AccountIdType) : AccountMaps :=
  { m with table := fun k => if k = id then none else m.table k }

def insertName (name : Str) (id : AccountIdType) : AccountMaps :=
  { m with name := fun n => if n = name then some id else m.name n }

def eraseNames (names : List Str) : AccountMaps :=
  { m with name := fun n => if n ∈ names then none else m.name n }

def insertAddresses (addrs : List Address) (id : AccountIdType) : AccountMaps :=
  { m with address := fun x => if x ∈ addrs then some id else m.address x }

def eraseAddresses (addrs : List Address) : AccountMaps :=
  { m with address := fun x => if x ∈ addrs then none else m.address x }

end AccountMaps

/-- What the operations of a database do to the maps read from it. -/
structure AccountReads {σ : Type} [AccountDbInterface σ] (maps : σ → AccountMaps) : Prop where
  insertId : ∀ db id e,
    maps (AccountDbInterface.accountInsertIntoIdMap db id e) = (maps db).insertId id e
  eraseId : ∀ db id, maps (AccountDbInterface.accountEraseFromIdMap db id) = (maps db).eraseId id
  insertName : ∀ db name id,
    maps (AccountDbInterface.accountInsertIntoNameMap db name id) = (maps db).insertName name id
  eraseName : ∀ db name,
    maps (AccountDbInterface.accountEraseFromNameMap db name) = (maps db).eraseNames [name]
  insertAddress : ∀ db addr id,
    maps (AccountDbInterface.accountInsertIntoAddressMap db addr id) =
      (maps db).insertAddresses [addr] id
  eraseAddress : ∀ db addr,
    maps (AccountDbInterface.accountEraseFromAddressMap db addr) = (maps db).eraseAddresses [addr]
  insertVote : ∀ db vote, maps (AccountDbInterface.accountInsertIntoVoteSet db vote) = maps db
  eraseVote : ∀ db vote, maps (AccountDbInterface.accountEraseFromVoteSet db vote) = maps db

namespace AccountMaps

theorem insertAddresses_append (m : AccountMaps) (l l' : List Address) (id : AccountIdType) :
    (m.insertAddresses l id).insertAddresses l' id = m.insertAddresses (l ++ l') id := by
  simp only [insertAddresses, mk.injEq, true_and]
  funext x
  by_cases h : x ∈ l <;> by_cases h' : x ∈ l' <;> simp [h, h']

theorem eraseAddresses_append (m : AccountMaps) (l l' : List Address) :
    (m.eraseAddresses l).eraseAddresses l' = m.eraseAddresses (l ++ l') := by
  simp only [eraseAddresses, mk.injEq, true_and]
  funext x
  by_cases h : x ∈ l <;> by_cases h' : x ∈ l' <;> simp [h, h']

@[simp] theorem insertAddresses_nil (m : AccountMaps) (id : AccountIdType) :
    m.insertAddresses [] id = m := by
  simp [insertAddresses]

@[simp] theorem eraseAddresses_nil (m : AccountMaps) : m.eraseAddresses [] = m := by
  simp [eraseAddresses]

@[simp] theorem eraseNames_nil (m : AccountMaps) : m.eraseNames [] = m := by
  simp [eraseNames]

end AccountMaps

namespace AccountReads

open AccountDbInterface

variable {σ : Type} [AccountDbInterface σ] {maps : σ → AccountMaps} (h : AccountReads maps)

include h

theorem eraseKeys : ∀ (keys : List PublicKeyType) (db : σ),
    maps (eraseKeyAddresses P db keys) = (maps db).eraseAddresses (keys.map P.address)
  | [], db => by simp [eraseKeyAddresses]
  | key :: keys, db => by
    have hrec := eraseKeys keys (accountEraseFromAddressMap db (P.address key))
    rw [h.eraseAddress, AccountMaps.eraseAddresses_append] at hrec
    exact hrec

theorem insertKeys (id : AccountIdType) : ∀ (keys : List PublicKeyType) (db : σ),
    maps (insertKeyAddresses P db keys id) =
      (maps db).insertAddresses (liveAddresses P keys) id
  | [], db => by simp [insertKeyAddresses, liveAddresses]
  | key :: keys, db => by
    by_cases hkey : key = 0
    · have hrec := insertKeys id keys db
      simp only [insertKeyAddresses, List.foldl_cons, hkey, ne_eq, not_true_eq_false, if_false]
        at hrec ⊢
      rw [hrec]
      simp [liveAddresses]
    · have hrec := insertKeys id keys (accountInsertIntoAddressMap db (P.address key) id)
      rw [h.insertAddress, AccountMaps.insertAddresses_append] at hrec
      simp only [insertKeyAddresses, List.foldl_cons, hkey, ne_eq, not_false_eq_true, if_true]
        at hrec ⊢
      rw [hrec]
      simp [liveAddresses, hkey]

theorem eraseKeys_if (c : Prop) [Decidable c] (keys : List PublicKeyType) (db : σ) :
    maps (if c then eraseKeyAddresses P db keys else db) =
      (maps db).eraseAddresses (if c then keys.map P.address else []) := by
  split_ifs
  · exact h.eraseKeys keys db
  · rw [AccountMaps.eraseAddresses_nil]

theorem eraseVote_if (c : Prop) [Decidable c] (vote : VoteDel) (db : σ) :
    maps (if c then accountEraseFromVoteSet db vote else db) = maps db := by
  split_ifs
  · exact h.eraseVote db vote
  · rfl

theorem storeErase (db : σ) (prev entry : AccountEntry) :
    maps (AccountEntry.storeErase P db prev entry) =
      ((maps db).eraseNames (if prev.name ≠ entry.name then [prev.name] else [])).eraseAddresses
        (AccountEntry.erasedAddresses P prev entry) := by
  have hname : ∀ db, maps (if prev.name ≠ entry.name then accountEraseFromNameMap db prev.name
      else db) = (maps db).eraseNames (if prev.name ≠ entry.name then [prev.name] else []) := by
    intro db
    split_ifs
    · exact h.eraseName db prev.name
    · rw [AccountMaps.eraseNames_nil]
  have howner : ∀ db, maps (if P.address prev.ownerKey ≠ P.address entry.ownerKey then
      accountEraseFromAddressMap db (P.address prev.ownerKey) else db) =
        (maps db).eraseAddresses (if P.address prev.ownerKey ≠ P.address entry.ownerKey then
          [P.address prev.ownerKey] else []) := by
    intro db
    split_ifs
    · exact h.eraseAddress db _
    · rw [AccountMaps.eraseAddresses_nil]
  unfold AccountEntry.storeErase AccountEntry.erasedAddresses
  cases prev.delegateInfo with
  | none =>
    dsimp only
    rw [h.eraseKeys_if, howner, hname, AccountMaps.eraseAddresses_append, List.append_nil]
  | some d =>
    cases entry.delegateInfo with
    | none =>
      dsimp only
      rw [h.eraseVote_if, h.eraseKeys, h.eraseKeys_if, howner, hname,
        AccountMaps.eraseAddresses_append, AccountMaps.eraseAddresses_append, List.append_assoc]
    | some e =>
      dsimp only
      rw [h.eraseVote_if, h.eraseKeys_if, h.eraseKeys_if, howner, hname,
        AccountMaps.eraseAddresses_append, AccountMaps.eraseAddresses_append, List.append_assoc]

theorem storeInsert (db : σ) (id : AccountIdType) (entry : AccountEntry) :
    maps (AccountEntry.storeInsert P db id entry) =
      (((maps db).insertId id entry).insertName entry.name id).insertAddresses
        (entry.addresses P) id := by
  unfold AccountEntry.storeInsert AccountEntry.addresses AccountEntry.signingKeys
  cases entry.delegateInfo with
  | none =>
    dsimp only
    rw [h.insertKeys, h.insertAddress, h.insertName, h.insertId,
      AccountMaps.insertAddresses_append]
    simp [liveAddresses]
  | some d =>
    dsimp only
    have hvote : ∀ db, maps (if (!entry.isRetracted) = true then
        accountInsertIntoVoteSet db ⟨entry.netVotes, id⟩ else db) = maps db := by
      intro db
      split_ifs
      · exact h.insertVote db _
      · rfl
    rw [hvote, h.insertKeys, h.insertKeys, h.insertAddress, h.insertName, h.insertId,
      AccountMaps.insertAddresses_append, AccountMaps.insertAddresses_append]
    simp

/-- What `AccountEntry::store` does to the maps: it erases for the entry it finds, and inserts. -/
theorem store (db : σ) (id : AccountIdType) (entry : AccountEntry) :
    maps (AccountEntry.store P db id entry) =
      (((((maps db).eraseNames (AccountEntry.erasedNames (accountLookupById db id) entry))
        |>.eraseAddresses (AccountEntry.erasedFor P (accountLookupById db id) entry))
        |>.insertId id entry).insertName entry.name id).insertAddresses (entry.addresses P) id := by
  unfold AccountEntry.store AccountEntry.erasedNames AccountEntry.erasedFor
  cases accountLookupById db id with
  | none =>
    dsimp only
    rw [h.storeInsert, AccountMaps.eraseNames_nil, AccountMaps.eraseAddresses_nil]
  | some prev =>
    dsimp only
    rw [h.storeInsert, h.storeErase]

/-- What `AccountEntry::remove` does to the maps, where it finds the account. -/
theorem remove {db : σ} {id : AccountIdType} {prev : AccountEntry}
    (hprev : accountLookupById db id = some prev) :
    maps (AccountEntry.remove P db id) =
      (((maps db).eraseId id).eraseNames [prev.name]).eraseAddresses (prev.keyAddresses P) := by
  unfold AccountEntry.remove AccountEntry.keyAddresses AccountEntry.signingKeys
  rw [hprev]
  cases hinfo : prev.delegateInfo with
  | none =>
    simp only [hinfo]
    rw [h.eraseKeys, h.eraseAddress, h.eraseName, h.eraseId, AccountMaps.eraseAddresses_append]
    simp
  | some d =>
    simp only [hinfo]
    rw [h.eraseVote_if, h.eraseKeys, h.eraseKeys, h.eraseAddress, h.eraseName, h.eraseId,
      AccountMaps.eraseAddresses_append, AccountMaps.eraseAddresses_append]
    simp

end AccountReads

/-! ## The database -/

namespace ChainTables

def accountMaps (c : ChainTables) : AccountMaps :=
  ⟨c.accountIdToEntry.lookup, c.accountNameToId.lookup, c.accountAddressToId.lookup⟩

theorem accountReads : AccountReads accountMaps where
  insertId c id e := by
    refine AccountMaps.ext (funext fun k => ?_) rfl rfl
    by_cases hk : k = id
    · subst hk
      simp [accountMaps, AccountMaps.insertId, AccountDbInterface.accountInsertIntoIdMap]
    · simp [accountMaps, AccountMaps.insertId, AccountDbInterface.accountInsertIntoIdMap, hk,
        Finmap.lookup_insert_of_ne]
  eraseId c id := by
    refine AccountMaps.ext (funext fun k => ?_) rfl rfl
    by_cases hk : k = id
    · subst hk
      simp [accountMaps, AccountMaps.eraseId, AccountDbInterface.accountEraseFromIdMap]
    · simp [accountMaps, AccountMaps.eraseId, AccountDbInterface.accountEraseFromIdMap, hk,
        Finmap.lookup_erase_ne]
  insertName c name id := by
    refine AccountMaps.ext rfl (funext fun n => ?_) rfl
    by_cases hn : n = name
    · subst hn
      simp [accountMaps, AccountMaps.insertName, AccountDbInterface.accountInsertIntoNameMap]
    · simp [accountMaps, AccountMaps.insertName, AccountDbInterface.accountInsertIntoNameMap, hn,
        Finmap.lookup_insert_of_ne]
  eraseName c name := by
    refine AccountMaps.ext rfl (funext fun n => ?_) rfl
    by_cases hn : n = name
    · subst hn
      simp [accountMaps, AccountMaps.eraseNames, AccountDbInterface.accountEraseFromNameMap]
    · simp [accountMaps, AccountMaps.eraseNames, AccountDbInterface.accountEraseFromNameMap, hn,
        Finmap.lookup_erase_ne]
  insertAddress c addr id := by
    refine AccountMaps.ext rfl rfl (funext fun x => ?_)
    by_cases hx : x = addr
    · subst hx
      simp [accountMaps, AccountMaps.insertAddresses,
        AccountDbInterface.accountInsertIntoAddressMap]
    · simp [accountMaps, AccountMaps.insertAddresses,
        AccountDbInterface.accountInsertIntoAddressMap, hx, Finmap.lookup_insert_of_ne]
  eraseAddress c addr := by
    refine AccountMaps.ext rfl rfl (funext fun x => ?_)
    by_cases hx : x = addr
    · subst hx
      simp [accountMaps, AccountMaps.eraseAddresses, AccountDbInterface.accountEraseFromAddressMap]
    · simp [accountMaps, AccountMaps.eraseAddresses, AccountDbInterface.accountEraseFromAddressMap,
        hx, Finmap.lookup_erase_ne]
  insertVote _ _ := rfl
  eraseVote _ _ := rfl

end ChainTables

/-! ## The vote set -/

namespace AccountEntry

/-- The place of a delegate that is not retracted in the ranking. -/
def ballots (a : AccountEntry) : List VoteDel :=
  if a.isDelegate && !a.isRetracted then [⟨a.netVotes, a.id⟩] else []

/-- The place `AccountEntry::store` erases for the entry it replaces. -/
def erasedBallots (prev entry : AccountEntry) : List VoteDel :=
  if prev.isDelegate && !prev.isRetracted &&
      (entry.isRetracted || !entry.isDelegate || prev.netVotes != entry.netVotes) then
    [⟨prev.netVotes, prev.id⟩]
  else []

/-- A store erases the place of the old entry or inserts it again. -/
theorem ballots_kept {prev entry : AccountEntry} (hid : entry.id = prev.id) {v : VoteDel}
    (h : v ∈ prev.ballots) : v ∈ entry.ballots ∨ v ∈ erasedBallots prev entry := by
  unfold ballots at h
  split_ifs at h with hprev
  · rw [List.mem_singleton] at h
    by_cases hkept : entry.isRetracted || !entry.isDelegate || prev.netVotes != entry.netVotes
    · refine .inr ?_
      rw [erasedBallots, if_pos (by simp [hprev, hkept]), List.mem_singleton]
      exact h
    · refine .inl ?_
      simp only [Bool.or_eq_true, Bool.not_eq_true', bne_iff_ne, ne_eq, not_or, not_not,
        Bool.not_eq_true, Bool.not_eq_false] at hkept
      rw [ballots, if_pos (by simp [hkept.1.1, hkept.1.2]), List.mem_singleton, hid, ← hkept.2]
      exact h
  · cases h

theorem erasedBallots_subset {prev entry : AccountEntry} {v : VoteDel}
    (h : v ∈ erasedBallots prev entry) : v ∈ prev.ballots := by
  unfold erasedBallots at h
  split_ifs at h with hc
  · rw [Bool.and_eq_true] at hc
    rw [ballots, if_pos hc.1]
    exact h
  · cases h

theorem mem_ballots {a : AccountEntry} {v : VoteDel} :
    v ∈ a.ballots ↔ a.isDelegate ∧ a.isRetracted = false ∧ v = ⟨a.netVotes, a.id⟩ := by
  unfold ballots
  split_ifs with h
  · simp only [Bool.and_eq_true, Bool.not_eq_true'] at h
    simp [h]
  · simp only [Bool.and_eq_true, Bool.not_eq_true', not_and, Bool.not_eq_false] at h
    simp only [List.not_mem_nil, false_iff, not_and]
    intro hd hr
    rw [h hd] at hr
    cases hr

end AccountEntry

namespace ChainTables

open AccountDbInterface

/-- The vote set as an index: a place in it belongs to the delegate it names. -/
def rank (c : ChainTables) (v : VoteDel) : Option AccountIdType :=
  if v ∈ c.delegateVotes then some v.delegateId else none

theorem eraseKeys_votes : ∀ (keys : List PublicKeyType) (c : ChainTables),
    (eraseKeyAddresses P c keys).delegateVotes = c.delegateVotes
  | [], _ => rfl
  | key :: keys, c => eraseKeys_votes keys (accountEraseFromAddressMap c (P.address key))

theorem insertKeys_votes (id : AccountIdType) : ∀ (keys : List PublicKeyType) (c : ChainTables),
    (insertKeyAddresses P c keys id).delegateVotes = c.delegateVotes
  | [], _ => rfl
  | key :: keys, c => by
    unfold insertKeyAddresses
    rw [List.foldl_cons]
    refine (insertKeys_votes id keys _).trans ?_
    split_ifs <;> rfl

theorem storeErase_votes (c : ChainTables) (prev entry : AccountEntry) (v : VoteDel) :
    v ∈ (AccountEntry.storeErase P c prev entry).delegateVotes ↔
      v ∈ c.delegateVotes ∧ v ∉ AccountEntry.erasedBallots prev entry := by
  have hname : ∀ c : ChainTables, (if prev.name ≠ entry.name then
      accountEraseFromNameMap c prev.name else c).delegateVotes = c.delegateVotes := by
    intro c
    split_ifs <;> rfl
  have howner : ∀ c : ChainTables, (if P.address prev.ownerKey ≠ P.address entry.ownerKey then
      accountEraseFromAddressMap c (P.address prev.ownerKey) else c).delegateVotes =
        c.delegateVotes := by
    intro c
    split_ifs <;> rfl
  have hkeys : ∀ (d : Prop) [Decidable d] (keys : List PublicKeyType) (c : ChainTables),
      (if d then eraseKeyAddresses P c keys else c).delegateVotes = c.delegateVotes := by
    intro d _ keys c
    split_ifs
    · exact eraseKeys_votes keys c
    · rfl
  have hvote : ∀ (d : Bool) (c : ChainTables),
      v ∈ (if d then accountEraseFromVoteSet c ⟨prev.netVotes, prev.id⟩ else c).delegateVotes ↔
        v ∈ c.delegateVotes ∧ v ∉ (if d then [⟨prev.netVotes, prev.id⟩] else []) := by
    intro d c
    cases d with
    | false => simp
    | true =>
      rw [if_pos rfl, if_pos rfl, List.mem_singleton]
      exact Finset.mem_erase.trans and_comm
  unfold AccountEntry.storeErase AccountEntry.erasedBallots AccountEntry.isDelegate
  cases prev.delegateInfo with
  | none =>
    dsimp only
    rw [hkeys, howner, hname]
    simp
  | some d =>
    cases entry.delegateInfo with
    | none =>
      dsimp only
      rw [hvote, eraseKeys_votes, hkeys, howner, hname]
      simp
    | some e =>
      dsimp only
      rw [hvote, hkeys, hkeys, howner, hname]
      simp

theorem storeInsert_votes (c : ChainTables) {id : AccountIdType} {entry : AccountEntry}
    (hid : entry.id = id) (v : VoteDel) :
    v ∈ (AccountEntry.storeInsert P c id entry).delegateVotes ↔
      v ∈ entry.ballots ∨ v ∈ c.delegateVotes := by
  have hvote : ∀ c : ChainTables, v ∈ (if (!entry.isRetracted) = true then
      accountInsertIntoVoteSet c ⟨entry.netVotes, id⟩ else c).delegateVotes ↔
        entry.isRetracted = false ∧ v = ⟨entry.netVotes, id⟩ ∨ v ∈ c.delegateVotes := by
    intro c
    cases entry.isRetracted with
    | false =>
      rw [Bool.not_false, if_pos rfl]
      exact Finset.mem_insert.trans (by simp)
    | true => simp
  rw [AccountEntry.mem_ballots, hid]
  unfold AccountEntry.storeInsert AccountEntry.isDelegate
  cases entry.delegateInfo with
  | none =>
    dsimp only
    rw [insertKeys_votes]
    simp [accountInsertIntoAddressMap, accountInsertIntoNameMap, accountInsertIntoIdMap]
  | some d =>
    dsimp only
    rw [hvote, insertKeys_votes, insertKeys_votes]
    simp [accountInsertIntoAddressMap, accountInsertIntoNameMap, accountInsertIntoIdMap]

theorem remove_votes {c : ChainTables} {id : AccountIdType} {prev : AccountEntry}
    (hprev : c.accountIdToEntry.lookup id = some prev) (v : VoteDel) :
    v ∈ (AccountEntry.remove P c id).delegateVotes ↔ v ∈ c.delegateVotes ∧ v ∉ prev.ballots := by
  have hvote : ∀ c : ChainTables, v ∈ (if (!prev.isRetracted) = true then
      accountEraseFromVoteSet c ⟨prev.netVotes, prev.id⟩ else c).delegateVotes ↔
        v ∈ c.delegateVotes ∧ ¬ (prev.isRetracted = false ∧ v = ⟨prev.netVotes, prev.id⟩) := by
    intro c
    cases prev.isRetracted with
    | false =>
      rw [Bool.not_false, if_pos rfl]
      exact (Finset.mem_erase.trans and_comm).trans (by simp)
    | true => simp
  have hlookup : accountLookupById c id = some prev := hprev
  rw [AccountEntry.mem_ballots]
  unfold AccountEntry.remove AccountEntry.isDelegate
  rw [hlookup]
  cases hinfo : prev.delegateInfo with
  | none =>
    simp only [hinfo]
    rw [eraseKeys_votes]
    simp [accountEraseFromAddressMap, accountEraseFromNameMap, accountEraseFromIdMap]
  | some d =>
    simp only [hinfo]
    rw [hvote, eraseKeys_votes, eraseKeys_votes]
    simp [accountEraseFromAddressMap, accountEraseFromNameMap, accountEraseFromIdMap]

end ChainTables

/-! ## Runs of stores and removals -/

/-- A call of `AccountEntry::store` or `AccountEntry::remove`. -/
inductive AccountCall where
  | store (id : AccountIdType) (entry : AccountEntry)
  | remove (id : AccountIdType)

def AccountCall.run {σ : Type} [AccountDbInterface σ] (P : Primitives) (db : σ) : AccountCall → σ
  | .store id entry => AccountEntry.store P db id entry
  | .remove id => AccountEntry.remove P db id

def AccountCall.id : AccountCall → AccountIdType
  | .store id _ => id
  | .remove id => id

/-- Distinct accounts share neither a name nor the address of a key. -/
def AccountsUnshared (P : Primitives) (table : AccountIdType → Option AccountEntry) : Prop :=
  ∀ ⦃i j a b⦄, i ≠ j → table i = some a → table j = some b →
    a.name ≠ b.name ∧ ∀ x ∈ a.keyAddresses P, x ∉ b.addresses P

/-- The vote set, the name map and the address map hold what the stored accounts say, and nothing
else. -/
structure AccountIndexExact (P : Primitives) (c : ChainTables) : Prop where
  votes : ∀ v, v ∈ c.delegateVotes ↔ ∃ k a, c.accountIdToEntry.lookup k = some a ∧
    a.isDelegate ∧ a.isRetracted = false ∧ v = ⟨a.netVotes, a.id⟩
  names : ∀ name id, c.accountNameToId.lookup name = some id ↔
    ∃ k a, c.accountIdToEntry.lookup k = some a ∧ a.name = name ∧ a.id = id
  addresses : ∀ addr id, c.accountAddressToId.lookup addr = some id ↔
    ∃ k a, c.accountIdToEntry.lookup k = some a ∧ addr ∈ a.addresses P ∧ a.id = id

/-- A store under the entry's own id that leaves no address behind: each address of the entry
replaced is erased or is an address of the new entry. -/
def AccountCall.Clean (P : Primitives) (c : ChainTables) : AccountCall → Prop
  | .store id entry => entry.id = id ∧ ∀ prev, c.accountIdToEntry.lookup id = some prev →
      ∀ x ∈ prev.addresses P, x ∈ entry.addresses P ∨ x ∈ AccountEntry.erasedAddresses P prev entry
  | .remove _ => True

instance (c : ChainTables) (call : AccountCall) : Decidable (call.Clean P c) :=
  match call with
  | .store id entry => inferInstanceAs (Decidable (entry.id = id ∧
      ∀ prev ∈ c.accountIdToEntry.lookup id, ∀ x ∈ prev.addresses P,
        x ∈ entry.addresses P ∨ x ∈ AccountEntry.erasedAddresses P prev entry))
  | .remove _ => inferInstanceAs (Decidable True)

/-- The vote set ranks the delegates of the table, each stored under its own id. -/
structure Ranked (c : ChainTables) : Prop where
  keyed : ∀ k a, c.accountIdToEntry.lookup k = some a → a.id = k
  votes : Indexes AccountEntry.ballots c.accountMaps.table c.rank

namespace Ranked

variable {c : ChainTables} {id : AccountIdType} {entry : AccountEntry}

theorem store_table (c : ChainTables) (id : AccountIdType) (entry : AccountEntry)
    (k : AccountIdType) : (AccountEntry.store P c id entry).accountMaps.table k =
      if k = id then some entry else c.accountMaps.table k := by
  rw [ChainTables.accountReads.store]
  rfl

theorem remove_table (c : ChainTables) (id k : AccountIdType) :
    (AccountEntry.remove P c id).accountMaps.table k = if k = id then none else c.accountMaps.table k := by
  cases hprev : c.accountMaps.table id with
  | none =>
    have hsame : AccountEntry.remove P c id = c := by
      unfold AccountEntry.remove
      rw [show AccountDbInterface.accountLookupById c id = none from hprev]
    rw [hsame]
    split_ifs with hk
    · rw [hk, hprev]
    · rfl
  | some prev =>
    have hlookup : AccountDbInterface.accountLookupById c id = some prev := hprev
    rw [ChainTables.accountReads.remove (P := P) hlookup]
    rfl

theorem store_votes (h : Ranked c) (hid : entry.id = id) :
    Indexes AccountEntry.ballots (AccountEntry.store P c id entry).accountMaps.table
      (AccountEntry.store P c id entry).rank := by
  -- Every place names its delegate, so no account has the place of another one.
  have hown : ∀ {k : AccountIdType} {w : AccountEntry} {v : VoteDel},
      c.accountMaps.table k = some w → v ∈ w.ballots → v.delegateId = k := by
    intro k w v hw hv
    rw [(AccountEntry.mem_ballots.1 hv).2.2]
    exact h.keyed k w hw
  have hentry : ∀ {v : VoteDel}, v ∈ entry.ballots → v.delegateId = id := by
    intro v hv
    rw [(AccountEntry.mem_ballots.1 hv).2.2]
    exact hid
  cases hprev : c.accountMaps.table id with
  | none =>
    refine (h.votes.store_iff (k := id) (v := entry) [] (store_table c id entry)
      (fun v => ?_) fun k w hk hw v hv => ⟨fun he => ?_, by simp⟩).2 fun w hw => ?_
    · have hvotes := ChainTables.storeInsert_votes (P := P) c hid v
      have hstore : AccountEntry.store P c id entry = AccountEntry.storeInsert P c id entry := by
        unfold AccountEntry.store
        rw [show AccountDbInterface.accountLookupById c id = none from hprev]
      unfold ChainTables.rank
      rw [hstore]
      simp only [hvotes]
      by_cases hv : v ∈ entry.ballots
      · simp [hv, hentry hv]
      · simp [hv]
    · exact hk ((hown hw hv).symm.trans (hentry he))
    · rw [hprev] at hw
      cases hw
  | some prev =>
    have hprevId : prev.id = id := h.keyed id prev hprev
    refine (h.votes.store_iff (k := id) (v := entry)
      (AccountEntry.erasedBallots prev entry) (store_table c id entry) (fun v => ?_)
      fun k w hk hw v hv => ⟨fun he => ?_, fun he => ?_⟩).2 fun w hw v hv => ?_
    · have hinsert := ChainTables.storeInsert_votes (P := P)
        (AccountEntry.storeErase P c prev entry) hid v
      have herase := ChainTables.storeErase_votes (P := P) c prev entry v
      have hstore : AccountEntry.store P c id entry =
          AccountEntry.storeInsert P (AccountEntry.storeErase P c prev entry) id entry := by
        unfold AccountEntry.store
        rw [show AccountDbInterface.accountLookupById c id = some prev from hprev]
      unfold ChainTables.rank
      rw [hstore]
      simp only [hinsert, herase]
      by_cases hv : v ∈ entry.ballots
      · simp [hv, hentry hv]
      · by_cases he : v ∈ AccountEntry.erasedBallots prev entry
        · simp [hv, he]
        · simp [hv, he]
    · exact hk ((hown hw hv).symm.trans (hentry he))
    · exact hk ((hown hw hv).symm.trans
        (hown hprev (AccountEntry.erasedBallots_subset he)))
    · rw [hprev, Option.some_inj] at hw
      subst hw
      exact AccountEntry.ballots_kept (hid.trans hprevId.symm) hv

/-- A store under the entry's own id keeps the ranking. -/
theorem store (h : Ranked c) (hid : entry.id = id) : Ranked (AccountEntry.store P c id entry) where
  keyed k a ha := by
    have htable := store_table (P := P) c id entry k
    rw [show (AccountEntry.store P c id entry).accountMaps.table k = some a from ha] at htable
    split_ifs at htable with hk
    · rw [Option.some_inj] at htable
      rw [htable, hk]
      exact hid
    · exact h.keyed k a htable.symm
  votes := h.store_votes hid

end Ranked

/-- The three indexes of the accounts, each an index of the table. -/
structure AccountIndexed (P : Primitives) (c : ChainTables) : Prop where
  keyed : ∀ k a, c.accountIdToEntry.lookup k = some a → a.id = k
  names : Indexes (fun a : AccountEntry => [a.name]) c.accountMaps.table c.accountMaps.name
  addresses : Indexes (AccountEntry.addresses P) c.accountMaps.table c.accountMaps.address
  votes : Indexes AccountEntry.ballots c.accountMaps.table c.rank

namespace AccountIndexed

variable {c : ChainTables}

theorem empty (stats : Bool) : AccountIndexed P (.empty stats) where
  keyed k a h := by simp [ChainTables.empty] at h
  names := .empty
  addresses := .empty
  votes := .empty

theorem exact (h : AccountIndexed P c) : AccountIndexExact P c where
  votes v := by
    have hrank : v ∈ c.delegateVotes ↔ c.rank v = some v.delegateId := by
      simp [ChainTables.rank]
    rw [hrank, h.votes v v.delegateId]
    constructor
    · rintro ⟨a, ha, hv⟩
      exact ⟨_, a, ha, AccountEntry.mem_ballots.1 hv⟩
    · rintro ⟨k, a, ha, hv⟩
      refine ⟨a, ?_, AccountEntry.mem_ballots.2 hv⟩
      rw [hv.2.2, h.keyed k a ha]
      exact ha
  names name id := by
    refine (h.names name id).trans ⟨?_, ?_⟩
    · rintro ⟨a, ha, hname⟩
      exact ⟨id, a, ha, (List.mem_singleton.1 hname).symm, h.keyed id a ha⟩
    · rintro ⟨k, a, ha, rfl, rfl⟩
      rw [h.keyed k a ha]
      exact ⟨a, ha, List.mem_singleton_self _⟩
  addresses addr id := by
    refine (h.addresses addr id).trans ⟨?_, ?_⟩
    · rintro ⟨a, ha, haddr⟩
      exact ⟨id, a, ha, haddr, h.keyed id a ha⟩
    · rintro ⟨k, a, ha, haddr, rfl⟩
      rw [h.keyed k a ha]
      exact ⟨a, ha, haddr⟩

theorem ranked (h : AccountIndexed P c) : Ranked c := ⟨h.keyed, h.votes⟩

section Step

open Ranked (store_table)

variable {id : AccountIdType} {entry : AccountEntry}

theorem store_names (h : AccountIndexed P c)
    (hunshared : AccountsUnshared P c.accountMaps.table)
    (hunshared' : AccountsUnshared P (AccountEntry.store P c id entry).accountMaps.table) :
    Indexes (fun a : AccountEntry => [a.name]) (AccountEntry.store P c id entry).accountMaps.table
      (AccountEntry.store P c id entry).accountMaps.name := by
  refine (h.names.store_iff (k := id) (v := entry)
    (AccountEntry.erasedNames (c.accountMaps.table id) entry)
    (store_table c id entry) (fun name => ?_) fun k w hk hw x hx => ?_).2 fun w hw x hx => ?_
  · rw [ChainTables.accountReads.store]
    simp only [List.mem_singleton, AccountMaps.insertAddresses, AccountMaps.insertName,
      AccountMaps.insertId, AccountMaps.eraseAddresses, AccountMaps.eraseNames]
    congr 2
  · have hentry := store_table (P := P) c id entry id
    have hother := store_table (P := P) c id entry k
    rw [if_pos rfl] at hentry
    rw [if_neg hk, hw] at hother
    rw [List.mem_singleton] at hx ⊢
    refine ⟨fun he => (hunshared' hk hother hentry).1 (hx.symm.trans he), fun he => ?_⟩
    unfold AccountEntry.erasedNames at he
    cases hprev : c.accountMaps.table id with
    | none =>
      rw [hprev] at he
      cases he
    | some prev =>
      simp only [hprev] at he
      split_ifs at he
      · exact (hunshared hk hw hprev).1 (hx.symm.trans (List.mem_singleton.1 he))
      · cases he
  · rw [List.mem_singleton] at hx ⊢
    by_cases he : x = entry.name
    · exact .inl he
    · refine .inr ?_
      simp only [AccountEntry.erasedNames, hw]
      rw [if_pos fun heq => he (hx.trans heq), List.mem_singleton]
      exact hx

/-- The address map is right after a store exactly where the store left no address behind. -/
theorem store_addresses_iff (h : AccountIndexed P c)
    (hunshared : AccountsUnshared P c.accountMaps.table)
    (hunshared' : AccountsUnshared P (AccountEntry.store P c id entry).accountMaps.table) :
    Indexes (AccountEntry.addresses P) (AccountEntry.store P c id entry).accountMaps.table
        (AccountEntry.store P c id entry).accountMaps.address ↔
      ∀ prev, c.accountIdToEntry.lookup id = some prev → ∀ x ∈ prev.addresses P,
        x ∈ entry.addresses P ∨ x ∈ AccountEntry.erasedAddresses P prev entry := by
  rw [h.addresses.store_iff (k := id) (v := entry)
    (AccountEntry.erasedFor P (c.accountMaps.table id) entry) (store_table c id entry)
    (fun x => by rw [ChainTables.accountReads.store]; rfl)]
  · refine forall_congr' fun prev => forall_congr' fun hprev => ?_
    have hfor : AccountEntry.erasedFor P (c.accountMaps.table id) entry =
        AccountEntry.erasedAddresses P prev entry := by
      rw [show c.accountMaps.table id = some prev from hprev]
      rfl
    rw [hfor]
  · intro k w hk hw x hx
    have hentry := store_table (P := P) c id entry id
    have hother := store_table (P := P) c id entry k
    rw [if_pos rfl] at hentry
    rw [if_neg hk, hw] at hother
    refine ⟨fun he => (hunshared' hk hother hentry).2 x (AccountEntry.addresses_subset hx) he,
      fun he => ?_⟩
    unfold AccountEntry.erasedFor at he
    cases hprev : c.accountMaps.table id with
    | none =>
      rw [hprev] at he
      cases he
    | some prev =>
      simp only [hprev] at he
      exact (hunshared (Ne.symm hk) hprev hw).2 x (AccountEntry.erasedAddresses_subset he) hx

/-- A store that is clean keeps the indexes. -/
theorem store (h : AccountIndexed P c) (hunshared : AccountsUnshared P c.accountMaps.table)
    (hunshared' : AccountsUnshared P (AccountEntry.store P c id entry).accountMaps.table)
    (hclean : (AccountCall.store id entry).Clean P c) :
    AccountIndexed P (AccountEntry.store P c id entry) where
  keyed := (h.ranked.store hclean.1).keyed
  names := h.store_names hunshared hunshared'
  addresses := (h.store_addresses_iff hunshared hunshared').2 hclean.2
  votes := (h.ranked.store hclean.1).votes

theorem remove (h : AccountIndexed P c) (hunshared : AccountsUnshared P c.accountMaps.table)
    (id : AccountIdType) : AccountIndexed P (AccountEntry.remove P c id) := by
  cases hprev : c.accountMaps.table id with
  | none =>
    have hsame : AccountEntry.remove P c id = c := by
      unfold AccountEntry.remove
      rw [show AccountDbInterface.accountLookupById c id = none from hprev]
    rw [hsame]
    exact h
  | some prev =>
    have hlookup : AccountDbInterface.accountLookupById c id = some prev := hprev
    have hmaps := ChainTables.accountReads.remove (P := P) hlookup
    have htable := Ranked.remove_table (P := P) c id
    have hown : ∀ {w : AccountEntry}, c.accountMaps.table id = some w → w = prev := by
      intro w hw
      rw [hprev, Option.some_inj] at hw
      exact hw.symm
    refine ⟨fun k a ha => ?_, ?_, ?_, ?_⟩
    · have hk := htable k
      rw [show (AccountEntry.remove P c id).accountMaps.table k = some a from ha] at hk
      split_ifs at hk
      exact h.keyed k a hk.symm
    · refine h.names.remove (k := id) [prev.name] htable (fun name => ?_)
        (fun w hw x hx => ?_) fun k w hk hw x hx he => ?_
      · rw [hmaps]
        simp only [AccountMaps.eraseAddresses, AccountMaps.eraseNames, AccountMaps.eraseId]
        congr 1
      · rw [hown hw] at hx
        exact hx
      · rw [List.mem_singleton] at hx he
        exact (hunshared hk hw hprev).1 (hx.symm.trans he)
    · refine h.addresses.remove (k := id) (prev.keyAddresses P) htable (fun x => ?_)
        (fun w hw x hx => ?_) fun k w hk hw x hx he => ?_
      · rw [hmaps]
        rfl
      · rw [hown hw] at hx
        exact AccountEntry.addresses_subset hx
      · exact (hunshared (Ne.symm hk) hprev hw).2 x he hx
    · refine h.votes.remove (k := id) prev.ballots htable (fun v => ?_)
        (fun w hw v hv => ?_) fun k w hk hw v hv he => ?_
      · have hvotes := ChainTables.remove_votes (P := P) hprev v
        unfold ChainTables.rank
        simp only [hvotes]
        by_cases hv : v ∈ prev.ballots <;> simp [hv]
      · rw [hown hw] at hv
        exact hv
      · have hv' := (AccountEntry.mem_ballots.1 hv).2.2
        have he' := (AccountEntry.mem_ballots.1 he).2.2
        refine hk ?_
        rw [← h.keyed k w hw, ← h.keyed id prev hprev]
        exact (VoteDel.mk.injEq .. ▸ hv'.symm.trans he').2

end Step

end AccountIndexed

namespace AccountCall

/-- The database after a sequence of calls. -/
def runs (P : Primitives) (stats : Bool) (calls : List AccountCall) : ChainTables :=
  calls.foldl (run P) (.empty stats)

theorem runs_append (stats : Bool) (calls : List AccountCall) (call : AccountCall) :
    runs P stats (calls ++ [call]) = call.run P (runs P stats calls) := by
  simp [runs]

/-- A clean call keeps the indexes. -/
theorem indexed {c : ChainTables} {call : AccountCall} (h : AccountIndexed P c)
    (hunshared : AccountsUnshared P c.accountMaps.table)
    (hunshared' : AccountsUnshared P (call.run P c).accountMaps.table) (hclean : call.Clean P c) :
    AccountIndexed P (call.run P c) := by
  cases call with
  | store id entry => exact h.store hunshared hunshared' hclean
  | remove id => exact h.remove hunshared id

/-- The indexes after a run of clean calls, by induction on the run. -/
theorem runs_indexed (stats : Bool) (calls : List AccountCall)
    (hunshared : ∀ pre, pre <+: calls → AccountsUnshared P (runs P stats pre).accountMaps.table)
    (hclean : ∀ pre call, pre ++ [call] <+: calls → call.Clean P (runs P stats pre)) :
    AccountIndexed P (runs P stats calls) := by
  induction calls using List.reverseRecOn with
  | nil => exact .empty stats
  | append_singleton calls call ih =>
    have hprefix : calls <+: calls ++ [call] := List.prefix_append calls [call]
    have hinit := ih (fun pre hpre => hunshared pre (hpre.trans hprefix))
      fun pre c hpre => hclean pre c (hpre.trans hprefix)
    have hlast := hunshared (calls ++ [call]) (List.prefix_refl _)
    rw [runs_append] at hlast ⊢
    exact indexed hinit (hunshared calls hprefix) hlast (hclean calls call (List.prefix_refl _))

end AccountCall

open AccountCall

/-- From an empty database, after every sequence of stores and removals in which distinct accounts
never share a name or a key address and every store is clean, the vote set, the name map and the
address map hold exactly what the stored accounts say. -/
theorem account_index_exact (P : Primitives) (stats : Bool) (calls : List AccountCall)
    (hunshared : ∀ pre, pre <+: calls → AccountsUnshared P (runs P stats pre).accountMaps.table)
    (hclean : ∀ pre call, pre ++ [call] <+: calls → call.Clean P (runs P stats pre)) :
    AccountIndexExact P (runs P stats calls) :=
  (runs_indexed stats calls hunshared hclean).exact

/-- An account of owner key `9` with the given active keys. -/
def accountWithKeys (active : KeyHistory) : AccountEntry :=
  { (default : AccountEntry) with id := 1, name := ['a'], ownerKey := 9, activeKeyHistory := active }

/-- Calls under the ids `ids` alone. -/
theorem runs_outside {stats : Bool} {ids : List AccountIdType} {calls : List AccountCall}
    (h : ∀ call ∈ calls, call.id ∈ ids) {k : AccountIdType} (hk : k ∉ ids) :
    (runs P stats calls).accountMaps.table k = none := by
  induction calls using List.reverseRecOn with
  | nil => rfl
  | append_singleton calls call ih =>
    rw [List.forall_mem_append, List.forall_mem_singleton] at h
    obtain ⟨hcalls, hcall⟩ := h
    have hne : k ≠ call.id := fun heq => hk (heq ▸ hcall)
    rw [runs_append, ← ih hcalls]
    cases call with
    | store id entry => exact (Ranked.store_table _ id entry k).trans (if_neg hne)
    | remove id => exact (Ranked.remove_table _ id k).trans (if_neg hne)

/-- After calls under the ids `ids` only accounts of these ids can share anything. -/
theorem unshared_of_ids {stats : Bool} {ids : List AccountIdType} {calls : List AccountCall}
    (hids : ∀ call ∈ calls, call.id ∈ ids)
    (h : ∀ pre ∈ calls.inits, ∀ i ∈ ids, ∀ j ∈ ids, i ≠ j →
      ∀ a ∈ (runs P stats pre).accountMaps.table i, ∀ b ∈ (runs P stats pre).accountMaps.table j,
        a.name ≠ b.name ∧ ∀ x ∈ a.keyAddresses P, x ∉ b.addresses P) :
    ∀ pre, pre <+: calls → AccountsUnshared P (runs P stats pre).accountMaps.table := by
  intro pre hpre i j a b hij ha hb
  have hmem : ∀ {k e}, (runs P stats pre).accountMaps.table k = some e → k ∈ ids := by
    intro k e he
    by_contra hk
    rw [runs_outside (fun call hcall => hids call (hpre.subset hcall)) hk] at he
    cases he
  exact h pre ((List.mem_inits _ _).2 hpre) i (hmem ha) j (hmem hb) hij a ha b hb

/-- A delegate of id `1` is stored, then account `2`; the delegate gets a new key and other votes, and
account `2` is removed. -/
def electedCalls : List AccountCall :=
  let delegate (active : KeyHistory) (votes : ShareType) : AccountEntry :=
    { accountWithKeys active with
      delegateInfo := some { (default : DelegateStats) with votesFor := votes } }
  [.store 1 (delegate (.single 1 5) 100),
    .store 2 { accountWithKeys (.single 1 6) with id := 2, name := ['b'], ownerKey := 8 },
    .store 1 (delegate ((KeyHistory.single 1 5).insert 2 7) 250), .remove 2]

theorem account_index_exact_of_elected :
    AccountIndexExact .plain (runs .plain false electedCalls) := by
  have hids : ∀ call ∈ electedCalls, call.id ∈ [1, 2] := by decide
  refine account_index_exact .plain false electedCalls (unshared_of_ids hids (by decide +kernel)) ?_
  intro pre call hpre
  have hclean : ∀ i < electedCalls.length, ∀ call ∈ electedCalls[i]?,
      call.Clean .plain (runs .plain false (electedCalls.take i)) := by decide +kernel
  obtain ⟨rest, hrest⟩ := hpre
  rw [List.append_assoc, List.singleton_append] at hrest
  have htake : electedCalls.take pre.length = pre := by rw [← hrest, List.take_left]
  rw [← htake]
  refine hclean _ ?_ call ?_
  · simp [← hrest]
  · simp [← hrest]

/-- The account with active keys `5` and then `6`, stored again with `6` alone: its current key is
the same, and the address of key `5` stays in the map. -/
theorem dropped_key_stays :
    let calls := [AccountCall.store 1 (accountWithKeys ((KeyHistory.single 1 5).insert 2 6)),
      AccountCall.store 1 (accountWithKeys (.single 2 6))]
    (∀ pre, pre <+: calls → AccountsUnshared .plain (runs .plain false pre).accountMaps.table) ∧
      ¬ AccountIndexExact .plain (runs .plain false calls) := by
  have hids : ∀ call ∈ [AccountCall.store 1 (accountWithKeys ((KeyHistory.single 1 5).insert 2 6)),
      AccountCall.store 1 (accountWithKeys (.single 2 6))], call.id ∈ [(1 : AccountIdType)] := by decide
  refine ⟨unshared_of_ids hids (by decide +kernel), fun h => ?_⟩
  · have hmap := (h.addresses 5 1).1 (by decide +kernel)
    obtain ⟨k, a, ha, haddr, -⟩ := hmap
    have htable := Ranked.store_table (P := .plain)
      (runs .plain false [.store 1 (accountWithKeys ((KeyHistory.single 1 5).insert 2 6))]) 1
      (accountWithKeys (.single 2 6)) k
    have htable := htable.symm.trans ha
    split_ifs at htable with hk
    · rw [Option.some_inj] at htable
      subst htable
      revert haddr
      decide
    · have hout := (List.forall_mem_cons.1 hids).1
      rw [runs_outside (List.forall_mem_singleton.2 hout) (by simpa using hk)] at htable
      cases htable

end Achain
