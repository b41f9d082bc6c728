import Achain.Proofs.StoredKeys
import Achain.Lib.Traces

/-!
# Keys that are lost

A private key is lost where a record without it is stored at its address, and where the password changes for
some of the keys only. No other call loses one, no entry takes the place of one of another kind, and the
indexes that are given out are free.
-/

namespace Achain.Wallets

open Table Stateful

variable {PrivateKey ExtendedPrivateKey : Type}

/-! ## Runs of calls -/

/-- The calls that store keys, accounts and the password, all but the removal of an account. -/
inductive Call (PrivateKey : Type) where
  | storeKey (key : KeyData)
  | storeAccount (account : AccountData) (password : Password)
  | importKey (password : Password) (accountName : Str) (privateKey : PrivateKey) (moveExisting : Bool)
  | generateNewAccount (now : TimePointSec) (password : Password) (accountName : Str)
      (privateData : Variant)
  | generateNewAccountChildKey (password : Password) (accountName : Str)
  | generateNewOneTimeKey (password : Password) (oneTimePrivateKey : PrivateKey)
  | changePassword (order : List Address) (oldPassword newPassword : Password)

/-- The wallet with the password of its master key. -/
structure Session where
  db : WalletDb
  password : Password

section Run

variable [DecidableEq PrivateKey] [DecidableEq ExtendedPrivateKey]
variable (c : Crypto PrivateKey ExtendedPrivateKey) (memory : Address) (depth : Nat)

/-- The wallet after a call, which may have thrown. -/
def Call.apply : Call PrivateKey → WalletDb → WalletDb
  | .storeKey key => final (WalletDb.storeKey c memory depth key)
  | .storeAccount account password => final (WalletDb.storeAccount c memory depth account password)
  | .importKey password accountName privateKey moveExisting =>
    final (WalletDb.importKey c memory depth password accountName privateKey moveExisting)
  | .generateNewAccount now password accountName privateData =>
    final (WalletDb.generateNewAccount c memory depth now password accountName privateData)
  | .generateNewAccountChildKey password accountName =>
    final (WalletDb.generateNewAccountChildKey c memory depth password accountName)
  | .generateNewOneTimeKey password oneTimePrivateKey =>
    final (WalletDb.generateNewOneTimeKey c memory depth password oneTimePrivateKey)
  | .changePassword order oldPassword newPassword =>
    final (WalletDb.changePassword c order oldPassword newPassword)

/-- A call in a session. The password is the new one once the master key is stored under it. -/
def Session.step (s : Session) (call : Call PrivateKey) : Session :=
  let db := call.apply c memory depth s.db
  match call with
  | .changePassword _ _ newPassword =>
    ⟨db, if db.walletMasterKey = s.db.walletMasterKey then s.password else newPassword⟩
  | _ => ⟨db, s.password⟩

end Run

/-! ## What a run keeps -/

section Kept

variable (c : Crypto PrivateKey ExtendedPrivateKey)

/-- The private key at an address, in memory and in the file. -/
def Session.Holds (s : Session) (a : Address) (k : PrivateKey) : Prop :=
  ∃ e, s.db.keys.lookup a = some e ∧ e.data.secret c s.password = some k ∧
    s.db.entrys.lookup e.walletEntryIndex = some (.key e)

/-- The private keys are still held, no entry has another kind, and an index that is given out is free. -/
structure LosesNothing (s s' : Session) : Prop where
  keys : ∀ a k, s.db.keySecret c s.password a = some k → s'.Holds c a k
  kinds : ∀ i g g', s.db.entrys.lookup i = some g → s'.db.entrys.lookup i = some g' → g'.type = g.type
  free : ∀ i w', WalletDb.newWalletEntryIndex c s'.db = .ok i w' → i ∉ s'.db.entrys

end Kept

/-! ## Calls that lose nothing -/

section Allowed

variable (c : Crypto PrivateKey ExtendedPrivateKey)

/-- The keys of the accounts. -/
def knownKeys (w : WalletDb) : Finset PublicKeyType :=
  w.accounts.keys.biUnion fun i => (w.accounts.lookup i).elim ∅ fun e => e.data.allKeys.toFinset

/-- Every private key that is decrypted belongs to its address. -/
def OwnAddresses (w : WalletDb) (p : Password) : Prop :=
  ∀ a k, w.keySecret c p a = some k → c.address (c.getPublicKey k) = a

namespace Call

/-- As many entries as a call may add, but for records of keys of accounts. -/
def size : Call PrivateKey → Nat
  | .storeAccount account _ => account.allKeys.length + 1
  | .generateNewAccount .. => 4
  | .changePassword .. => 0
  | _ => 1

/-- There are indexes left. -/
def Fits (w : WalletDb) (call : Call PrivateKey) : Prop :=
  nextIndex w + (missing c (knownKeys w) w).card + call.size < 2 ^ 31

instance (w : WalletDb) (call : Call PrivateKey) : Decidable (call.Fits c w) :=
  inferInstanceAs (Decidable (_ < (2 : Int) ^ 31))

/-- The password is changed for each private key or none: the call throws at once; or each key is decrypted
and no write is refused; or the password stays. -/
def ChangesKeys (w : WalletDb) (p old new : Password) : Prop :=
  Refused c w old new ∨ old = p ∧
    (OwnKeys c w p ∧ (∀ i < (privateAddresses w).card, w.refused (i + 1) = false) ∨
      new = p ∧ (OwnAddresses c w p ∨ w.refused 1 = true))

/-- A call that replaces no private key: where it stores a record, the private key at its address, if there
is one, is the record's. -/
def Safe (w : WalletDb) (p : Password) : Call PrivateKey → Prop
  | .storeKey key => w.isOpen = true → key.publicKey ≠ 0 → w.refused 0 = false → KeepsKey c w p key
  | .importKey password accountName privateKey moveExisting =>
    ∀ account, w.accountNamed accountName = some account → w.isOpen = true → w.refused 0 = false →
      (moveExisting = true ∨ (w.keyAt (c.address (c.getPublicKey privateKey))).all fun e =>
        e.data.accountAddress == account.data.ownerAddress c) →
        password ≠ 0 → KeepsKey c w p (KeyData.empty.sealed c password privateKey)
  | .changePassword order old new => IsOrder w order ∧ ChangesKeys c w p old new
  | _ => True

end Call

end Allowed

/-! ## One call -/

section Calls

variable {c : Crypto PrivateKey ExtendedPrivateKey} {memory : Address} {depth : Nat} {w : WalletDb}
  {p : Password}

theorem mem_knownKeys {i : Int} {e : WalletAccountEntry} (he : w.accounts.lookup i = some e)
    {key : PublicKeyType} (hkey : key ∈ e.data.allKeys) : key ∈ knownKeys w := by
  refine Finset.mem_biUnion.2 ⟨i, Finmap.mem_keys.2 (Finmap.mem_of_lookup_eq_some he), ?_⟩
  rw [he]
  exact List.mem_toFinset.2 hkey

/-- A call begins with room for the keys it names and so many other entries. -/
theorem Going.start (h : Sound c w) {size n : Nat} {new : Finset PublicKeyType}
    (hroom : nextIndex w + (missing c (knownKeys w) w).card + size < 2 ^ 31) (hsize : new.card + n ≤ size) :
    Going c w p (knownKeys w ∪ new) n ∅ w where
  later := .refl h
  known i e he key hkey := Finset.mem_union_left _ (mem_knownKeys he hkey)
  room := by
    have hcard : (missing c (knownKeys w ∪ new) w).card ≤ (missing c (knownKeys w) w).card + new.card := by
      unfold missing
      rw [Finset.filter_union]
      exact (Finset.card_union_le _ _).trans (Nat.add_le_add_left (Finset.card_filter_le _ _) _)
    omega
  account i hi := hi.elim

variable [DecidableEq PrivateKey]

theorem storeKey_later (h : Sound c w) {key : KeyData}
    (hfits : (.storeKey key : Call PrivateKey).Fits c w) (hsafe : Call.Safe c w p (.storeKey key)) :
    Left c w p (final (WalletDb.storeKey c memory depth key) w) := by
  have hstart : Going c w p (knownKeys w ∪ {key.publicKey}) 0 ∅ w := .start h hfits le_rfl
  have hkey : key.publicKey ∈ knownKeys w ∪ {key.publicKey} :=
    Finset.mem_union_right _ (Finset.mem_singleton_self _)
  exact (storeKey_leads memory depth ∅ w key hstart hkey hsafe).final fun _ _ h => h.later

theorem storeAccount_later (h : Sound c w) {account : AccountData} {password : Password}
    (hfits : (.storeAccount account password : Call PrivateKey).Fits c w) :
    Left c w p (final (WalletDb.storeAccount c memory depth account password) w) := by
  have hcard : account.allKeys.toFinset.card + 1 ≤ account.allKeys.length + 1 :=
    Nat.succ_le_succ (List.toFinset_card_le _)
  have hstart : Going c w p (knownKeys w ∪ account.allKeys.toFinset) 1 ∅ w := .start h hfits hcard
  refine (storeAccountWith_leads (n := 0) (storeKey_leads memory depth) hstart (fun key hkey => ?_)
    (Nat.zero_le _) (.inr le_rfl)).final fun _ _ h => h.later
  exact Finset.mem_union_right _ (List.mem_toFinset.2 hkey)

theorem importKey_later (h : Sound c w) {password : Password} {accountName : Str}
    {privateKey : PrivateKey} {moveExisting : Bool}
    (hfits : Call.Fits c w (.importKey password accountName privateKey moveExisting))
    (hsafe : Call.Safe c w p (.importKey password accountName privateKey moveExisting)) :
    Left c w p
      (final (WalletDb.importKey c memory depth password accountName privateKey moveExisting) w) := by
  have hw : Left c w p w := .refl h
  refine Leads.final (Q := fun _ => Left c w p) ?_ fun _ _ h => h
  unfold WalletDb.importKey WalletDb.assertOpen WalletDb.lookupAccountName WalletDb.lookupKey
  refine WalletDb.lookupOpen_leads hw fun hopen => WalletDb.lookupOpen_leads hw fun _ => ?_
  cases haccount : w.accountNamed accountName with
  | none => exact Leads.throw hw
  | some account =>
    refine WalletDb.lookupOpen_leads hw fun _ => WalletDb.fcAssert_leads hw fun hmove => ?_
    refine WalletDb.returned_leads hw fun data hdata => ?_
    obtain ⟨hp, rfl⟩ := KeyData.encryptPrivateKey_cases hdata
    have hstart : Going c w p (knownKeys w ∪ {c.getPublicKey privateKey}) 0 ∅ w := .start h hfits le_rfl
    refine (storeKey_leads memory depth ∅ w _ hstart ?_ fun _ _ hwrite => ?_).weaken (fun _ _ h => h.later)
      fun _ h => h
    · exact Finset.mem_union_right _ (Finset.mem_singleton_self _)
    · exact hsafe account haccount hopen hwrite hmove hp

theorem generateNewOneTimeKey_later (h : Sound c w) {password : Password} {privateKey : PrivateKey}
    (hfits : Call.Fits c w (.generateNewOneTimeKey password privateKey)) :
    Left c w p (final (WalletDb.generateNewOneTimeKey c memory depth password privateKey) w) := by
  have hw : Left c w p w := .refl h
  have hat := h.keyAt_address (c.getPublicKey privateKey)
  refine Leads.final (Q := fun _ => Left c w p) ?_ fun _ _ h => h
  unfold WalletDb.generateNewOneTimeKey WalletDb.assertOpen WalletDb.lookupKey
  refine WalletDb.lookupOpen_leads hw fun hopen => WalletDb.lookupOpen_leads hw fun _ => ?_
  rw [hat]
  refine WalletDb.fcAssert_leads hw fun hnone => WalletDb.returned_leads hw fun data hdata => ?_
  obtain ⟨-, rfl⟩ := KeyData.encryptPrivateKey_cases hdata
  have hstart : Going c w p (knownKeys w ∪ {c.getPublicKey privateKey}) 0 ∅ w := .start h hfits le_rfl
  refine (storeKey_leads memory depth ∅ w _ hstart ?_ fun _ _ _ => ?_).weaken (fun _ _ h => h.later)
    fun _ h => h
  · exact Finset.mem_union_right _ (Finset.mem_singleton_self _)
  · refine hw.keepsKey_of_none ?_
    rw [KeyData.getAddress_sealed, WalletDb.keySecret, Option.isNone_iff_eq_none.1 hnone]
    rfl

omit [DecidableEq PrivateKey] in
/-- A child of an account's key that is free has no private key in the wallet. -/
theorem freeAccountChild_leads (h : Sound c w) (activePrivateKey : PrivateKey) : ∀ remaining seqNum,
    Leads (fun r w' => w' = w ∧ w.keySecret c p (c.address (c.getPublicKey r.2)) = none) (Left c w p)
      (WalletDb.freeAccountChild c activePrivateKey remaining seqNum) w
  | 0, _ => Leads.throw (.refl h)
  | remaining + 1, seqNum => by
    have hat := h.keyAt_address (c.getPublicKey (c.accountChild activePrivateKey (seqNum + 1)))
    unfold WalletDb.freeAccountChild WalletDb.lookupKey
    refine WalletDb.lookupOpen_leads (.refl h) fun _ => ?_
    rw [hat]
    split_ifs with hprivate
    · exact freeAccountChild_leads h activePrivateKey remaining (seqNum + 1)
    · exact Leads.pure ⟨rfl, keySecret_of_public hprivate⟩

theorem generateNewAccountChildKey_later (h : Sound c w) {password : Password} {accountName : Str}
    (hfits : (.generateNewAccountChildKey password accountName : Call PrivateKey).Fits c w) :
    Left c w p (final (WalletDb.generateNewAccountChildKey c memory depth password accountName) w) := by
  have hw : Left c w p w := .refl h
  refine Leads.final (Q := fun _ => Left c w p) ?_ fun _ _ h => h
  unfold WalletDb.generateNewAccountChildKey WalletDb.assertOpen WalletDb.lookupAccountName
    WalletDb.lookupKey
  refine WalletDb.lookupOpen_leads hw fun hopen => WalletDb.lookupOpen_leads hw fun _ => ?_
  cases haccount : w.accountNamed accountName with
  | none => exact Leads.throw hw
  | some account =>
    obtain ⟨i, -, hi⟩ := Option.bind_eq_some_iff.1 haccount
    refine WalletDb.fcAssert_leads hw fun _ => WalletDb.fcAssert_leads hw fun _ => ?_
    refine WalletDb.lookupOpen_leads hw fun _ => ?_
    cases w.keyAt (account.data.activeAddress c) with
    | none => exact Leads.throw hw
    | some key =>
      refine WalletDb.fcAssert_leads hw fun _ => WalletDb.returned_leads hw fun activePrivateKey _ => ?_
      refine (freeAccountChild_leads (p := p) h activePrivateKey _ _).bind ?_
      rintro ⟨seqNum, child⟩ w' ⟨hw', hnone⟩
      obtain rfl : w = w' := hw'.symm
      refine WalletDb.returned_leads hw fun data hdata => ?_
      obtain ⟨-, rfl⟩ := KeyData.encryptPrivateKey_cases hdata
      have hstart : Going c w p (knownKeys w ∪ {c.getPublicKey child}) 0 ∅ w := .start h hfits le_rfl
      have haccount : Leads (fun _ => Going c w p (knownKeys w ∪ {c.getPublicKey child}) 0 ∅) (Left c w p)
          (WalletDb.storeAccount c memory depth
            { account.data with lastUsedGenSequence := seqNum } 0) w := by
        refine storeAccountWith_leads (storeKey_leads memory depth) hstart (fun key hkey => ?_) le_rfl
          (.inl (h.owner i account hi))
        exact Finset.mem_union_left _ (mem_knownKeys hi hkey)
      refine haccount.bind fun _ w₁ h₁ => ?_
      refine (storeKey_leads memory depth ∅ w₁ _ h₁ ?_ fun _ _ _ => ?_).bind fun _ _ h => Leads.pure h.later
      · exact Finset.mem_union_right _ (Finset.mem_singleton_self _)
      · exact hw.keepsKey_sealed hnone

omit [DecidableEq PrivateKey] in
theorem taken_leads (h : Sound c w) (key : PublicKeyType) :
    Leads (fun b w' => w' = w ∧ (b = false → w.keySecret c p (c.address key) = none)) (Left c w p)
      (WalletDb.taken (c.address key)) w := by
  have hat := h.keyAt_address key
  unfold WalletDb.taken WalletDb.lookupAccount WalletDb.lookupKey
  refine WalletDb.lookupOpen_leads (.refl h) fun _ => WalletDb.lookupOpen_leads (.refl h) fun _ => ?_
  rw [hat]
  refine Leads.pure ⟨rfl, fun hfree => keySecret_of_public fun hany => ?_⟩
  rw [hany, Bool.or_true] at hfree
  exact Bool.noConfusion hfree

omit [DecidableEq PrivateKey] in
/-- A free child of the master key and its first child have no private keys in the wallet. -/
theorem freeWalletChild_leads (h : Sound c w) (password : Password) : ∀ remaining keyIndex,
    Leads (fun r w' => w' = w ∧ w.keySecret c p (c.address (c.getPublicKey r.2.1)) = none ∧
        w.keySecret c p (c.address (c.getPublicKey r.2.2)) = none) (Left c w p)
      (WalletDb.freeWalletChild c password remaining keyIndex) w
  | 0, _ => Leads.throw (.refl h)
  | remaining + 1, keyIndex => by
    have hw : Left c w p w := .refl h
    have ih := freeWalletChild_leads h password remaining (keyIndex + 1)
    have hchild : Leads (fun _ w' => w' = w) (Left c w p)
        (WalletDb.getWalletChildKey c password (keyIndex + 1)) w := by
      unfold WalletDb.getWalletChildKey WalletDb.assertOpen
      refine WalletDb.lookupOpen_leads hw fun _ => Leads.get_bind ?_
      exact WalletDb.returned_leads hw fun _ _ => Leads.pure rfl
    unfold WalletDb.freeWalletChild
    refine hchild.bind fun ownerKey w' hw' => ?_
    obtain rfl : w = w' := hw'.symm
    refine (taken_leads (p := p) h (c.getPublicKey ownerKey)).bind ?_
    rintro taken w' ⟨hw', howner⟩
    obtain rfl : w = w' := hw'.symm
    cases taken with
    | true => exact ih
    | false =>
      refine (taken_leads (p := p) h (c.getPublicKey (c.accountChild ownerKey 0))).bind ?_
      rintro taken w' ⟨hw', hactive⟩
      obtain rfl : w = w' := hw'.symm
      cases taken with
      | true => exact ih
      | false => exact Leads.pure ⟨rfl, howner rfl, hactive rfl⟩

theorem generateNewAccount_later (h : Sound c w) {now : TimePointSec} {password : Password}
    {accountName : Str} {privateData : Variant}
    (hfits : (.generateNewAccount now password accountName privateData : Call PrivateKey).Fits c w) :
    Left c w p
      (final (WalletDb.generateNewAccount c memory depth now password accountName privateData) w) := by
  have hw : Left c w p w := .refl h
  refine Leads.final (Q := fun _ => Left c w p) ?_ fun _ _ h => h
  unfold WalletDb.generateNewAccount WalletDb.assertOpen WalletDb.lookupAccountName
  refine WalletDb.lookupOpen_leads hw fun _ => WalletDb.lookupOpen_leads hw fun _ => ?_
  refine WalletDb.fcAssert_leads hw fun _ => Leads.get_bind ?_
  refine (freeWalletChild_leads (p := p) h password _ _).bind ?_
  rintro ⟨keyIndex, ownerPrivateKey, activePrivateKey⟩ w' ⟨hw', howner, hactive⟩
  obtain rfl : w = w' := hw'.symm
  refine WalletDb.returned_leads hw fun active hsealed => ?_
  obtain ⟨-, rfl⟩ := KeyData.encryptPrivateKey_cases hsealed
  refine WalletDb.returned_leads hw fun owner hsealed => ?_
  obtain ⟨-, rfl⟩ := KeyData.encryptPrivateKey_cases hsealed
  refine WalletDb.fcAssert_leads hw fun _ => ?_
  have hstart : Going c w p
      (knownKeys w ∪ {c.getPublicKey ownerPrivateKey, c.getPublicKey activePrivateKey}) 2 ∅ w :=
    .start h hfits (Nat.add_le_add_right Finset.card_le_two 2)
  have hownerKey : c.getPublicKey ownerPrivateKey ∈
      knownKeys w ∪ {c.getPublicKey ownerPrivateKey, c.getPublicKey activePrivateKey} := by simp
  have hactiveKey : c.getPublicKey activePrivateKey ∈
      knownKeys w ∪ {c.getPublicKey ownerPrivateKey, c.getPublicKey activePrivateKey} := by simp
  refine (storeKey_leads memory depth ∅ w _ hstart hactiveKey fun _ _ _ =>
    hw.keepsKey_sealed hactive).bind fun _ w₁ h₁ => ?_
  have hproperty : PropertyEnum.nextChildKeyIndex ≠ .nextEntryNumber := nofun
  refine (setProperty_leads h₁ hproperty keyIndex).bind fun _ w₂ h₂ => ?_
  refine (storeKey_leads memory depth ∅ w₂ _ h₂ hownerKey fun _ _ _ =>
    hw.keepsKey_sealed howner).bind fun _ w₃ h₃ => ?_
  refine (storeAccountWith_leads (n := 0) (storeKey_leads memory depth) h₃ ?_ (Nat.zero_le _)
    (.inr le_rfl)).bind fun _ _ h => Leads.pure h.later
  intro key hkey
  change key ∈ [c.getPublicKey ownerPrivateKey, c.getPublicKey activePrivateKey] at hkey
  refine Finset.mem_union_right _ (Finset.mem_insert.2 ?_)
  rw [Finset.mem_singleton]
  simpa using hkey

end Calls

/-! ## The password -/

section Password

variable {c : Crypto PrivateKey ExtendedPrivateKey} {w₀ w : WalletDb} {p old new : Password}
  {m : WalletMasterKeyEntry}

theorem OwnKeys.ownAddresses (h : OwnKeys c w p) : OwnAddresses c w p := by
  intro a k hk
  obtain ⟨e, he, hprivate, hdecrypt⟩ := WalletDb.keySecret_eq_some.1 hk
  obtain ⟨k', hk', haddress⟩ := h a e he hprivate
  rw [hdecrypt, Option.some.injEq] at hk'
  rw [hk', haddress]

/-- The wallet while its keys change: the keys at some addresses are as they were, and the others have the
new password. -/
structure Rekeyed (c : Crypto PrivateKey ExtendedPrivateKey) (w₀ : WalletDb) (old new : Password)
    (m : WalletMasterKeyEntry) (rest : List Address) (w : WalletDb) : Prop where
  kinds : KeepsKinds c w₀ w
  isOpen : w.entrysOpen = true
  master : w.walletMasterKey = some m
  same : ∀ a ∈ rest, w.keys.lookup a = w₀.keys.lookup a
  changed : ∀ a ∉ rest, ∀ k, w₀.keySecret c old a = some k → w.keySecret c new a = some k

/-- Nothing goes wrong with the keys to come, or it does no harm. -/
def Harmless (c : Crypto PrivateKey ExtendedPrivateKey) (w₀ : WalletDb) (old new : Password)
    (rest : List Address) (w : WalletDb) : Prop :=
  (OwnKeys c w₀ old ∧ ∀ i < rest.countP (isPrivate w₀), w.refused i = false) ∨
    new = old ∧ (OwnAddresses c w₀ old ∨ w.refused 0 = true)

/-- Where the change of the keys leaves the wallet. -/
def Changed (c : Crypto PrivateKey ExtendedPrivateKey) (w₀ : WalletDb) (old new : Password)
    (m : WalletMasterKeyEntry) (w : WalletDb) : Prop :=
  Later c w₀ old w new ∧ w.walletMasterKey = some m

theorem Rekeyed.unchanged {rest : List Address} (h : Rekeyed c w₀ old old m rest w) :
    Changed c w₀ old old m w := by
  refine ⟨⟨h.kinds, fun a k hk => ?_⟩, h.master⟩
  by_cases ha : a ∈ rest
  · rw [WalletDb.keySecret, h.same a ha]
    exact hk
  · exact h.changed a ha k hk

section Step

variable {a : Address} {order : List Address} {e : WalletKeyEntry} {k : PrivateKey}

/-- A key without a private key stays as it is. -/
theorem Rekeyed.skip (h : Rekeyed c w₀ old new m (a :: order) w)
    (hpublic : ∀ e, w.keys.lookup a = some e → e.data.hasPrivateKey = false) :
    Rekeyed c w₀ old new m order w where
  kinds := h.kinds
  isOpen := h.isOpen
  master := h.master
  same b hb := h.same b (List.mem_cons_of_mem _ hb)
  changed b hb k hk := by
    by_cases hba : b = a
    · obtain ⟨e, he, hprivate, -⟩ := WalletDb.keySecret_eq_some.1 (hba ▸ hk)
      rw [hpublic e ((h.same a (List.mem_cons_self ..)).trans he)] at hprivate
      exact Bool.noConfusion hprivate
    · exact h.changed b (by simp [hba, hb]) k hk

/-- A key is stored under the new password, at its address. -/
theorem Rekeyed.storing (h : Rekeyed c w₀ old new m (a :: order) w) (hnodup : (a :: order).Nodup)
    (hnew : new ≠ 0) (he : w.keys.lookup a = some e) (hk : w₀.keySecret c old a = some k)
    (haddress : c.address (c.getPublicKey k) = a) :
    Rekeyed c w₀ old new m order (w.storing c (.key (WalletDb.changed c e new k))) where
  kinds := by
    have hstored := (h.kinds.sound.key a e he).2
    have hat : w.keys.lookup (c.address (c.getPublicKey k)) = some e := haddress.symm ▸ he
    refine h.kinds.storing_key (.inr ⟨e, hat, rfl⟩) fun hnone => ?_
    exact (nomatch hnone.symm.trans hstored)
  isOpen := h.isOpen
  master := h.master
  same b hb := by
    have hba : b ≠ c.address (c.getPublicKey k) := by
      rintro rfl
      exact (List.nodup_cons.1 hnodup).1 (haddress ▸ hb)
    exact (Finmap.lookup_insert_of_ne _ hba).trans (h.same b (List.mem_cons_of_mem _ hb))
  changed b hb k' hk' := by
    change ((w.keys.insert (c.address (c.getPublicKey k)) _).lookup b).bind _ = _
    by_cases hba : b = a
    · obtain rfl : k = k' := Option.some.inj (hk.symm.trans (hba ▸ hk'))
      rw [hba, ← haddress, Finmap.lookup_insert]
      exact WalletDb.secret_changed hnew
    · have hbk : b ≠ c.address (c.getPublicKey k) := haddress.symm ▸ hba
      rw [Finmap.lookup_insert_of_ne _ hbk]
      exact h.changed b (by simp [hba, hb]) k' hk'

/-- The first key's write is not refused, or that does no harm. -/
theorem Harmless.stored (h : Harmless c w₀ old new (a :: order) w) (ha : isPrivate w₀ a = true)
    (hwrite : w.refused 0 = false) :
    OwnAddresses c w₀ old ∧ Harmless c w₀ old new order (w.storing c (.key e)) := by
  obtain ⟨hown, hwrites⟩ | ⟨hsame, hown⟩ := h
  · refine ⟨hown.ownAddresses, .inl ⟨hown, fun i hi => hwrites (i + 1) ?_⟩⟩
    rw [List.countP_cons_of_pos ha]
    exact Nat.succ_lt_succ hi
  · have hown := hown.resolve_right (by simp [hwrite])
    exact ⟨hown, .inr ⟨hsame, .inl hown⟩⟩

theorem Harmless.skip (h : Harmless c w₀ old new (a :: order) w) : Harmless c w₀ old new order w := by
  refine h.imp_left fun hfine => ⟨hfine.1, fun i hi => hfine.2 i (hi.trans_le ?_)⟩
  rw [List.countP_cons]
  exact Nat.le_add_right ..

end Step

/-- Once the master key is stored, the keys change. -/
theorem rekeyed_withMaster {mk : ExtendedPrivateKey} (h : Sound c w) (hopen : w.isOpen = true)
    {order : List Address} (horder : IsOrder w order) :
    Rekeyed c w old new ⟨-1, .sealed c new mk⟩ order (withMaster c w new mk) where
  kinds := by
    obtain ⟨hsound, hnext⟩ := h.storing_masterKey (m := .sealed c new mk)
    refine ⟨hsound, hnext.ge, fun i g hg _ _ hiM => ?_⟩
    obtain ⟨hi, -⟩ | ⟨-, hg⟩ := lookup_insert_eq_some hg
    · exact absurd hi hiM
    · exact ⟨g, hg, rfl⟩
  isOpen := WalletDb.entrysOpen_of_isOpen (w := w) hopen
  master := rfl
  same _ _ := rfl
  changed a ha k hk := by
    obtain ⟨e, he, -⟩ := WalletDb.keySecret_eq_some.1 hk
    exact absurd ((horder.mem_iff a).2 (Finmap.mem_of_lookup_eq_some he)) ha

variable [DecidableEq PrivateKey]

/-- Every private key is under the new password, or the password is the same. -/
theorem changeKeys_leads (hnew : new ≠ 0) (order : List Address) (w : WalletDb) (hnodup : order.Nodup)
    (h : Rekeyed c w₀ old new m order w) (hharmless : Harmless c w₀ old new order w) :
    Leads (fun _ => Changed c w₀ old new m) (Changed c w₀ old new m)
      (order.forM (WalletDb.changeKey c old new)) w := by
  induction order generalizing w with
  | nil => exact Leads.pure ⟨⟨h.kinds, fun a k hk => h.changed a List.not_mem_nil k hk⟩, h.master⟩
  | cons a order ih =>
    have hhead := h.same a (List.mem_cons_self ..)
    have hindex : ∀ e, w.keys.lookup a = some e → e.walletEntryIndex ≠ 0 := by
      intro e he
      exact (h.kinds.sound.storedKey _ e (h.kinds.sound.key a e he).2).2.1
    rw [forM_cons]
    obtain ⟨hpublic, hrun⟩ | ⟨e, he, hprivate, hcases⟩ :=
      WalletDb.changeKey_cases (w := w) (a := a) c old hnew h.isOpen hindex
    · rw [Leads, bind_of_ok hrun]
      exact ih w hnodup.of_cons (h.skip hpublic) hharmless.skip
    have he₀ : w₀.keys.lookup a = some e := hhead.symm.trans he
    have ha : isPrivate w₀ a = true := by
      unfold isPrivate
      rw [he₀]
      exact hprivate
    obtain ⟨hnone, hrun⟩ | ⟨k, hk, ⟨hwrite, hrun⟩ | ⟨hwrite, hrun⟩⟩ := hcases
    · refine .of_error (bind_of_error hrun) ?_
      obtain ⟨hown, -⟩ | ⟨rfl, -⟩ := hharmless
      · obtain ⟨k, hk, -⟩ := hown a e he₀ hprivate
        cases hnone.symm.trans hk
      · exact h.unchanged
    · refine .of_error (bind_of_error hrun) ?_
      obtain ⟨-, hwrites⟩ | ⟨rfl, -⟩ := hharmless
      · rw [hwrites 0 (List.countP_pos_iff.2 ⟨a, List.mem_cons_self .., ha⟩)] at hwrite
        exact Bool.noConfusion hwrite
      · exact ⟨h.unchanged.1.nextWrite, h.master⟩
    · rw [Leads, bind_of_ok hrun]
      have hsecret := WalletDb.keySecret_eq_some.2 ⟨e, he₀, hprivate, hk⟩
      obtain ⟨hown, hrest⟩ := hharmless.stored ha hwrite
      exact ih _ hnodup.of_cons (h.storing hnodup hnew he hsecret (hown a k hsecret)) hrest

variable [DecidableEq ExtendedPrivateKey]

theorem changePassword_later (h : Sound c w) {order : List Address} (horder : IsOrder w order)
    (hchanges : Call.ChangesKeys c w p old new) :
    Later c w p (final (WalletDb.changePassword c order old new) w)
      (if (final (WalletDb.changePassword c order old new) w).walletMasterKey = w.walletMasterKey then p
        else new) := by
  by_cases hrefused : Refused c w old new
  · obtain ⟨e, w', hrun, hw'⟩ := changePassword_refused order hrefused
    unfold final
    rw [hrun]
    obtain rfl | rfl := hw'
    · exact if_pos rfl ▸ .refl h
    · exact if_pos rfl ▸ .nextWrite (.refl h)
  · obtain ⟨rfl, hfine⟩ := hchanges.resolve_left hrefused
    unfold Refused at hrefused
    simp only [not_or, not_not] at hrefused
    obtain ⟨hopen, hmaster, hnew, hwrite⟩ := hrefused
    rw [Bool.not_eq_true] at hwrite
    obtain ⟨mk, hmk⟩ := Option.ne_none_iff_exists'.1 hmaster
    have hharmless : Harmless c w old new order (withMaster c w new mk) := by
      refine hfine.imp_left fun hfine => ⟨hfine.1, fun i hi => hfine.2 i ?_⟩
      rwa [horder.countP_eq] at hi
    have hleads := changeKeys_leads hnew order _ horder.nodup (rekeyed_withMaster h hopen horder) hharmless
    obtain ⟨hlater, hm⟩ := hleads.final fun _ _ h => h
    unfold final at hlater hm ⊢
    rw [changePassword_run order hopen hmk hnew hwrite, hm]
    split_ifs with hsame
    · have hdecrypt : (MasterKey.sealed c new mk).decryptKey c old = some mk := by
        rw [WalletDb.master, ← hsame] at hmk
        exact hmk
      obtain rfl := MasterKey.unique_password hdecrypt (MasterKey.decrypt_sealed hnew)
      exact hlater
    · exact hlater

end Password

/-! ## Runs -/

section Runs

variable {c : Crypto PrivateKey ExtendedPrivateKey} {memory : Address} {depth : Nat} {s s' : Session}

theorem Later.losesNothing (h₀ : Sound c s.db) (h : Later c s.db s.password s'.db s'.password) :
    LosesNothing c s s' where
  keys a k hk := by
    obtain ⟨e, he, hsecret⟩ := Option.bind_eq_some_iff.1 (h.secrets a k hk)
    exact ⟨e, he, hsecret, (h.sound.key a e he).2⟩
  kinds i g g' hg hg' := by
    by_cases hi1 : i = 1
    · exact (h.sound.atFirst g' (hi1 ▸ hg')).trans (h₀.atFirst g (hi1 ▸ hg)).symm
    by_cases hiM : i = -1
    · exact (h.sound.atMaster g' (hiM ▸ hg')).trans (h₀.atMaster g (hiM ▸ hg)).symm
    obtain ⟨g₀, hg₀, htype⟩ := h.kinds i g' hg' (h₀.below i g hg) hi1 hiM
    obtain rfl := Option.some.inj (hg₀.symm.trans hg)
    exact htype.symm
  free i w' hnew hi := by
    obtain rfl := newWalletEntryIndex_eq hnew
    obtain ⟨g, hg⟩ := Finmap.mem_iff.1 hi
    exact lt_irrefl _ (h.sound.below _ g hg)

variable [DecidableEq PrivateKey] [DecidableEq ExtendedPrivateKey]

/-- A call of a run has the indexes it needs, and replaces no private key. -/
def Session.Allows (c : Crypto PrivateKey ExtendedPrivateKey) (s : Session) (call : Call PrivateKey) :
    Prop :=
  call.Fits c s.db ∧ call.Safe c s.db s.password

theorem step_later (h : Sound c s.db) {call : Call PrivateKey} (hallows : s.Allows c call) :
    Later c s.db s.password (s.step c memory depth call).db (s.step c memory depth call).password := by
  obtain ⟨hfits, hsafe⟩ := hallows
  cases call with
  | storeKey key => exact storeKey_later h hfits hsafe
  | storeAccount account password => exact storeAccount_later h hfits
  | importKey password accountName privateKey moveExisting => exact importKey_later h hfits hsafe
  | generateNewAccount now password accountName privateData => exact generateNewAccount_later h hfits
  | generateNewAccountChildKey password accountName => exact generateNewAccountChildKey_later h hfits
  | generateNewOneTimeKey password oneTimePrivateKey => exact generateNewOneTimeKey_later h hfits
  | changePassword order old new => exact changePassword_later h hsafe.1 hsafe.2

theorem run_later (h : Sound c s.db) (calls : List (Call PrivateKey))
    (hallows : Traces.Along (Session.step c memory depth) (Session.Allows c) s calls) :
    Later c s.db s.password (Traces.run (Session.step c memory depth) s calls).db
      (Traces.run (Session.step c memory depth) s calls).password := by
  refine Traces.Along.keeps (I := fun s' => Later c s.db s.password s'.db s'.password)
    (fun s' call h' hok => ?_) (.refl h) hallows
  exact h'.trans (step_later h'.sound hok)

/-- A wallet loses nothing from any state of a run to any later one, where every call of the run is
allowed. -/
theorem run_loses_nothing (h : Sound c s.db) (before after : List (Call PrivateKey))
    (hallows : Traces.Along (Session.step c memory depth) (Session.Allows c) s (before ++ after)) :
    LosesNothing c (Traces.run (Session.step c memory depth) s before)
      (Traces.run (Session.step c memory depth) s (before ++ after)) := by
  obtain ⟨hbefore, hafter⟩ := Traces.along_append.1 hallows
  have hsound := (run_later h before hbefore).sound
  rw [Traces.run_append]
  exact (run_later hsound after hafter).losesNothing hsound

end Runs

/-! ## A record without its private key -/

section PublicRecord

theorem nextIndex_emptyWallet : nextIndex emptyWallet = 2 := by
  refine (nextIndex_of_none rfl).trans ?_
  rw [oldNextNumber_eq, show emptyWallet.entrys.keys = ∅ from rfl, Finset.sort_empty]
  rfl

theorem sound_emptyWallet {c : Crypto PrivateKey ExtendedPrivateKey} : Sound c emptyWallet where
  master _ he := (nomatch he)
  storedMaster _ _ he := (nomatch he)
  atMaster _ hg := (nomatch hg)
  key _ _ he := (nomatch he)
  storedKey _ _ he := (nomatch he)
  found _ _ he := (nomatch he)
  own _ _ ha := (nomatch ha)
  account _ _ he := (nomatch he)
  owner _ _ he := (nomatch he)
  property _ _ he := (nomatch he)
  atFirst _ hg := (nomatch hg)
  below _ _ hg := (nomatch hg)
  two_le := nextIndex_emptyWallet.ge

/-- A wallet with a master key and the next index. -/
def newWallet : WalletDb :=
  (emptyWallet.storing Crypto.plain (.masterKey ⟨-1, .sealed Crypto.plain 1 7⟩)).storing Crypto.plain
    (.property ⟨1, ⟨.nextEntryNumber, some 2⟩⟩)

theorem sound_newWallet : Sound Crypto.plain newWallet := by
  have hmaster := (sound_emptyWallet (c := Crypto.plain)).storing_masterKey (m := .sealed Crypto.plain 1 7)
  have hnext := (hmaster.2.trans nextIndex_emptyWallet).le
  refine hmaster.1.storing_property one_ne_zero (fun g hg => ?_) (by decide) hnext (nofun)
  exact (nomatch hg)

/-- A new wallet with a key. -/
def newSession : Session := ⟨newWallet, 1⟩
def newKey : Call Nat := .generateNewOneTimeKey 1 3

/-- A record with the public key alone takes the place of the key. -/
def publicRecord : Call Nat := .storeKey { KeyData.empty with publicKey := 4 }

theorem loses_private_key : ¬ ∀ (s : Session) (before after : List (Call Nat)), Sound Crypto.plain s.db →
    LosesNothing Crypto.plain (Traces.run (Session.step Crypto.plain 0 1) s before)
      (Traces.run (Session.step Crypto.plain 0 1) s (before ++ after)) := by
  intro hall
  have hloses := hall newSession [newKey] [publicRecord] sound_newWallet
  have hheld : (Traces.run (Session.step Crypto.plain 0 1) newSession [newKey]).db.keySecret
      Crypto.plain 1 8 = some 3 := rfl
  obtain ⟨e, he, hsecret, -⟩ := hloses.keys 8 3 hheld
  have hlost : (Traces.run (Session.step Crypto.plain 0 1) newSession
      ([newKey] ++ [publicRecord])).db.keySecret Crypto.plain 1 8 = none := rfl
  rw [WalletDb.keySecret, he] at hlost
  cases hlost.symm.trans hsecret

theorem run_loses_nothing_new :
    LosesNothing Crypto.plain (Traces.run (Session.step Crypto.plain 0 1) newSession [newKey])
      (Traces.run (Session.step Crypto.plain 0 1) newSession ([newKey] ++ [.generateNewOneTimeKey 1 4])) :=
  run_loses_nothing sound_newWallet [newKey] [.generateNewOneTimeKey 1 4]
    ⟨⟨by decide, trivial⟩, ⟨by decide, trivial⟩, trivial⟩

end PublicRecord

end Achain.Wallets
