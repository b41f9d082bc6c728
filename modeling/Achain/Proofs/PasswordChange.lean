import Achain.Proofs.WalletStores

/-!
# Changing the password

The master key is stored under the new password before the first key is. Whatever throws after that leaves a
wallet whose master key has one password and some of whose keys have the other.
-/

namespace Achain.Wallets

open Table Stateful

variable {PrivateKey ExtendedPrivateKey : Type} {c : Crypto PrivateKey ExtendedPrivateKey}

/-! ## What a password opens -/

/-- Where a private key is kept: in memory or in the file. -/
inductive Place where
  | masterKey
  | key (address : Address)
  | stored (index : Int)

section Secrets

variable (c : Crypto PrivateKey ExtendedPrivateKey)

/-- The private key of a record, if it has one and the password decrypts it. -/
def KeyData.secret (data : KeyData) (p : Password) : Option PrivateKey :=
  if data.hasPrivateKey then data.decryptPrivateKey c p else none

def GenericWalletEntry.secret (p : Password) : GenericWalletEntry → Option (ExtendedPrivateKey ⊕ PrivateKey)
  | .masterKey e => (e.data.decryptKey c p).map .inl
  | .key e => (e.data.secret c p).map .inr
  | _ => none

namespace WalletDb

variable (w : WalletDb)

def master (p : Password) : Option ExtendedPrivateKey := w.walletMasterKey.bind fun e => e.data.decryptKey c p

def keySecret (p : Password) (a : Address) : Option PrivateKey :=
  (w.keys.lookup a).bind fun e => e.data.secret c p

/-- What is decrypted at a place with a password. -/
def secretAt (p : Password) : Place → Option (ExtendedPrivateKey ⊕ PrivateKey)
  | .masterKey => (w.master c p).map .inl
  | .key a => (w.keySecret c p a).map .inr
  | .stored i => (w.entrys.lookup i).bind fun e => e.secret c p

end WalletDb

/-- What one password decrypts in a wallet, another decrypts in the wallet it becomes. -/
def SameKeys (w : WalletDb) (p : Password) (w' : WalletDb) (q : Password) : Prop :=
  ∀ place s, w.secretAt c p place = some s → w'.secretAt c q place = some s

/-- A wallet whose master key and keys in memory are those in its file. -/
structure Wallet where
  db : WalletDb
  master : ∀ e, db.walletMasterKey = some e → db.entrys.lookup (-1) = some (.masterKey e)
  storedMaster : ∀ i e, db.entrys.lookup i = some (.masterKey e) → i = -1 ∧ db.walletMasterKey = some e
  key : ∀ a e, db.keys.lookup a = some e →
    e.data.getAddress c = a ∧ db.entrys.lookup e.walletEntryIndex = some (.key e)
  storedKey : ∀ i e, db.entrys.lookup i = some (.key e) →
    e.walletEntryIndex = i ∧ i ≠ 0 ∧ db.keys.lookup (e.data.getAddress c) = some e

end Secrets

/-- Every address of a key once. -/
structure IsOrder (w : WalletDb) (order : List Address) : Prop where
  nodup : order.Nodup
  mem_iff : ∀ a, a ∈ order ↔ a ∈ w.keys

section Claim

variable [DecidableEq PrivateKey] [DecidableEq ExtendedPrivateKey]
variable (c : Crypto PrivateKey ExtendedPrivateKey)

/-- In whichever order the keys come, the new password decrypts what the old one did, or the call throws and
the old one still does. -/
def AllOrNothing (w : WalletDb) (old new : Password) : Prop :=
  ∀ order, IsOrder w order →
    match WalletDb.changePassword c order old new w with
    | .ok _ w' => SameKeys c w old w' new
    | .error _ w' => SameKeys c w old w' old

/-- The call throws before anything is stored. -/
def Refused (w : WalletDb) (old new : Password) : Prop :=
  ¬ w.isOpen = true ∨ w.master c old = none ∨ new = 0 ∨ w.refused 0 = true

/-- The addresses of the keys that have a private key. -/
def privateAddresses (w : WalletDb) : Finset Address :=
  w.keys.keys.filter fun a => (w.keys.lookup a).any fun e => e.data.hasPrivateKey

/-- Every private key is decrypted by the password, to the private key of its address. -/
def OwnKeys (w : WalletDb) (p : Password) : Prop :=
  ∀ a e, w.keys.lookup a = some e → e.data.hasPrivateKey = true →
    ∃ k, e.data.decryptPrivateKey c p = some k ∧ c.address (c.getPublicKey k) = a

/-- No key is decrypted to a private key whose address has another one. -/
def NoClash (w : WalletDb) (p : Password) : Prop :=
  ∀ a k k', w.keySecret c p a = some k → w.keySecret c p (c.address (c.getPublicKey k)) = some k' → k' = k

/-- When a password is changed for all keys or for none: the call throws at once; or each key is decrypted and
no write is refused; or the passwords are the same, and no key is changed or none takes the place of another. -/
def ChangesAll (w : WalletDb) (old new : Password) : Prop :=
  Refused c w old new ∨
    (old ≠ new ∧ OwnKeys c w old ∧ ∀ i < (privateAddresses w).card, w.refused (i + 1) = false) ∨
    (old = new ∧ (w.refused 1 = true ∨ NoClash c w old))

end Claim

/-! ## One key -/

namespace WalletDb

variable {w w' : WalletDb} {old new p : Password} {a a' : Address} {e : WalletKeyEntry} {k : PrivateKey}

variable (c) in
/-- The entry of a key under another password. -/
def changed (e : WalletKeyEntry) (new : Password) (k : PrivateKey) : WalletKeyEntry :=
  ⟨e.walletEntryIndex, e.data.sealed c new k⟩

theorem index_changed : (changed c e new k).walletEntryIndex = e.walletEntryIndex := rfl

theorem secret_changed (hnew : new ≠ 0) : (changed c e new k).data.secret c new = some k := by
  rw [KeyData.secret, changed, KeyData.hasPrivateKey_sealed, if_pos rfl, KeyData.decrypt_sealed hnew]

theorem secret_eq_some : e.data.secret c p = some k ↔
    e.data.hasPrivateKey = true ∧ e.data.decryptPrivateKey c p = some k := by
  unfold KeyData.secret
  split_ifs with h <;> simp [h]

theorem keySecret_eq_some : w.keySecret c p a = some k ↔
    ∃ e, w.keys.lookup a = some e ∧ e.data.hasPrivateKey = true ∧ e.data.decryptPrivateKey c p = some k := by
  simp only [keySecret, Option.bind_eq_some_iff, secret_eq_some]

variable [DecidableEq PrivateKey]

variable (c old) in
/-- All that happens to one key. -/
theorem changeKey_cases (hnew : new ≠ 0) (hopen : w.entrysOpen = true)
    (hindex : ∀ e, w.keys.lookup a = some e → e.walletEntryIndex ≠ 0) :
    ((∀ e, w.keys.lookup a = some e → e.data.hasPrivateKey = false) ∧
      changeKey c old new a w = .ok () w) ∨
    ∃ e, w.keys.lookup a = some e ∧ e.data.hasPrivateKey = true ∧
      ((e.data.decryptPrivateKey c old = none ∧ changeKey c old new a w = .error .aes w) ∨
        ∃ k, e.data.decryptPrivateKey c old = some k ∧
          ((w.refused 0 = true ∧ changeKey c old new a w = .error .levelMapFailure w.nextWrite) ∨
            (w.refused 0 = false ∧
              changeKey c old new a w = .ok () (w.storing c (.key (changed c e new k)))))) := by
  unfold changeKey
  rw [get_bind]
  cases hkey : w.keys.lookup a with
  | none => exact .inl ⟨fun _ h => (nomatch h), rfl⟩
  | some e =>
    by_cases hprivate : e.data.hasPrivateKey = true
    · refine .inr ⟨e, rfl, hprivate, ?_⟩
      simp only [hprivate, if_true]
      cases hdecrypt : e.data.decryptPrivateKey c old with
      | none => exact .inl ⟨rfl, rfl⟩
      | some k =>
        refine .inr ⟨k, rfl, ?_⟩
        simp only [returned_some, pure_bind, KeyData.encryptPrivateKey_eq hnew]
        have hchanged : (changed c e new k).walletEntryIndex ≠ 0 := hindex e hkey
        cases hwrite : w.refused 0 with
        | true =>
          refine .inl ⟨rfl, ?_⟩
          exact (bind_of_error (storeEntry_refused hchanged rfl hopen hwrite))
        | false =>
          refine .inr ⟨rfl, ?_⟩
          exact (bind_of_ok (storeEntry_run hchanged rfl hopen hwrite))
    · refine .inl ⟨fun e' he' => ?_, ?_⟩
      · rw [← Option.some.inj he']
        simpa using hprivate
      · simp only [hprivate]
        rfl

/-- What every store of a changed key keeps, all of them keep. -/
theorem keeps_changeKeys {I : WalletDb → Prop} (hnew : new ≠ 0) (hopen : ∀ w, I w → w.entrysOpen = true)
    (hindex : ∀ w a e, I w → w.keys.lookup a = some e → e.walletEntryIndex ≠ 0)
    (hnext : ∀ w, I w → I w.nextWrite)
    (hstore : ∀ w a e k, I w → w.keys.lookup a = some e → e.data.secret c old = some k →
      I (w.storing c (.key (changed c e new k)))) (order : List Address) :
    Keeps I (order.forM (changeKey c old new)) := by
  refine Keeps.forM (fun a w hw => ?_) order
  unfold final
  obtain ⟨-, hrun⟩ | ⟨e, he, hprivate, ⟨-, hrun⟩ | ⟨k, hk, ⟨-, hrun⟩ | ⟨-, hrun⟩⟩⟩ :=
    changeKey_cases c old hnew (hopen w hw) fun e he => hindex w a e hw he
  · rw [hrun]
    exact hw
  · rw [hrun]
    exact hw
  · rw [hrun]
    exact hnext w hw
  · rw [hrun]
    exact hstore w a e k hw he (secret_eq_some.2 ⟨hprivate, hk⟩)

end WalletDb

/-! ## The wallet while its keys change -/

section Changing

variable {wallet : Wallet c} {w : WalletDb} {old new : Password} {m : WalletMasterKeyEntry}
  {mk : ExtendedPrivateKey}

theorem Wallet.index_ne (hopen : wallet.db.isOpen = true) {a : Address} {e : WalletKeyEntry}
    (he : wallet.db.keys.lookup a = some e) : e.walletEntryIndex ≠ 0 ∧ e.walletEntryIndex ≠ -1 := by
  have hstored := (wallet.key a e he).2
  refine ⟨(wallet.storedKey _ e hstored).2.1, fun hindex => ?_⟩
  unfold WalletDb.isOpen at hopen
  obtain ⟨m, hm⟩ := Option.isSome_iff_exists.1 (Bool.and_eq_true_iff.1 hopen).2
  rw [hindex, wallet.master m hm] at hstored
  exact GenericWalletEntry.noConfusion (Option.some.inj hstored)

/-- Keys that have one index are one key. -/
theorem Wallet.eq_of_index {a a' : Address} {e e' : WalletKeyEntry}
    (he : wallet.db.keys.lookup a = some e) (he' : wallet.db.keys.lookup a' = some e')
    (hindex : e.walletEntryIndex = e'.walletEntryIndex) : a = a' := by
  have h := (wallet.key a e he).2
  rw [hindex, (wallet.key a' e' he').2, Option.some.injEq, GenericWalletEntry.key.injEq] at h
  rw [← (wallet.key a e he).1, ← (wallet.key a' e' he').1, h]

/-- The master key is stored, and the keys have the indexes they had. -/
structure Changing (wallet : Wallet c) (m : WalletMasterKeyEntry) (w : WalletDb) : Prop where
  isOpen : w.entrysOpen = true
  master : w.walletMasterKey = some m
  stored : w.entrys.lookup (-1) = some (.masterKey m)
  indexes : ∀ a e, w.keys.lookup a = some e →
    ∃ a₀ e₀, wallet.db.keys.lookup a₀ = some e₀ ∧ e₀.walletEntryIndex = e.walletEntryIndex

namespace Changing

theorem index_ne (hopen : wallet.db.isOpen = true) (h : Changing wallet m w) {a : Address}
    {e : WalletKeyEntry} (he : w.keys.lookup a = some e) :
    e.walletEntryIndex ≠ 0 ∧ e.walletEntryIndex ≠ -1 := by
  obtain ⟨a₀, e₀, he₀, hindex⟩ := h.indexes a e he
  rw [← hindex]
  exact wallet.index_ne hopen he₀

theorem nextWrite (h : Changing wallet m w) : Changing wallet m w.nextWrite :=
  ⟨h.isOpen, h.master, h.stored, h.indexes⟩

theorem storing (hopen : wallet.db.isOpen = true) (h : Changing wallet m w) {a : Address}
    {e : WalletKeyEntry} {k : PrivateKey} (he : w.keys.lookup a = some e) :
    Changing wallet m (w.storing c (.key (WalletDb.changed c e new k))) where
  isOpen := h.isOpen
  master := h.master
  stored := by
    rw [WalletDb.entrys_storing_key, WalletDb.index_changed,
      Finmap.lookup_insert_of_ne _ (h.index_ne hopen he).2.symm]
    exact h.stored
  indexes a' e' he' := by
    rw [WalletDb.keys_storing_key] at he'
    by_cases ha' : a' = (WalletDb.changed c e new k).data.getAddress c
    · rw [ha', Finmap.lookup_insert, Option.some.injEq] at he'
      obtain ⟨a₀, e₀, he₀, hindex⟩ := h.indexes a e he
      exact ⟨a₀, e₀, he₀, he' ▸ hindex⟩
    · rw [Finmap.lookup_insert_of_ne _ ha'] at he'
      exact h.indexes a' e' he'

end Changing

/-- Where every key decrypted belongs to its address, the first of some keys leaves the others alone. -/
theorem changeKey_own (hopen : wallet.db.isOpen = true)
    (hown : ∀ a k, wallet.db.keySecret c old a = some k → c.address (c.getPublicKey k) = a)
    {a : Address} {order : List Address} (h : Changing wallet m w)
    (hnodup : (a :: order).Nodup)
    (hsame : ∀ b ∈ a :: order, w.keys.lookup b = wallet.db.keys.lookup b) {e : WalletKeyEntry}
    {k : PrivateKey} (he : w.keys.lookup a = some e) (hk : e.data.secret c old = some k) :
    wallet.db.keys.lookup a = some e ∧ (WalletDb.changed c e new k).data.getAddress c = a ∧
      Changing wallet m (w.storing c (.key (WalletDb.changed c e new k))) ∧
      ∀ b ∈ order, (w.storing c (.key (WalletDb.changed c e new k))).keys.lookup b =
        wallet.db.keys.lookup b := by
  have hea : wallet.db.keys.lookup a = some e := (hsame a (List.mem_cons_self ..)).symm.trans he
  have hka : (WalletDb.changed c e new k).data.getAddress c = a := by
    refine hown a k ?_
    rw [WalletDb.keySecret, hea]
    exact hk
  refine ⟨hea, hka, h.storing hopen he, fun b hb => ?_⟩
  have hba : b ≠ a := by
    rintro rfl
    exact (List.nodup_cons.1 hnodup).1 hb
  rw [WalletDb.keys_storing_key, hka, Finmap.lookup_insert_of_ne _ hba]
  exact hsame b (List.mem_cons_of_mem _ hb)

/-- The entries stored for the keys are decrypted as the keys were. -/
def Stored (wallet : Wallet c) (p : Password) (w : WalletDb) (q : Password) : Prop :=
  ∀ a e k, wallet.db.keys.lookup a = some e → e.data.secret c p = some k →
    ∃ e', w.entrys.lookup e.walletEntryIndex = some (.key e') ∧ e'.data.secret c q = some k

theorem sameKeys_of {p q : Password} (h : Changing wallet m w)
    (hm : ∀ k, wallet.db.master c p = some k → m.data.decryptKey c q = some k)
    (hkeys : ∀ a k, wallet.db.keySecret c p a = some k → w.keySecret c q a = some k)
    (hstored : Stored wallet p w q) : SameKeys c wallet.db p w q := by
  intro place s hs
  cases place with
  | masterKey =>
    obtain ⟨k, hk, rfl⟩ := Option.map_eq_some_iff.1 hs
    refine Option.map_eq_some_iff.2 ⟨k, ?_, rfl⟩
    rw [WalletDb.master, h.master]
    exact hm k hk
  | key a =>
    obtain ⟨k, hk, rfl⟩ := Option.map_eq_some_iff.1 hs
    exact Option.map_eq_some_iff.2 ⟨k, hkeys a k hk, rfl⟩
  | stored i =>
    obtain ⟨e, he, hse⟩ := Option.bind_eq_some_iff.1 hs
    refine Option.bind_eq_some_iff.2 ?_
    cases e with
    | masterKey e =>
      obtain ⟨rfl, hmaster⟩ := wallet.storedMaster i e he
      obtain ⟨k, hk, rfl⟩ := Option.map_eq_some_iff.1 hse
      refine ⟨_, h.stored, Option.map_eq_some_iff.2 ⟨k, hm k ?_, rfl⟩⟩
      rw [WalletDb.master, hmaster]
      exact hk
    | key e =>
      obtain ⟨rfl, -, hkey⟩ := wallet.storedKey i e he
      obtain ⟨k, hk, rfl⟩ := Option.map_eq_some_iff.1 hse
      obtain ⟨e', he', hk'⟩ := hstored _ e k hkey hk
      exact ⟨_, he', Option.map_eq_some_iff.2 ⟨k, hk', rfl⟩⟩
    | _ => exact (nomatch hse)

variable (c) in
/-- The wallet with the master key stored. -/
def withMaster (w : WalletDb) (new : Password) (mk : ExtendedPrivateKey) : WalletDb :=
  w.storing c (.masterKey ⟨-1, .sealed c new mk⟩)

variable (new mk) in
theorem changing_withMaster (hopen : wallet.db.isOpen = true) :
    Changing wallet ⟨-1, .sealed c new mk⟩ (withMaster c wallet.db new mk) where
  isOpen := WalletDb.entrysOpen_of_isOpen (w := wallet.db) hopen
  master := rfl
  stored := Finmap.lookup_insert _
  indexes a e he := ⟨a, e, he, rfl⟩

/-- Whether there is a private key at an address. -/
def isPrivate (w : WalletDb) (a : Address) : Bool :=
  (w.keys.lookup a).any fun e => e.data.hasPrivateKey

theorem isOrder_toList : IsOrder w w.keys.keys.toList where
  nodup := Finset.nodup_toList _
  mem_iff a := by rw [Finset.mem_toList, Finmap.mem_keys]

theorem isOrder_first {a : Address} (ha : a ∈ w.keys) : IsOrder w (a :: (w.keys.keys.erase a).toList) where
  nodup := List.nodup_cons.2 ⟨by simp, Finset.nodup_toList _⟩
  mem_iff b := by
    rw [List.mem_cons, Finset.mem_toList, Finset.mem_erase, Finmap.mem_keys]
    by_cases hb : b = a
    · simp [hb, ha]
    · simp [hb]

theorem IsOrder.countP_eq {order : List Address} (h : IsOrder w order) :
    order.countP (isPrivate w) = (privateAddresses w).card := by
  rw [List.countP_eq_length_filter, ← List.toFinset_card_of_nodup (h.nodup.filter _)]
  refine congrArg Finset.card (Finset.ext fun a => ?_)
  rw [List.mem_toFinset, List.mem_filter, h.mem_iff, privateAddresses, Finset.mem_filter,
    Finmap.mem_keys, isPrivate]

variable [DecidableEq PrivateKey]

/-- A property that the stores keep holds after all of the keys, where the wallet keeps its indexes. -/
theorem changeKeys_keeps {I : WalletDb → Prop} (hopen : wallet.db.isOpen = true) (hnew : new ≠ 0)
    (hnext : ∀ w, I w → I w.nextWrite)
    (hstore : ∀ w a e k, Changing wallet m w → I w → w.keys.lookup a = some e →
      e.data.secret c old = some k → I (w.storing c (.key (WalletDb.changed c e new k))))
    (order : List Address) (h : Changing wallet m w) (hw : I w) :
    Changing wallet m (final (order.forM (WalletDb.changeKey c old new)) w) ∧
      I (final (order.forM (WalletDb.changeKey c old new)) w) := by
  refine WalletDb.keeps_changeKeys (I := fun w => Changing wallet m w ∧ I w) hnew
    (fun w hw => hw.1.isOpen) (fun w a e hw he => (hw.1.index_ne hopen he).1)
    (fun w hw => ⟨hw.1.nextWrite, hnext w hw.2⟩) (fun w a e k hw he hk => ?_) order w ⟨h, hw⟩
  exact ⟨hw.1.storing hopen he, hstore w a e k hw.1 hw.2 he hk⟩

variable (old) in
theorem changing_final (hopen : wallet.db.isOpen = true) (hnew : new ≠ 0) (order : List Address)
    (h : Changing wallet m w) : Changing wallet m (final (order.forM (WalletDb.changeKey c old new)) w) :=
  (changeKeys_keeps (I := fun _ => True) hopen hnew (fun _ _ => trivial) (fun _ _ _ _ _ _ _ _ => trivial)
    order h trivial).1

/-! ### The same password -/

/-- Without a clash the keys stay what they are. -/
theorem changeKeys_same {p : Password} (hopen : wallet.db.isOpen = true) (hp : p ≠ 0)
    (hclash : NoClash c wallet.db p) (order : List Address) (h : Changing wallet m w)
    (hkeys : w.keys = wallet.db.keys) (hstored : Stored wallet p w p) :
    let w' := final (order.forM (WalletDb.changeKey c p p)) w
    (∀ a k, wallet.db.keySecret c p a = some k → w'.keySecret c p a = some k) ∧ Stored wallet p w' p := by
  let I : WalletDb → Prop := fun w =>
    (∀ a k, wallet.db.keySecret c p a = some k → w.keySecret c p a = some k) ∧ Stored wallet p w p ∧
      ∀ a e k, w.keys.lookup a = some e → e.data.secret c p = some k →
        ∃ a₀ e₀, wallet.db.keys.lookup a₀ = some e₀ ∧ e₀.walletEntryIndex = e.walletEntryIndex ∧
          e₀.data.secret c p = some k
  have hI : I w := by
    refine ⟨fun a k hk => ?_, hstored, fun a e k he hk => ⟨a, e, hkeys ▸ he, rfl, hk⟩⟩
    rwa [WalletDb.keySecret, hkeys]
  suffices hend : I (final (order.forM (WalletDb.changeKey c p p)) w) from ⟨hend.1, hend.2.1⟩
  refine (changeKeys_keeps hopen hp (fun _ hw => hw) (fun w a e k hw hI he hk => ?_) order h hI).2
  obtain ⟨a₀, e₀, he₀, hindex, hk₀⟩ := hI.2.2 a e k he hk
  have hsecret := WalletDb.secret_changed (c := c) (e := e) (k := k) hp
  refine ⟨fun b kb hb => ?_, fun b eb kb heb hb => ?_, fun b eb kb heb hb => ?_⟩
  · rw [WalletDb.keySecret, WalletDb.keys_storing_key]
    by_cases hba : b = (WalletDb.changed c e p k).data.getAddress c
    · have ha₀ : wallet.db.keySecret c p a₀ = some k := by
        rw [WalletDb.keySecret, he₀]
        exact hk₀
      rw [hba, Finmap.lookup_insert]
      rw [hba] at hb
      rw [hclash a₀ k kb ha₀ hb]
      exact hsecret
    · rw [Finmap.lookup_insert_of_ne _ hba]
      exact hI.1 b kb hb
  · rw [WalletDb.entrys_storing_key, WalletDb.index_changed]
    by_cases hbe : eb.walletEntryIndex = e.walletEntryIndex
    · obtain rfl := wallet.eq_of_index heb he₀ (hbe.trans hindex.symm)
      rw [he₀, Option.some.injEq] at heb
      rw [← heb, hk₀, Option.some.injEq] at hb
      refine ⟨WalletDb.changed c e p k, ?_, hb ▸ hsecret⟩
      rw [hbe]
      exact Finmap.lookup_insert _
    · rw [Finmap.lookup_insert_of_ne _ hbe]
      exact hI.2.1 b eb kb heb hb
  · rw [WalletDb.keys_storing_key] at heb
    by_cases hba : b = (WalletDb.changed c e p k).data.getAddress c
    · rw [hba, Finmap.lookup_insert, Option.some.injEq] at heb
      rw [← heb, hsecret, Option.some.injEq] at hb
      exact ⟨a₀, e₀, he₀, heb ▸ hindex, hb ▸ hk₀⟩
    · rw [Finmap.lookup_insert_of_ne _ hba] at heb
      exact hI.2.2 b eb kb heb hb

variable (old) in
/-- Where the first of the keys is refused, none changes. -/
theorem changeKeys_refused (hopen : wallet.db.isOpen = true) (hnew : new ≠ 0) :
    ∀ (order : List Address) (w : WalletDb), Changing wallet m w → w.refused 0 = true →
      (final (order.forM (WalletDb.changeKey c old new)) w).keys = w.keys ∧
        (final (order.forM (WalletDb.changeKey c old new)) w).entrys = w.entrys
  | [], _, _, _ => ⟨rfl, rfl⟩
  | a :: order, w, h, hw => by
    rw [forM_cons]
    obtain ⟨-, hrun⟩ | ⟨e, -, -, ⟨-, hrun⟩ | ⟨k, -, ⟨-, hrun⟩ | ⟨hwrite, -⟩⟩⟩ :=
      WalletDb.changeKey_cases (w := w) (a := a) c old hnew h.isOpen fun e he => (h.index_ne hopen he).1
    · have ih := changeKeys_refused hopen hnew order w h hw
      rwa [final, ← bind_of_ok (f := fun _ => order.forM (WalletDb.changeKey c old new)) hrun] at ih
    · rw [final, bind_of_error hrun]
      exact ⟨rfl, rfl⟩
    · rw [final, bind_of_error hrun]
      exact ⟨rfl, rfl⟩
    · rw [hwrite] at hw
      exact Bool.noConfusion hw

/-- A key that has taken the place of another stays there. -/
theorem changeKeys_clash {p : Password} (hopen : wallet.db.isOpen = true) (hp : p ≠ 0) {k : PrivateKey}
    (order : List Address) (h : Changing wallet m w)
    (hk : w.keySecret c p (c.address (c.getPublicKey k)) = some k) :
    (final (order.forM (WalletDb.changeKey c p p)) w).keySecret c p (c.address (c.getPublicKey k)) =
      some k := by
  refine (changeKeys_keeps (I := fun w => w.keySecret c p (c.address (c.getPublicKey k)) = some k)
    hopen hp (fun _ hw => hw) (fun w a e k' hw hI he hk' => ?_) order h hk).2
  have hsecret := WalletDb.secret_changed (c := c) (e := e) (k := k') hp
  rw [WalletDb.keySecret, WalletDb.keys_storing_key]
  by_cases hka : c.address (c.getPublicKey k) = (WalletDb.changed c e p k').data.getAddress c
  · obtain rfl : k = k' := c.getPublicKey_injective (c.address_injective hka)
    rw [hka, Finmap.lookup_insert]
    exact hsecret
  · rw [Finmap.lookup_insert_of_ne _ hka]
    exact hI

/-! ### Another password -/

variable (old) in
/-- Each key in memory is as it was, or belongs to its address under the new password. -/
theorem changeKeys_live (hopen : wallet.db.isOpen = true) (hnew : new ≠ 0) (order : List Address)
    (h : Changing wallet m w) (hkeys : w.keys = wallet.db.keys) {a : Address} {e : WalletKeyEntry}
    (he : (final (order.forM (WalletDb.changeKey c old new)) w).keys.lookup a = some e) :
    wallet.db.keys.lookup a = some e ∨
      ∃ k, e.data.secret c new = some k ∧ c.address (c.getPublicKey k) = a := by
  refine (changeKeys_keeps (I := fun w => ∀ a e, w.keys.lookup a = some e →
    wallet.db.keys.lookup a = some e ∨
      ∃ k, e.data.secret c new = some k ∧ c.address (c.getPublicKey k) = a)
    hopen hnew (fun _ hw => hw) (fun w b eb k _ hI _ _ => ?_) order h
    (fun a e he => .inl (hkeys ▸ he))).2 a e he
  intro a e he
  rw [WalletDb.keys_storing_key] at he
  by_cases ha : a = (WalletDb.changed c eb new k).data.getAddress c
  · rw [ha, Finmap.lookup_insert, Option.some.injEq] at he
    exact .inr ⟨k, he ▸ WalletDb.secret_changed hnew, ha.symm⟩
  · rw [Finmap.lookup_insert_of_ne _ ha] at he
    exact hI a e he

section Own

variable (hopen : wallet.db.isOpen = true) (hnew : new ≠ 0)
  (hown : ∀ a k, wallet.db.keySecret c old a = some k → c.address (c.getPublicKey k) = a)
include hopen hnew hown

/-- The keys are all changed exactly when each is decrypted and no write is refused. -/
theorem changeKeys_returns_iff : ∀ (order : List Address) (w : WalletDb), Changing wallet m w →
    order.Nodup → (∀ b ∈ order, w.keys.lookup b = wallet.db.keys.lookup b) →
    ((∃ w', order.forM (WalletDb.changeKey c old new) w = .ok () w') ↔
      (∀ a ∈ order, ∀ e, wallet.db.keys.lookup a = some e → e.data.hasPrivateKey = true →
        ∃ k, e.data.decryptPrivateKey c old = some k) ∧
      ∀ i < order.countP (isPrivate wallet.db), w.refused i = false)
  | [], w, _, _, _ => ⟨fun _ => ⟨by simp, by simp⟩, fun _ => ⟨w, rfl⟩⟩
  | a :: order, w, h, hnodup, hsame => by
    have htail : ∀ b ∈ order, w.keys.lookup b = wallet.db.keys.lookup b :=
      fun b hb => hsame b (List.mem_cons_of_mem _ hb)
    have hhead := hsame a (List.mem_cons_self ..)
    rw [forM_cons, List.countP_cons, List.forall_mem_cons, ← hhead]
    obtain ⟨hpublic, hrun⟩ | ⟨e, he, hprivate, hcases⟩ :=
      WalletDb.changeKey_cases (w := w) (a := a) c old hnew h.isOpen fun e he => (h.index_ne hopen he).1
    · have hcount : isPrivate wallet.db a = false := by
        rw [isPrivate, ← hhead]
        cases hl : w.keys.lookup a with
        | none => rfl
        | some e => exact hpublic e hl
      rw [bind_of_ok hrun, hcount, changeKeys_returns_iff order w h hnodup.of_cons htail]
      refine ⟨fun hr => ⟨⟨fun e he hp => ?_, hr.1⟩, hr.2⟩, fun hr => ⟨hr.1.2, hr.2⟩⟩
      rw [hpublic e he] at hp
      exact Bool.noConfusion hp
    · have hcount : isPrivate wallet.db a = true := by
        rw [isPrivate, ← hhead, he]
        exact hprivate
      rw [hcount, if_pos rfl]
      obtain ⟨hnone, hrun⟩ | ⟨k, hk, ⟨hwrite, hrun⟩ | ⟨hwrite, hrun⟩⟩ := hcases
      · rw [bind_of_error hrun]
        refine ⟨fun hr => (nomatch hr.choose_spec), fun hr => ?_⟩
        obtain ⟨k, hk⟩ := hr.1.1 e he hprivate
        rw [hnone] at hk
        exact (nomatch hk)
      · rw [bind_of_error hrun]
        refine ⟨fun hr => (nomatch hr.choose_spec), fun hr => ?_⟩
        rw [hr.2 0 (Nat.succ_pos _)] at hwrite
        exact Bool.noConfusion hwrite
      · obtain ⟨-, -, hnext, hsame'⟩ := changeKey_own hopen hown h hnodup hsame he
          (WalletDb.secret_eq_some.2 ⟨hprivate, hk⟩)
        rw [bind_of_ok hrun, changeKeys_returns_iff order _ hnext hnodup.of_cons hsame']
        simp only [WalletDb.refused_storing_key]
        refine ⟨fun hr => ⟨⟨fun e' he' _ => ?_, hr.1⟩, fun i hi => ?_⟩, fun hr => ⟨hr.1.2, fun i hi => ?_⟩⟩
        · rw [he, Option.some.injEq] at he'
          exact ⟨k, he' ▸ hk⟩
        · cases i with
          | zero => exact hwrite
          | succ i => exact hr.2 i (Nat.lt_of_succ_lt_succ hi)
        · exact hr.2 (i + 1) (Nat.succ_lt_succ hi)

/-- Where they are all changed, the new password decrypts what the old one did. -/
theorem changeKeys_changed : ∀ (order : List Address) (w w' : WalletDb), Changing wallet m w →
    order.Nodup → (∀ b ∈ order, w.keys.lookup b = wallet.db.keys.lookup b) →
    order.forM (WalletDb.changeKey c old new) w = .ok () w' →
    (∀ a, a ∉ order → w'.keys.lookup a = w.keys.lookup a ∧ ∀ e, wallet.db.keys.lookup a = some e →
      w'.entrys.lookup e.walletEntryIndex = w.entrys.lookup e.walletEntryIndex) ∧
    ∀ a ∈ order, ∀ e k, wallet.db.keys.lookup a = some e → e.data.secret c old = some k →
      w'.keySecret c new a = some k ∧
        ∃ e', w'.entrys.lookup e.walletEntryIndex = some (.key e') ∧ e'.data.secret c new = some k
  | [], w, w', _, _, _, hrun => by
    obtain rfl : w = w' := by
      injection hrun
    exact ⟨fun _ _ => ⟨rfl, fun _ _ => rfl⟩, by simp⟩
  | a :: order, w, w', h, hnodup, hsame, hrun => by
    have htail : ∀ b ∈ order, w.keys.lookup b = wallet.db.keys.lookup b :=
      fun b hb => hsame b (List.mem_cons_of_mem _ hb)
    have hhead := hsame a (List.mem_cons_self ..)
    rw [forM_cons] at hrun
    obtain ⟨hpublic, hstep⟩ | ⟨e, he, hprivate, ⟨-, hstep⟩ | ⟨k, hk, ⟨-, hstep⟩ | ⟨-, hstep⟩⟩⟩ :=
      WalletDb.changeKey_cases (w := w) (a := a) c old hnew h.isOpen fun e he => (h.index_ne hopen he).1
    · rw [bind_of_ok hstep] at hrun
      obtain ⟨hframe, hchanged⟩ := changeKeys_changed order w w' h hnodup.of_cons htail hrun
      refine ⟨fun b hb => hframe b fun h => hb (List.mem_cons_of_mem _ h), ?_⟩
      refine List.forall_mem_cons.2 ⟨fun e k he hk => ?_, hchanged⟩
      have hp := (WalletDb.secret_eq_some.1 hk).1
      rw [hpublic e (hhead.trans he)] at hp
      exact Bool.noConfusion hp
    · rw [bind_of_error hstep] at hrun
      exact (nomatch hrun)
    · rw [bind_of_error hstep] at hrun
      exact (nomatch hrun)
    · rw [bind_of_ok hstep] at hrun
      obtain ⟨hea, hka, hnext, hsame'⟩ := changeKey_own hopen hown h hnodup hsame he
        (WalletDb.secret_eq_some.2 ⟨hprivate, hk⟩)
      obtain ⟨hframe, hchanged⟩ := changeKeys_changed order _ w' hnext hnodup.of_cons hsame' hrun
      refine ⟨fun b hb => ?_, List.forall_mem_cons.2 ⟨fun e' k' he' hk' => ?_, hchanged⟩⟩
      · rw [List.mem_cons, not_or] at hb
        obtain ⟨hkeys, hentrys⟩ := hframe b hb.2
        refine ⟨?_, fun e' he' => ?_⟩
        · rw [hkeys, WalletDb.keys_storing_key, hka, Finmap.lookup_insert_of_ne _ hb.1]
        · rw [hentrys e' he', WalletDb.entrys_storing_key, WalletDb.index_changed,
            Finmap.lookup_insert_of_ne _ fun hindex => hb.1 (wallet.eq_of_index he' hea hindex)]
      · rw [hea, Option.some.injEq] at he'
        obtain rfl : k = k' := by
          rw [← he', WalletDb.secret_eq_some, hk] at hk'
          exact Option.some.inj hk'.2
        obtain ⟨hkeys, hentrys⟩ := hframe a (List.nodup_cons.1 hnodup).1
        have hsecret := WalletDb.secret_changed (c := c) (e := e) (k := k) hnew
        refine ⟨?_, WalletDb.changed c e new k, ?_, hsecret⟩
        · rw [WalletDb.keySecret, hkeys, WalletDb.keys_storing_key, hka, Finmap.lookup_insert]
          exact hsecret
        · rw [← he', hentrys e hea]
          exact Finmap.lookup_insert _

end Own

/-! ## The whole call -/

variable [DecidableEq ExtendedPrivateKey]

omit [DecidableEq PrivateKey] in
theorem setMasterKey_run (hopen : w.isOpen = true) (hnew : new ≠ 0) (hwrite : w.refused 0 = false) :
    WalletDb.setMasterKey c mk new w = .ok () (withMaster c w new mk) := by
  have hstore : WalletDb.storeAndReloadEntry c .masterKey ⟨-1, .sealed c new mk⟩ w =
      .ok ⟨-1, .sealed c new mk⟩ (withMaster c w new mk) :=
    WalletDb.storeEntry_run (Int.neg_ne_zero.2 one_ne_zero) rfl (WalletDb.entrysOpen_of_isOpen hopen) hwrite
  unfold WalletDb.setMasterKey
  rw [MasterKey.encryptKey_eq hnew, WalletDb.returned_some, pure_bind, bind_of_ok hstore]
  rfl

omit [DecidableEq PrivateKey] in
theorem setMasterKey_refused (hopen : w.isOpen = true) (hnew : new ≠ 0) (hwrite : w.refused 0 = true) :
    WalletDb.setMasterKey c mk new w = .error .levelMapFailure w.nextWrite := by
  have hstore : WalletDb.storeAndReloadEntry c .masterKey ⟨-1, .sealed c new mk⟩ w =
      .error .levelMapFailure w.nextWrite :=
    WalletDb.storeEntry_refused (Int.neg_ne_zero.2 one_ne_zero) rfl (WalletDb.entrysOpen_of_isOpen hopen)
      hwrite
  unfold WalletDb.setMasterKey
  rw [MasterKey.encryptKey_eq hnew, WalletDb.returned_some, pure_bind, bind_of_error hstore]

theorem changePassword_run (order : List Address) (hopen : w.isOpen = true)
    (hmaster : w.master c old = some mk) (hnew : new ≠ 0) (hwrite : w.refused 0 = false) :
    WalletDb.changePassword c order old new w =
      order.forM (WalletDb.changeKey c old new) (withMaster c w new mk) := by
  unfold WalletDb.changePassword WalletDb.assertOpen
  rw [bind_of_ok (WalletDb.lookupOpen_run hopen), get_bind]
  change (returned (w.master c old) >>= _) w = _
  rw [hmaster, WalletDb.returned_some, pure_bind, bind_of_ok (setMasterKey_run hopen hnew hwrite)]

theorem changePassword_refused (order : List Address) (h : Refused c w old new) :
    ∃ e w', WalletDb.changePassword c order old new w = .error e w' ∧ (w' = w ∨ w' = w.nextWrite) := by
  unfold WalletDb.changePassword WalletDb.assertOpen
  by_cases hopen : w.isOpen = true
  · rw [bind_of_ok (WalletDb.lookupOpen_run hopen), get_bind]
    change ∃ e w', (returned (w.master c old) >>= _) w = _ ∧ _
    cases hmaster : w.master c old with
    | none => exact ⟨_, w, rfl, .inl rfl⟩
    | some mk =>
      rw [WalletDb.returned_some, pure_bind]
      by_cases hnew : new = 0
      · unfold WalletDb.setMasterKey
        rw [hnew, MasterKey.encryptKey_zero]
        exact ⟨_, w, rfl, .inl rfl⟩
      · have hwrite : w.refused 0 = true := by
          simpa [Refused, hopen, hmaster, hnew] using h
        exact ⟨_, _, bind_of_error (setMasterKey_refused hopen hnew hwrite), .inr rfl⟩
  · rw [bind_of_error (WalletDb.lookupOpen_closed hopen)]
    exact ⟨_, w, rfl, .inl rfl⟩

/-- With another password, nothing may go wrong once the master key is stored. -/
theorem changes_other_iff (hopen : wallet.db.isOpen = true) (hmaster : wallet.db.master c old = some mk)
    (hnew : new ≠ 0) (hwrite : wallet.db.refused 0 = false) (hother : old ≠ new) :
    AllOrNothing c wallet.db old new ↔ OwnKeys c wallet.db old ∧
      ∀ i < (privateAddresses wallet.db).card, wallet.db.refused (i + 1) = false := by
  have hstart := changing_withMaster new mk hopen
  have hcount {order : List Address} (horder : IsOrder wallet.db order) := horder.countP_eq
  unfold AllOrNothing
  simp only [changePassword_run _ hopen hmaster hnew hwrite]
  constructor
  · intro h
    have horder := isOrder_toList (w := wallet.db)
    have hsame := h _ horder
    have hend := changing_final old hopen hnew wallet.db.keys.keys.toList hstart
    unfold final at hend
    cases hrun : wallet.db.keys.keys.toList.forM (WalletDb.changeKey c old new)
        (withMaster c wallet.db new mk) with
    | error e w' =>
      rw [hrun] at hsame hend
      have hold := hsame .masterKey (.inl mk) (Option.map_eq_some_iff.2 ⟨mk, hmaster, rfl⟩)
      obtain ⟨mk', hmk', heq⟩ := Option.map_eq_some_iff.1 hold
      rw [WalletDb.master, hend.master, Sum.inl.inj heq] at hmk'
      exact absurd (MasterKey.unique_password hmk' (MasterKey.decrypt_sealed hnew)) hother
    | ok _ w' =>
      rw [hrun] at hsame
      have hown : ∀ a k, wallet.db.keySecret c old a = some k → c.address (c.getPublicKey k) = a := by
        intro a k hk
        obtain ⟨k', hk', heq⟩ := Option.map_eq_some_iff.1
          (hsame (.key a) (.inr k) (Option.map_eq_some_iff.2 ⟨k, hk, rfl⟩))
        obtain rfl := Sum.inr.inj heq
        obtain ⟨e, he, hprivate, hnewKey⟩ := WalletDb.keySecret_eq_some.1 hk'
        have hlive := changeKeys_live old (e := e) (a := a) hopen hnew
          wallet.db.keys.keys.toList hstart rfl (by rwa [final, hrun])
        obtain hkept | ⟨k, hk'', rfl⟩ := hlive
        · obtain ⟨e', he', -, holdKey⟩ := WalletDb.keySecret_eq_some.1 hk
          rw [hkept, Option.some.injEq] at he'
          exact absurd (KeyData.unique_password (he' ▸ holdKey) hnewKey) hother
        · rw [WalletDb.secret_eq_some, hnewKey, Option.some.injEq] at hk''
          rw [hk''.2]
      obtain ⟨hdecrypt, hrefused⟩ := (changeKeys_returns_iff hopen hnew hown _ _ hstart horder.nodup
        fun _ _ => rfl).1 ⟨w', hrun⟩
      refine ⟨fun a e he hprivate => ?_, fun i hi => ?_⟩
      · have ha := (horder.mem_iff a).2 (Finmap.mem_of_lookup_eq_some he)
        obtain ⟨k, hk⟩ := hdecrypt a ha e he hprivate
        exact ⟨k, hk, hown a k (WalletDb.keySecret_eq_some.2 ⟨e, he, hprivate, hk⟩)⟩
      · exact hrefused i (hcount horder ▸ hi)
  · rintro ⟨hownKeys, hrefused⟩ order horder
    have hown : ∀ a k, wallet.db.keySecret c old a = some k → c.address (c.getPublicKey k) = a := by
      intro a k hk
      obtain ⟨e, he, hprivate, hk⟩ := WalletDb.keySecret_eq_some.1 hk
      obtain ⟨k', hk', ha⟩ := hownKeys a e he hprivate
      rw [hk, Option.some.injEq] at hk'
      rw [hk', ha]
    obtain ⟨w', hrun⟩ := (changeKeys_returns_iff hopen hnew hown order _ hstart horder.nodup
      fun _ _ => rfl).2 ⟨fun a _ e he hprivate => (hownKeys a e he hprivate).imp fun _ h => h.1,
        fun i hi => hrefused i (hcount horder ▸ hi)⟩
    have hend := changing_final old hopen hnew order hstart
    obtain ⟨-, hchanged⟩ := changeKeys_changed hopen hnew hown order _ w' hstart horder.nodup
      (fun _ _ => rfl) hrun
    rw [final, hrun] at hend
    rw [hrun]
    have hmem : ∀ a e, wallet.db.keys.lookup a = some e → a ∈ order :=
      fun a e he => (horder.mem_iff a).2 (Finmap.mem_of_lookup_eq_some he)
    refine sameKeys_of hend (fun k hk => ?_) (fun a k hk => ?_) fun a e k he hk => ?_
    · rw [hmaster, Option.some.injEq] at hk
      rw [← hk]
      exact MasterKey.decrypt_sealed hnew
    · obtain ⟨e, he, hprivate, hk⟩ := WalletDb.keySecret_eq_some.1 hk
      exact (hchanged a (hmem a e he) e k he (WalletDb.secret_eq_some.2 ⟨hprivate, hk⟩)).1
    · exact (hchanged a (hmem a e he) e k he hk).2

/-- With the same password only a key that takes the place of another is lost. -/
theorem changes_same_iff {p : Password} (hopen : wallet.db.isOpen = true)
    (hmaster : wallet.db.master c p = some mk) (hp : p ≠ 0) (hwrite : wallet.db.refused 0 = false) :
    AllOrNothing c wallet.db p p ↔ wallet.db.refused 1 = true ∨ NoClash c wallet.db p := by
  have hstart := changing_withMaster p mk hopen
  have hfinal : AllOrNothing c wallet.db p p ↔ ∀ order, IsOrder wallet.db order → SameKeys c wallet.db p
      (final (order.forM (WalletDb.changeKey c p p)) (withMaster c wallet.db p mk)) p := by
    unfold AllOrNothing final
    simp only [changePassword_run _ hopen hmaster hp hwrite]
    refine forall₂_congr fun order _ => ?_
    cases order.forM (WalletDb.changeKey c p p) (withMaster c wallet.db p mk) <;> rfl
  have hstored : Stored wallet p (withMaster c wallet.db p mk) p := by
    intro a e k he hk
    refine ⟨e, ?_, hk⟩
    exact (Finmap.lookup_insert_of_ne _ (wallet.index_ne hopen he).2).trans (wallet.key a e he).2
  have hm : ∀ k, wallet.db.master c p = some k → (MasterKey.sealed c p mk).decryptKey c p = some k := by
    intro k hk
    rw [hmaster, Option.some.injEq] at hk
    rw [← hk]
    exact MasterKey.decrypt_sealed hp
  rw [hfinal]
  constructor
  · intro h
    by_contra hnot
    simp only [not_or, NoClash, not_forall] at hnot
    obtain ⟨hrefused, a, k, k', hk, hk', hne⟩ := hnot
    obtain ⟨e, he, hprivate, hdecrypt⟩ := WalletDb.keySecret_eq_some.1 hk
    have hsame := h _ (isOrder_first (Finmap.mem_of_lookup_eq_some he))
    obtain ⟨hpublic, -⟩ | ⟨e', he', -, ⟨hnone, -⟩ | ⟨k₁, hk₁, ⟨hrefused', -⟩ | ⟨-, hrun⟩⟩⟩ :=
      WalletDb.changeKey_cases (w := withMaster c wallet.db p mk) (a := a) c p hp hstart.isOpen
        fun e he => (hstart.index_ne hopen he).1
    · rw [hpublic e he] at hprivate
      exact Bool.noConfusion hprivate
    · obtain rfl := Option.some.inj (he.symm.trans he')
      rw [hdecrypt] at hnone
      exact (nomatch hnone)
    · exact hrefused hrefused'
    · obtain rfl := Option.some.inj (he.symm.trans he')
      obtain rfl := Option.some.inj (hdecrypt.symm.trans hk₁)
      have hput : ((withMaster c wallet.db p mk).storing c (.key (WalletDb.changed c e p k))).keySecret c p
          (c.address (c.getPublicKey k)) = some k := by
        rw [WalletDb.keySecret, WalletDb.keys_storing_key]
        exact (congrArg (Option.bind · _) (Finmap.lookup_insert _)).trans (WalletDb.secret_changed hp)
      have hlost := changeKeys_clash hopen hp (wallet.db.keys.keys.erase a).toList
        (hstart.storing hopen he) hput
      obtain ⟨k₂, hk₂, heq⟩ := Option.map_eq_some_iff.1
        (hsame (.key _) (.inr k') (Option.map_eq_some_iff.2 ⟨k', hk', rfl⟩))
      rw [forM_cons, final, bind_of_ok hrun] at hk₂
      rw [final] at hlost
      rw [hlost, Option.some.injEq] at hk₂
      exact hne ((Sum.inr.inj heq).symm.trans hk₂.symm)
  · rintro (hrefused | hclash) order -
    · obtain ⟨hkeys, hentrys⟩ := changeKeys_refused p hopen hp order _ hstart hrefused
      refine sameKeys_of (changing_final p hopen hp order hstart) hm (fun a k hk => ?_) fun a e k he hk => ?_
      · rw [WalletDb.keySecret, hkeys]
        exact hk
      · rw [hentrys]
        exact hstored a e k he hk
    · obtain ⟨hkeys, hstored⟩ := changeKeys_same hopen hp hclash order hstart rfl hstored
      exact sameKeys_of (changing_final p hopen hp order hstart) hm hkeys hstored

/-- The password is changed for all keys or for none exactly where `ChangesAll` says so. -/
theorem changePassword_allOrNothing_iff (wallet : Wallet c) (old new : Password) :
    AllOrNothing c wallet.db old new ↔ ChangesAll c wallet.db old new := by
  by_cases hr : Refused c wallet.db old new
  · refine iff_of_true (fun order _ => ?_) (.inl hr)
    obtain ⟨e, w', hrun, rfl | rfl⟩ := changePassword_refused order hr
    · rw [hrun]
      exact fun _ _ hs => hs
    · rw [hrun]
      exact fun _ _ hs => hs
  · obtain ⟨hopen, hmaster, hnew, hwrite⟩ : wallet.db.isOpen = true ∧ wallet.db.master c old ≠ none ∧
        new ≠ 0 ∧ wallet.db.refused 0 = false := by
      simpa [Refused, not_or] using hr
    obtain ⟨mk, hmaster⟩ := Option.ne_none_iff_exists'.1 hmaster
    unfold ChangesAll
    by_cases hother : old = new
    · subst hother
      rw [changes_same_iff hopen hmaster hnew hwrite]
      simp [hr]
    · rw [changes_other_iff hopen hmaster hnew hwrite hother]
      simp [hr, hother]

end Changing

section FullDisk

/-- The entries of a wallet with one key. -/
def fullDiskMaster : WalletMasterKeyEntry := ⟨-1, .sealed Crypto.plain 1 7⟩
def fullDiskKey : WalletKeyEntry := ⟨2, KeyData.empty.sealed Crypto.plain 1 3⟩

/-- A wallet with one key, whose file refuses the second write. -/
def fullDiskWallet : WalletDb :=
  { emptyWallet with
    entrys := ((∅ : Tab Int GenericWalletEntry).insert (-1) (.masterKey fullDiskMaster)).insert 2
      (.key fullDiskKey)
    refused := fun n => n == 1
    walletMasterKey := some fullDiskMaster
    keys := (∅ : Tab Address WalletKeyEntry).insert 8 fullDiskKey }

theorem entrys_fullDisk (i : Int) : fullDiskWallet.entrys.lookup i =
    if i = 2 then some (.key fullDiskKey) else if i = -1 then some (.masterKey fullDiskMaster) else none := by
  unfold fullDiskWallet
  split_ifs with h2 h1
  · rw [h2, Finmap.lookup_insert]
  · rw [h1, Finmap.lookup_insert_of_ne _ (by decide), Finmap.lookup_insert]
  · rw [Finmap.lookup_insert_of_ne _ h2, Finmap.lookup_insert_of_ne _ h1, Finmap.lookup_empty]

theorem keys_fullDisk (a : Address) : fullDiskWallet.keys.lookup a =
    if a = 8 then some fullDiskKey else none := by
  unfold fullDiskWallet
  split_ifs with h
  · rw [h, Finmap.lookup_insert]
  · rw [Finmap.lookup_insert_of_ne _ h, Finmap.lookup_empty]

/-- What is in the file is in memory. -/
def fullDisk : Wallet Crypto.plain where
  db := fullDiskWallet
  master e he := by
    rw [entrys_fullDisk, ← Option.some.inj he]
    rfl
  storedMaster i e he := by
    rw [entrys_fullDisk] at he
    split_ifs at he with h2 h1
    · exact (nomatch he)
    · obtain rfl : fullDiskMaster = e := by simpa using he
      exact ⟨h1, rfl⟩
  key a e he := by
    rw [keys_fullDisk] at he
    split_ifs at he with ha
    obtain rfl := Option.some.inj he
    rw [entrys_fullDisk]
    exact ⟨ha.symm, rfl⟩
  storedKey i e he := by
    rw [entrys_fullDisk] at he
    split_ifs at he with h2 h1
    · obtain rfl : fullDiskKey = e := by simpa using he
      refine ⟨h2.symm, by omega, ?_⟩
      rw [keys_fullDisk]
      rfl
    · exact absurd he (by simp)

/-- The master key is stored under the new password, and the only key is not. -/
theorem changes_master_key_only :
    ¬ ∀ (wallet : Wallet Crypto.plain) (old new : Password),
      AllOrNothing Crypto.plain wallet.db old new := by
  intro h
  have hiff : AllOrNothing Crypto.plain fullDisk.db 1 2 ↔ _ :=
    changes_other_iff rfl rfl (by decide) rfl (by decide)
  have hchanges := hiff.1 (h fullDisk 1 2)
  have hcard : (privateAddresses fullDiskWallet).card = 1 := by decide
  have hrefused := hchanges.2 0 (by rw [show fullDisk.db = fullDiskWallet from rfl, hcard]; decide)
  exact absurd hrefused (by decide)

end FullDisk

end Achain.Wallets
