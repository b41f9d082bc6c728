import Achain.Proofs.WalletStores

/-!
# Removing an account

The account goes with its contracts, its current keys and all transactions of the wallet; the keys it had
before stay.
-/

namespace Achain.Wallets

open Table Stateful

variable {PrivateKey ExtendedPrivateKey : Type} {c : Crypto PrivateKey ExtendedPrivateKey}

section Claim

variable (c : Crypto PrivateKey ExtendedPrivateKey)

/-- The keys of an account: the owner key and all active and signing keys but for the null key. -/
def AccountData.heldKeys (a : AccountData) : List PublicKeyType := a.allKeys.filter (· ≠ 0)

/-- The account is sender or receiver of a ledger entry. -/
def Involves (a : AccountData) (t : TransactionData) : Prop :=
  ∃ l ∈ t.ledgerEntries, ∃ key ∈ a.heldKeys, l.fromAccount = some key ∨ l.toAccount = some key

/-- An open wallet whose maps are those of its file and whose accounts share no keys. -/
structure AccountsWallet where
  db : WalletDb
  isOpen : db.isOpen = true
  index : ∀ i g, db.entrys.lookup i = some g → g.getWalletEntryIndex = i
  account : ∀ i e, db.accounts.lookup i = some e →
    e.data.ownerKey ≠ 0 ∧ db.entrys.lookup i = some (.account e)
  storedAccount : ∀ i e, db.entrys.lookup i = some (.account e) → db.accounts.lookup i = some e
  key : ∀ a e, db.keys.lookup a = some e →
    e.data.getAddress c = a ∧ db.entrys.lookup e.walletEntryIndex = some (.key e)
  storedKey : ∀ i e, db.entrys.lookup i = some (.key e) → db.keys.lookup (e.data.getAddress c) = some e
  transaction : ∀ id e, db.transactions.lookup id = some e →
    db.entrys.lookup e.walletEntryIndex = some (.transaction e)
  contract : ∀ id e, db.idToEntryForContract.lookup id = some e → e.data.id = id ∧
    db.entrys.lookup e.walletEntryIndex = some (.contract e) ∧
      ∃ l, db.contractsOfWallet.lookup (c.address e.data.owner) = some l ∧ e ∈ l
  listed : ∀ a l, db.contractsOfWallet.lookup a = some l →
    ∀ e ∈ l, c.address e.data.owner = a ∧ db.idToEntryForContract.lookup e.data.id = some e
  storedContract : ∀ i e, db.entrys.lookup i = some (.contract e) →
    db.idToEntryForContract.lookup e.data.id = some e
  separate : ∀ i j a b, db.accounts.lookup i = some a → db.accounts.lookup j = some b → i ≠ j →
    ∀ key ∈ a.data.heldKeys, key ∉ b.data.heldKeys

/-- The account is gone with its keys and its contracts. -/
structure Gone (e : WalletAccountEntry) (w' : WalletDb) : Prop where
  account : w'.accounts.lookup e.walletEntryIndex = none ∧ ∀ i, w'.entrys.lookup i ≠ some (.account e)
  keys : ∀ key ∈ e.data.heldKeys, w'.keys.lookup (c.address key) = none ∧
    ∀ i k, w'.entrys.lookup i = some (.key k) → k.data.publicKey ≠ key
  contracts : w'.contractsOfWallet.lookup (e.data.ownerAddress c) = none ∧
    (∀ id k, w'.idToEntryForContract.lookup id = some k → k.data.owner ≠ e.data.ownerKey) ∧
      ∀ i k, w'.entrys.lookup i = some (.contract k) → k.data.owner ≠ e.data.ownerKey

/-- An account is there with its keys and its contracts as before. -/
structure Kept (w : WalletDb) (a : WalletAccountEntry) (w' : WalletDb) : Prop where
  account : w'.accounts.lookup a.walletEntryIndex = some a ∧
    w'.entrys.lookup a.walletEntryIndex = some (.account a)
  keys : ∀ key ∈ a.data.heldKeys, ∀ k, w.keys.lookup (c.address key) = some k →
    w'.keys.lookup (c.address key) = some k ∧ w'.entrys.lookup k.walletEntryIndex = some (.key k)
  contracts : w'.contractsOfWallet.lookup (a.data.ownerAddress c) =
      w.contractsOfWallet.lookup (a.data.ownerAddress c) ∧
    ∀ id k, w.idToEntryForContract.lookup id = some k → k.data.owner = a.data.ownerKey →
      w'.idToEntryForContract.lookup id = some k ∧
        w'.entrys.lookup k.walletEntryIndex = some (.contract k)

/-- One account is gone, and all others are kept with the transactions it takes no part in. -/
structure OneGone (w : WalletDb) (e : WalletAccountEntry) (w' : WalletDb) : Prop where
  gone : Gone c e w'
  others : ∀ i a, w.accounts.lookup i = some a → i ≠ e.walletEntryIndex → Kept c w a w'
  transactions : ∀ id t, w.transactions.lookup id = some t → ¬ Involves e.data t.data →
    w'.transactions.lookup id = some t ∧ w'.entrys.lookup t.walletEntryIndex = some (.transaction t)

/-- What the removal of an account by its name is for. -/
def TouchesOneAccount (w : WalletDb) (accountName : Str) (w' : WalletDb) : Prop :=
  match w.accountNamed accountName with
  | none => w' = w
  | some e => OneGone c w e w'

/-- The wallet has no key of the account but for the current ones, and no transaction without it. -/
def OnlyCurrent (w : WalletDb) (accountName : Str) : Prop :=
  ∀ e, w.accountNamed accountName = some e →
    (∀ key ∈ e.data.heldKeys, key ∉ WalletDb.currentKeys e.data → w.keys.lookup (c.address key) = none) ∧
      ∀ id t, w.transactions.lookup id = some t → Involves e.data t.data

end Claim

/-! ## What is erased -/

namespace WalletDb

variable {w w' w'' : WalletDb}

theorem remove_returns {e : GenericWalletEntry} (h : removeGenericWalletEntry e w = .ok () w') :
    w' = { w.nextWrite with entrys := w.entrys.erase e.getWalletEntryIndex } := by
  unfold removeGenericWalletEntry write at h
  rw [get_bind] at h
  by_cases hopen : w.entrysOpen = true
  · rw [fcAssert_run hopen] at h
    cases hrefused : w.refused 0 with
    | true =>
      simp only [hrefused, if_true] at h
      exact (nomatch h)
    | false =>
      simp only [hrefused] at h
      injection h with _ h
      exact h.symm
  · rw [fcAssert_fail hopen] at h
    exact (nomatch h)

/-- Keys and transactions are erased, from their maps and from the file. -/
structure Erased (K : Address → Prop) (T : TransactionIdType → Prop) (w w' : WalletDb) : Prop where
  keys : Without K w.keys w'.keys
  transactions : Without T w.transactions w'.transactions
  entrys : Without (fun i => (∃ a e, K a ∧ w.keys.lookup a = some e ∧ e.walletEntryIndex = i) ∨
    ∃ id e, T id ∧ w.transactions.lookup id = some e ∧ e.walletEntryIndex = i) w.entrys w'.entrys
  frame : w' = { w with refused := w'.refused, entrys := w'.entrys, keys := w'.keys
                        transactions := w'.transactions }

namespace Erased

variable {K K' : Address → Prop} {T T' : TransactionIdType → Prop}

theorem refl : Erased (fun _ => False) (fun _ => False) w w :=
  ⟨.refl, .refl, Without.refl.congr (by simp), rfl⟩

theorem congr (h : Erased K T w w') (hK : ∀ a, K a ↔ K' a) (hT : ∀ id, T id ↔ T' id) :
    Erased K' T' w w' := by
  obtain rfl : K = K' := funext fun a => propext (hK a)
  obtain rfl : T = T' := funext fun id => propext (hT id)
  exact h

theorem trans (h : Erased K T w w') (h' : Erased K' T' w' w'') :
    Erased (fun a => K a ∨ K' a) (fun id => T id ∨ T' id) w w'' where
  keys := h.keys.trans h'.keys
  transactions := h.transactions.trans h'.transactions
  entrys := by
    refine (h.entrys.trans h'.entrys).congr fun i => ?_
    simp only [h.keys.lookup_eq_some_iff, h.transactions.lookup_eq_some_iff]
    grind
  frame := by
    rw [h'.frame, h.frame]

theorem key {a : Address} {e : WalletKeyEntry} (he : w.keys.lookup a = some e)
    (h : removeGenericWalletEntry (.key e) w = .ok () w') :
    Erased (· = a) (fun _ => False) w { w' with keys := w'.keys.erase a } := by
  obtain rfl := remove_returns h
  refine ⟨.erase, .refl, Without.erase.congr fun i => ?_, rfl⟩
  simp [he, GenericWalletEntry.getWalletEntryIndex, eq_comm]

theorem transaction {id : TransactionIdType} {e : WalletTransactionEntry}
    (he : w.transactions.lookup id = some e)
    (h : removeGenericWalletEntry (.transaction e) w = .ok () w') :
    Erased (fun _ => False) (· = id) w { w' with transactions := w'.transactions.erase id } := by
  obtain rfl := remove_returns h
  refine ⟨.refl, .erase, Without.erase.congr fun i => ?_, rfl⟩
  simp [he, GenericWalletEntry.getWalletEntryIndex, eq_comm]

/-- What each of some calls erases, all of them erase. -/
theorem forM {A : Type} {f : A → Db Unit} {K : A → Address → Prop} {T : A → TransactionIdType → Prop}
    (hf : ∀ a w w', f a w = .ok () w' → Erased (K a) (T a) w w') :
    ∀ (l : List A) (w : WalletDb), l.forM f w = .ok () w' →
      Erased (fun x => ∃ a ∈ l, K a x) (fun x => ∃ a ∈ l, T a x) w w'
  | [], w, h => by
    obtain rfl : w = w' := by
      injection h
    exact refl.congr (by simp) (by simp)
  | a :: l, w, h => by
    rw [forM_cons, bind_returns] at h
    obtain ⟨_, w₁, hhead, htail⟩ := h
    refine ((hf a w w₁ hhead).trans (Erased.forM hf l w₁ htail)).congr (fun x => ?_) fun x => ?_
    · rw [List.exists_mem_cons_iff]
    · rw [List.exists_mem_cons_iff]

end Erased

/-- Contracts are erased, from the map of their ids and from the file. -/
structure ContractsErased (l : List WalletContractEntry) (w w' : WalletDb) : Prop where
  ids : Without (fun id => ∃ e ∈ l, e.data.id = id) w.idToEntryForContract w'.idToEntryForContract
  entrys : Without (fun i => ∃ e ∈ l, e.walletEntryIndex = i) w.entrys w'.entrys
  frame : w' = { w with refused := w'.refused, entrys := w'.entrys
                        idToEntryForContract := w'.idToEntryForContract }

theorem removeContract_returns {e : WalletContractEntry} (h : removeContract e w = .ok () w') :
    w' = { w.nextWrite with entrys := w.entrys.erase e.walletEntryIndex
                            idToEntryForContract := w.idToEntryForContract.erase e.data.id } := by
  unfold removeContract at h
  rw [modify_bind] at h
  exact remove_returns h

theorem contractsErased : ∀ (l : List WalletContractEntry) (w : WalletDb),
    l.forM removeContract w = .ok () w' → ContractsErased l w w'
  | [], w, h => by
    obtain rfl : w = w' := by
      injection h
    exact ⟨Without.refl.congr (by simp), Without.refl.congr (by simp), rfl⟩
  | e :: l, w, h => by
    rw [forM_cons, bind_returns] at h
    obtain ⟨_, w₁, hhead, htail⟩ := h
    obtain rfl := removeContract_returns hhead
    have ih := contractsErased l _ htail
    refine ⟨(Without.erase.trans ih.ids).congr fun id => ?_, (Without.erase.trans ih.entrys).congr fun i => ?_,
      ih.frame⟩
    · rw [List.exists_mem_cons_iff, eq_comm]
    · rw [List.exists_mem_cons_iff, eq_comm]

/-- The keys that are no longer found by their addresses are not removed. -/
theorem removeFoundKeys_run (hopen : w.isOpen = true) : ∀ (l : List PublicKeyType),
    (∀ key ∈ l, w.keyAt (c.address key) = none) → l.forM (removeFoundKey c) w = .ok () w
  | [], _ => rfl
  | key :: l, h => by
    have hkey : removeFoundKey c key w = .ok () w := by
      unfold removeFoundKey lookupKey
      rw [bind_of_ok (lookupOpen_run hopen), h key (List.mem_cons_self ..)]
      rfl
    rw [forM_cons, bind_of_ok hkey]
    exact removeFoundKeys_run hopen l fun key hkey => h key (List.mem_cons_of_mem _ hkey)

variable (c) in
/-- The addresses that lead to no key any more. -/
def forgetAllDerived (l : List PublicKeyType) (w : WalletDb) : WalletDb :=
  l.foldl (fun w key => forgetDerived c key w) w

theorem forgetDerived_run : ∀ (l : List PublicKeyType) (w : WalletDb),
    l.forM (fun key => (modify (forgetDerived c key) : Db Unit)) w = .ok () (forgetAllDerived c l w)
  | [], _ => rfl
  | key :: l, w => by
    rw [forM_cons, modify_bind, forgetDerived_run l]
    rfl

theorem forgetAllDerived_eq : ∀ (l : List PublicKeyType) (w : WalletDb), forgetAllDerived c l w =
    { w with
      btcToAlpAddress := (l.flatMap (derivedAddresses c)).foldl (fun t a => t.erase a) w.btcToAlpAddress }
  | [], _ => rfl
  | key :: l, w => by
    rw [forgetAllDerived, List.foldl_cons, ← forgetAllDerived, forgetAllDerived_eq l,
      List.flatMap_cons, List.foldl_append]
    rfl

theorem keyAt_forgetAllDerived {l : List PublicKeyType} {key : PublicKeyType} (hkey : key ∈ l) :
    (forgetAllDerived c l w).keyAt (c.address key) = none := by
  have hlost := without_foldl_erase (fun a => a) (l.flatMap (derivedAddresses c)) w.btcToAlpAddress
    (c.address key)
  rw [forgetAllDerived_eq, keyAt, hlost.1 ⟨_, ?_, rfl⟩]
  · rfl
  · exact List.mem_flatMap.2 ⟨key, hkey, List.mem_cons_self ..⟩

theorem removeKey_erases (key : PublicKeyType) (w w' : WalletDb) (h : removeKey c key w = .ok () w') :
    Erased (c.address key = ·) (fun _ => False) w w' := by
  unfold removeKey at h
  rw [get_bind] at h
  cases he : w.keys.lookup (c.address key) with
  | none =>
    rw [he] at h
    obtain rfl : w = w' := by
      injection h
    refine ⟨fun a => ⟨?_, fun _ => rfl⟩, .refl, Without.refl.congr (by simp [he]), rfl⟩
    rintro rfl
    exact he
  | some e =>
    rw [he] at h
    obtain ⟨_, w₁, hremove, hforget⟩ := bind_returns.1 h
    obtain rfl : { w₁ with keys := w₁.keys.erase (c.address key) } = w' := by
      injection hforget
    exact (Erased.key he hremove).congr (fun _ => eq_comm) fun _ => Iff.rfl

theorem removeTransactionAt_erases (id : TransactionIdType) (w w' : WalletDb)
    (h : removeTransactionAt id w = .ok () w') : Erased (fun _ => False) (id = ·) w w' := by
  unfold removeTransactionAt at h
  rw [get_bind] at h
  cases he : w.transactions.lookup id with
  | none =>
    rw [he] at h
    obtain rfl : w = w' := by
      injection h
    refine ⟨.refl, fun a => ⟨?_, fun _ => rfl⟩, Without.refl.congr (by simp [he]), rfl⟩
    rintro rfl
    exact he
  | some e =>
    rw [he] at h
    obtain ⟨_, w₁, hremove, hforget⟩ := bind_returns.1 h
    obtain rfl : { w₁ with transactions := w₁.transactions.erase id } = w' := by
      injection hforget
    exact (Erased.transaction he hremove).congr (fun _ => Iff.rfl) fun _ => eq_comm

/-- All that is erased with an account. -/
structure AccountErased (c : Crypto PrivateKey ExtendedPrivateKey) (e : WalletAccountEntry)
    (order : List TransactionIdType) (w w' : WalletDb) : Prop where
  accounts : w'.accounts = w.accounts.erase e.walletEntryIndex
  keys : Without (fun a => ∃ key ∈ currentKeys e.data, c.address key = a) w.keys w'.keys
  transactions : Without (· ∈ order) w.transactions w'.transactions
  contracts : Without (· = e.data.ownerAddress c) w.contractsOfWallet w'.contractsOfWallet
  ids : Without (fun id => ∃ k ∈ (w.contractsOfWallet.lookup (e.data.ownerAddress c)).getD [],
    k.data.id = id) w.idToEntryForContract w'.idToEntryForContract
  entrys : Without (fun i => e.walletEntryIndex = i ∨
    (∃ k ∈ (w.contractsOfWallet.lookup (e.data.ownerAddress c)).getD [], k.walletEntryIndex = i) ∨
    (∃ a k, (∃ key ∈ currentKeys e.data, c.address key = a) ∧ w.keys.lookup a = some k ∧
      k.walletEntryIndex = i) ∨
    ∃ id t, id ∈ order ∧ w.transactions.lookup id = some t ∧ t.walletEntryIndex = i) w.entrys w'.entrys

theorem removeContracts_returns {owner : Address} (h : removeContracts owner w = .ok () w') :
    ∃ w₁, ContractsErased ((w.contractsOfWallet.lookup owner).getD []) w w₁ ∧
      w' = { w₁ with contractsOfWallet := w₁.contractsOfWallet.erase owner } := by
  unfold removeContracts at h
  rw [get_bind] at h
  obtain ⟨_, w₁, hcontracts, h⟩ := bind_returns.1 h
  refine ⟨w₁, contractsErased _ w hcontracts, ?_⟩
  injection h with _ h
  exact h.symm

theorem removeAccount_erases {order : List TransactionIdType} {accountName : Str} {e : WalletAccountEntry}
    (hopen : w.isOpen = true) (he : w.accountNamed accountName = some e)
    (h : removeAccount c order accountName w = .ok () w') : AccountErased c e order w w' := by
  unfold removeAccount lookupAccountName at h
  rw [bind_of_ok (lookupOpen_run hopen), he] at h
  simp only [modify_bind] at h
  obtain ⟨_, w₂, hcontracts, h⟩ := bind_returns.1 h
  obtain ⟨w₁, herased, rfl⟩ := removeContracts_returns hcontracts
  simp only [modify_bind] at h
  obtain ⟨_, w₃, haccount, h⟩ := bind_returns.1 h
  obtain rfl := remove_returns haccount
  obtain ⟨_, w₄, hderived, h⟩ := bind_returns.1 h
  rw [forgetDerived_run] at hderived
  injection hderived with _ hderived
  obtain ⟨_, w₅, hfound, h⟩ := bind_returns.1 h
  have hopen₄ : w₄.isOpen = true := by
    rw [← hderived, forgetAllDerived_eq, herased.frame]
    exact hopen
  have hnone : ∀ key ∈ currentKeys e.data, w₄.keyAt (c.address key) = none := by
    intro key hkey
    rw [← hderived]
    exact keyAt_forgetAllDerived hkey
  rw [removeFoundKeys_run hopen₄ _ hnone] at hfound
  injection hfound with _ hfound
  obtain ⟨_, w₆, hkeys, htransactions⟩ := bind_returns.1 h
  have hlast : Erased (fun a => ∃ key ∈ currentKeys e.data, c.address key = a) (· ∈ order) w₄ w' := by
    rw [hfound]
    exact ((Erased.forM (removeKey_erases (c := c)) _ _ hkeys).trans
      (Erased.forM removeTransactionAt_erases _ _ htransactions)).congr (by simp) (by simp)
  rw [← hderived, forgetAllDerived_eq] at hlast
  have hsame : w₁.keys = w.keys ∧ w₁.transactions = w.transactions ∧
      w₁.contractsOfWallet = w.contractsOfWallet := by
    rw [herased.frame]
    exact ⟨rfl, rfl, rfl⟩
  refine ⟨?_, ?_, ?_, ?_, ?_, ?_⟩
  · rw [hlast.frame]
    change w₁.accounts = _
    rw [herased.frame]
    rfl
  · rw [← hsame.1]
    exact hlast.keys
  · rw [← hsame.2.1]
    exact hlast.transactions
  · rw [hlast.frame, ← hsame.2.2]
    exact .erase
  · rw [hlast.frame]
    exact herased.ids
  · have hentrys := (herased.entrys.trans Without.erase).trans hlast.entrys
    refine hentrys.congr fun i => ?_
    simp only [nextWrite, hsame.1, hsame.2.1]
    rw [or_comm (b := i = _), or_assoc, eq_comm]
    rfl

end WalletDb

/-! ## Keys and entries that are told apart -/

section Separate

variable {w : AccountsWallet c} {e : WalletAccountEntry} {order : List TransactionIdType} {w' : WalletDb}
  {i : Int}

theorem KeyHistory.last_mem (h : KeyHistory) : h.last ∈ h.keys :=
  List.mem_map.2 ⟨_, List.getLast_mem h.ne_nil, rfl⟩

theorem mem_allKeys_of_current {a : AccountData} {key : PublicKeyType} (h : key ∈ WalletDb.currentKeys a) :
    key ∈ a.allKeys := by
  unfold WalletDb.currentKeys at h
  rw [AccountData.allKeys, List.mem_cons, List.mem_append]
  rw [List.mem_cons, List.mem_cons, Option.mem_toList] at h
  obtain rfl | rfl | h := h
  · exact .inl rfl
  · exact .inr (.inl (KeyHistory.last_mem _))
  · obtain ⟨d, hd, rfl⟩ := Option.map_eq_some_iff.1 h
    refine .inr (.inr ?_)
    rw [AccountData.signingKeys, hd]
    exact KeyHistory.last_mem _

theorem mem_heldKeys {a : AccountData} {key : PublicKeyType} :
    key ∈ a.heldKeys ↔ key ∈ a.allKeys ∧ key ≠ 0 := by
  simp [AccountData.heldKeys]

theorem AccountsWallet.mem_contracts {key : PublicKeyType} {k : WalletContractEntry} :
    k ∈ (w.db.contractsOfWallet.lookup (c.address key)).getD [] ↔
      w.db.idToEntryForContract.lookup k.data.id = some k ∧ k.data.owner = key := by
  constructor
  · intro hk
    cases hl : w.db.contractsOfWallet.lookup (c.address key) with
    | none =>
      rw [hl] at hk
      exact absurd hk List.not_mem_nil
    | some l =>
      rw [hl] at hk
      exact ⟨(w.listed _ l hl k hk).2, c.address_injective (w.listed _ l hl k hk).1⟩
  · rintro ⟨hid, rfl⟩
    obtain ⟨-, -, l, hl, hk⟩ := w.contract _ k hid
    rw [hl]
    exact hk

/-- The entries that go with an account. -/
def GoesWith (e : WalletAccountEntry) (order : List TransactionIdType) (w : WalletDb) :
    GenericWalletEntry → Prop
  | .account a => a = e
  | .contract k => k.data.owner = e.data.ownerKey
  | .key k => k.data.publicKey ∈ WalletDb.currentKeys e.data
  | .transaction t => ∃ id ∈ order, w.transactions.lookup id = some t
  | _ => False

namespace WalletDb.AccountErased

theorem stored_iff (h : AccountErased c e order w.db w')
    (he : w.db.accounts.lookup e.walletEntryIndex = some e) {g : GenericWalletEntry} :
    w'.entrys.lookup i = some g ↔ ¬ GoesWith e order w.db g ∧ w.db.entrys.lookup i = some g := by
  rw [h.entrys.lookup_eq_some_iff]
  refine and_congr_left fun hg => not_congr ⟨?_, fun hgoes => ?_⟩
  · rintro (rfl | ⟨k, hk, rfl⟩ | ⟨a, k, ⟨key, hkey, rfl⟩, hk, rfl⟩ | ⟨id, t, hid, ht, rfl⟩)
    · rw [(w.account _ e he).2] at hg
      rw [← Option.some.inj hg]
      rfl
    · obtain ⟨hlookup, howner⟩ := AccountsWallet.mem_contracts.1 hk
      rw [(w.contract _ k hlookup).2.1] at hg
      rw [← Option.some.inj hg]
      exact howner
    · rw [(w.key _ k hk).2] at hg
      rw [← Option.some.inj hg]
      have haddress : k.data.publicKey = key := c.address_injective (w.key _ k hk).1
      change k.data.publicKey ∈ _
      rwa [haddress]
    · rw [w.transaction id t ht] at hg
      rw [← Option.some.inj hg]
      exact ⟨id, hid, ht⟩
  · have hindex := w.index i g hg
    cases g with
    | account a =>
      obtain rfl : a = e := hgoes
      exact .inl hindex
    | contract k => exact .inr (.inl ⟨k, AccountsWallet.mem_contracts.2 ⟨w.storedContract i k hg, hgoes⟩, hindex⟩)
    | key k => exact .inr (.inr (.inl ⟨_, k, ⟨_, hgoes, rfl⟩, w.storedKey i k hg, hindex⟩))
    | transaction t =>
      obtain ⟨id, hid, ht⟩ := hgoes
      exact .inr (.inr (.inr ⟨id, t, hid, ht, hindex⟩))
    | _ => exact hgoes.elim

variable (h : AccountErased c e order w.db w') (he : w.db.accounts.lookup e.walletEntryIndex = some e)
include h he

theorem gone (hkeys : ∀ key ∈ e.data.heldKeys, key ∉ currentKeys e.data →
    w.db.keys.lookup (c.address key) = none) : Gone c e w' where
  account := by
    refine ⟨?_, fun i hi => ((h.stored_iff he).1 hi).1 rfl⟩
    rw [h.accounts]
    exact Finmap.lookup_erase _ _
  keys key hkey := by
    by_cases hcurrent : key ∈ currentKeys e.data
    · refine ⟨(h.keys _).1 ⟨key, hcurrent, rfl⟩, fun i k hk hpublic => ((h.stored_iff he).1 hk).1 ?_⟩
      change k.data.publicKey ∈ _
      rwa [hpublic]
    · have hnone := hkeys key hkey hcurrent
      refine ⟨?_, fun i k hk hpublic => ?_⟩
      · by_contra hsome
        obtain ⟨k, hk⟩ := Option.ne_none_iff_exists'.1 hsome
        rw [(h.keys.lookup_eq_some_iff.1 hk).2] at hnone
        exact (nomatch hnone)
      · have hk' := w.storedKey i k ((h.stored_iff he).1 hk).2
        rw [KeyData.getAddress, hpublic, hnone] at hk'
        exact (nomatch hk')
  contracts := by
    refine ⟨(h.contracts _).1 rfl, fun id k hk howner => ?_, fun i k hk howner => ?_⟩
    · obtain ⟨hkept, hlookup⟩ := h.ids.lookup_eq_some_iff.1 hk
      obtain rfl := (w.contract id k hlookup).1
      exact hkept ⟨k, AccountsWallet.mem_contracts.2 ⟨hlookup, howner⟩, rfl⟩
    · exact ((h.stored_iff he).1 hk).1 howner

theorem kept {i : Int} {a : WalletAccountEntry} (ha : w.db.accounts.lookup i = some a)
    (hi : i ≠ e.walletEntryIndex) : Kept c w.db a w' := by
  obtain ⟨howner, hstored⟩ := w.account i a ha
  obtain rfl : a.walletEntryIndex = i := w.index i _ hstored
  have hseparate := w.separate _ _ a e ha he hi
  have hother : a.data.ownerKey ≠ e.data.ownerKey := by
    intro hsame
    have hheld := hseparate a.data.ownerKey (mem_heldKeys.2 ⟨List.mem_cons_self .., howner⟩)
    exact hheld (mem_heldKeys.2 ⟨hsame ▸ List.mem_cons_self .., howner⟩)
  refine ⟨⟨?_, ?_⟩, fun key hkey k hk => ?_, ?_, fun id k hk hkowner => ?_⟩
  · rw [h.accounts, Finmap.lookup_erase_ne hi]
    exact ha
  · refine (h.stored_iff he).2 ⟨fun hae => hi ?_, hstored⟩
    rw [show a = e from hae]
  · have hnot : key ∉ currentKeys e.data := fun hcurrent =>
      hseparate key hkey (mem_heldKeys.2 ⟨mem_allKeys_of_current hcurrent, (mem_heldKeys.1 hkey).2⟩)
    obtain ⟨haddress, hkstored⟩ := w.key _ k hk
    refine ⟨h.keys.lookup_eq_some_iff.2 ⟨?_, hk⟩, (h.stored_iff he).2 ⟨?_, hkstored⟩⟩
    · rintro ⟨key', hkey', hsame⟩
      exact hnot (c.address_injective hsame ▸ hkey')
    · intro hgoes
      exact hnot (c.address_injective haddress ▸ hgoes)
  · exact (h.contracts _).2 fun hsame => hother (c.address_injective hsame)
  · obtain ⟨rfl, hkstored, -⟩ := w.contract id k hk
    refine ⟨h.ids.lookup_eq_some_iff.2 ⟨?_, hk⟩, (h.stored_iff he).2 ⟨?_, hkstored⟩⟩
    · rintro ⟨k', hk', hid⟩
      obtain ⟨hlookup, howner'⟩ := AccountsWallet.mem_contracts.1 hk'
      rw [hid, hk, Option.some.injEq] at hlookup
      exact hother (hkowner ▸ hlookup ▸ howner')
    · exact fun hgoes => hother (hkowner ▸ hgoes)

end WalletDb.AccountErased

end Separate

/-! ## The removal -/

theorem WalletDb.removeAccount_missing {w : WalletDb} {order : List TransactionIdType} {accountName : Str}
    (hopen : w.isOpen = true) (he : w.accountNamed accountName = none) :
    removeAccount c order accountName w = .ok () w := by
  unfold removeAccount lookupAccountName
  rw [bind_of_ok (lookupOpen_run hopen), he]
  rfl

/-- A removal that returns touches one account exactly where the wallet has nothing of the account but its
current keys and no transaction that it takes no part in. -/
theorem removeAccount_touches_one_iff (w : AccountsWallet c) {order : List TransactionIdType}
    (horder : ∀ id, id ∈ order ↔ id ∈ w.db.transactions) {accountName : Str} {w' : WalletDb}
    (h : WalletDb.removeAccount c order accountName w.db = .ok () w') :
    TouchesOneAccount c w.db accountName w' ↔ OnlyCurrent c w.db accountName := by
  unfold TouchesOneAccount OnlyCurrent
  cases he : w.db.accountNamed accountName with
  | none =>
    rw [WalletDb.removeAccount_missing w.isOpen he] at h
    injection h with _ h
    exact iff_of_true h.symm fun e he => (nomatch he)
  | some e =>
    have herased := WalletDb.removeAccount_erases w.isOpen he h
    obtain ⟨i, -, hlookup⟩ := Option.bind_eq_some_iff.1 he
    obtain rfl : e.walletEntryIndex = i := w.index i _ (w.account i e hlookup).2
    constructor
    · rintro hone e' he'
      obtain rfl := Option.some.inj he'
      refine ⟨fun key hkey hcurrent => ?_, fun id t ht => ?_⟩
      · rw [← (herased.keys _).2, (hone.gone.keys key hkey).1]
        rintro ⟨key', hkey', hsame⟩
        exact hcurrent (c.address_injective hsame ▸ hkey')
      · by_contra hinvolved
        have hkept := (hone.transactions id t ht hinvolved).1
        rw [(herased.transactions id).1 ((horder id).2 (Finmap.mem_of_lookup_eq_some ht))] at hkept
        exact (nomatch hkept)
    · intro honly
      obtain ⟨hkeys, hinvolved⟩ := honly e rfl
      refine ⟨herased.gone hlookup hkeys, fun i a ha hi => herased.kept hlookup ha hi, ?_⟩
      exact fun id t ht hnot => absurd (hinvolved id t ht) hnot

/-! ## A removal that returns -/

section Quiet

/-- The wallet is open and its file takes all writes. -/
def Quiet (w : WalletDb) : Prop := w.isOpen = true ∧ ∀ n, w.refused n = false

theorem write_quiet (f : Tab Int GenericWalletEntry → Tab Int GenericWalletEntry) :
    Ends (fun _ => False) Quiet Quiet (WalletDb.write f) := by
  intro w hw
  rw [WalletDb.write_run (WalletDb.entrysOpen_of_isOpen hw.1) (hw.2 0)]
  exact ⟨hw.1, fun n => hw.2 (n + 1)⟩

theorem lookup_quiet {α : Type} (f : WalletDb → α) :
    Ends (fun _ => False) Quiet Quiet (WalletDb.lookupOpen f) := by
  intro w hw
  rw [WalletDb.lookupOpen_run hw.1]
  exact hw

theorem removeContracts_quiet (owner : Address) :
    Ends (fun _ => False) Quiet Quiet (WalletDb.removeContracts owner) := by
  refine Ends.bind Ends.get fun w => Ends.bind (Ends.forM (fun e => ?_) _) fun _ => ?_
  · exact Ends.bind (Ends.modify fun _ hw => hw) fun _ => write_quiet _
  · exact Ends.modify fun _ hw => hw

theorem removeFoundKey_quiet (key : PublicKeyType) :
    Ends (fun _ => False) Quiet Quiet (WalletDb.removeFoundKey c key) := by
  refine Ends.bind (lookup_quiet _) fun e => ?_
  cases e with
  | none => exact Ends.pure ()
  | some e => exact write_quiet _

theorem removeKey_quiet (key : PublicKeyType) :
    Ends (fun _ => False) Quiet Quiet (WalletDb.removeKey c key) := by
  refine Ends.bind Ends.get fun w => ?_
  cases w.keys.lookup (c.address key) with
  | none => exact Ends.pure ()
  | some e => exact Ends.bind (write_quiet _) fun _ => Ends.modify fun _ hw => hw

theorem removeTransactionAt_quiet (id : TransactionIdType) :
    Ends (fun _ => False) Quiet Quiet (WalletDb.removeTransactionAt id) := by
  refine Ends.bind Ends.get fun w => ?_
  cases w.transactions.lookup id with
  | none => exact Ends.pure ()
  | some e => exact Ends.bind (write_quiet _) fun _ => Ends.modify fun _ hw => hw

/-- Where no write is refused, the removal returns. -/
theorem removeAccount_quiet (order : List TransactionIdType) (accountName : Str) :
    Ends (fun _ => False) Quiet Quiet (WalletDb.removeAccount c order accountName) := by
  refine Ends.bind (lookup_quiet _) fun e => ?_
  cases e with
  | none => exact Ends.pure ()
  | some e =>
    refine Ends.bind (J := Quiet) (Ends.modify fun _ hw => hw) fun _ => ?_
    refine Ends.bind (removeContracts_quiet _) fun _ => ?_
    refine Ends.bind (J := Quiet) (Ends.modify fun _ hw => hw) fun _ => ?_
    refine Ends.bind (write_quiet _) fun _ => ?_
    refine Ends.bind (Ends.forM (f := fun key => modify (WalletDb.forgetDerived c key)) (I := Quiet)
      (fun _ => Ends.modify fun _ hw => hw) _) fun _ => ?_
    refine Ends.bind (Ends.forM removeFoundKey_quiet _) fun _ => ?_
    exact Ends.bind (Ends.forM removeKey_quiet _) fun _ => Ends.forM removeTransactionAt_quiet _

theorem removeAccount_returns {w : WalletDb} (hw : Quiet w) (order : List TransactionIdType)
    (accountName : Str) : ∃ w', WalletDb.removeAccount c order accountName w = .ok () w' := by
  have hends := removeAccount_quiet (c := c) order accountName w hw
  cases hrun : WalletDb.removeAccount c order accountName w with
  | ok _ w' => exact ⟨w', rfl⟩
  | error e w' =>
    rw [hrun] at hends
    exact hends.elim

end Quiet

/-! ## A wallet with two accounts -/

section TwoAccounts

/-- An account with its key. -/
def pairAccount (index : Int) (name : Str) (key : PublicKeyType) : WalletAccountEntry where
  walletEntryIndex := index
  data :=
    { id := 0, name := name, publicData := 0, ownerKey := key, activeKeyHistory := .single 1 key
      registrationDate := 0, lastUpdate := 0, delegateInfo := none, metaData := none
      isMyAccount := false, approved := 0, isFavorite := false, blockProductionEnabled := false
      lastUsedGenSequence := 0, privateData := 0 }

def pairKey (index : Int) (key : PublicKeyType) : WalletKeyEntry where
  walletEntryIndex := index
  data := ⟨2 * key, key, [], false, none, 0⟩

/-- A transaction sent by the key 2. -/
def pairTransaction : WalletTransactionEntry where
  walletEntryIndex := 6
  data :=
    { entryId := 5, blockNum := 0, isVirtual := false, isConfirmed := false, isMarket := false
      trx := .empty, ledgerEntries := [⟨some 2, none, none, none, 0, [], none⟩], fee := 0
      createdTime := 0, receivedTime := 0, extraAddresses := [] }

/-- The accounts `x` with the key 1 and `y` with the key 2. -/
def pairWallet : WalletDb :=
  { emptyWallet with
    entrys := (((((∅ : Tab Int GenericWalletEntry).insert 6 (.transaction pairTransaction)).insert 5
      (.key (pairKey 5 2))).insert 4 (.key (pairKey 4 1))).insert 3 (.account (pairAccount 3 ['y'] 2))).insert
        2 (.account (pairAccount 2 ['x'] 1))
    walletMasterKey := some ⟨-1, .sealed Crypto.plain 1 7⟩
    accounts := ((∅ : Tab Int WalletAccountEntry).insert 3 (pairAccount 3 ['y'] 2)).insert 2
      (pairAccount 2 ['x'] 1)
    keys := ((∅ : Tab Address WalletKeyEntry).insert 4 (pairKey 5 2)).insert 2 (pairKey 4 1)
    transactions := (∅ : Tab TransactionIdType WalletTransactionEntry).insert 5 pairTransaction
    nameToAccountWalletEntryIndex := ((∅ : Tab Str Int).insert ['y'] 3).insert ['x'] 2 }

theorem lookup_insert_ite {K V : Type} [DecidableEq K] (t : Tab K V) (k k' : K) (v : V) :
    (t.insert k v).lookup k' = if k' = k then some v else t.lookup k' := by
  split_ifs with h
  · rw [h, Finmap.lookup_insert]
  · exact Finmap.lookup_insert_of_ne _ h

theorem entrys_pair (i : Int) : pairWallet.entrys.lookup i =
    if i = 2 then some (.account (pairAccount 2 ['x'] 1))
    else if i = 3 then some (.account (pairAccount 3 ['y'] 2))
    else if i = 4 then some (.key (pairKey 4 1))
    else if i = 5 then some (.key (pairKey 5 2))
    else if i = 6 then some (.transaction pairTransaction) else none := by
  simp only [pairWallet, lookup_insert_ite, Finmap.lookup_empty]

theorem accounts_pair (i : Int) : pairWallet.accounts.lookup i =
    if i = 2 then some (pairAccount 2 ['x'] 1) else if i = 3 then some (pairAccount 3 ['y'] 2)
    else none := by
  simp only [pairWallet, lookup_insert_ite, Finmap.lookup_empty]

theorem keys_pair (a : Address) : pairWallet.keys.lookup a =
    if a = 2 then some (pairKey 4 1) else if a = 4 then some (pairKey 5 2) else none := by
  simp only [pairWallet, lookup_insert_ite, Finmap.lookup_empty]

theorem transactions_pair (id : TransactionIdType) : pairWallet.transactions.lookup id =
    if id = 5 then some pairTransaction else none := by
  simp only [pairWallet, lookup_insert_ite, Finmap.lookup_empty]

/-- The wallet's maps are those of its file. -/
def twoAccounts : AccountsWallet Crypto.plain where
  db := pairWallet
  isOpen := rfl
  index i g hg := by
    rw [entrys_pair] at hg
    split_ifs at hg with h₁ h₂ h₃ h₄ h₅ <;> cases hg
    exacts [h₁.symm, h₂.symm, h₃.symm, h₄.symm, h₅.symm]
  account i e he := by
    rw [accounts_pair] at he
    split_ifs at he with h₁ h₂ <;> cases he
    · exact ⟨by decide, by rw [h₁]; exact entrys_pair 2⟩
    · exact ⟨by decide, by rw [h₂]; exact entrys_pair 3⟩
  storedAccount i e he := by
    rw [entrys_pair] at he
    rw [accounts_pair]
    split_ifs at he ⊢ <;> cases he <;> rfl
  key a e he := by
    rw [keys_pair] at he
    split_ifs at he with h₁ h₂ <;> cases he
    · exact ⟨h₁.symm, entrys_pair 4⟩
    · exact ⟨h₂.symm, entrys_pair 5⟩
  storedKey i e he := by
    rw [entrys_pair] at he
    split_ifs at he <;> cases he
    · exact keys_pair 2
    · exact keys_pair 4
  transaction id e he := by
    rw [transactions_pair] at he
    split_ifs at he
    cases he
    exact entrys_pair 6
  contract id e he := (nomatch he)
  listed a l hl := (nomatch hl)
  storedContract i e he := by
    rw [entrys_pair] at he
    split_ifs at he <;> cases he
  separate i j a b ha hb hij := by
    rw [accounts_pair] at ha hb
    split_ifs at ha hb <;> cases ha <;> cases hb
    · omega
    · decide
    · decide
    · omega

theorem heldKeys_pair (index : Int) (name : Str) : (pairAccount index name 1).data.heldKeys = [1, 1] ∧
    (pairAccount index name 2).data.heldKeys = [2, 2] := ⟨rfl, rfl⟩

theorem order_pair (id : TransactionIdType) : id ∈ [5] ↔ id ∈ pairWallet.transactions := by
  rw [List.mem_singleton, ← Finmap.lookup_isSome, transactions_pair]
  by_cases h : id = 5 <;> simp [h]

/-- The transaction of `y` goes with the account `x`. -/
theorem removes_foreign_transaction : ¬ ∀ (w : AccountsWallet Crypto.plain) (order : List TransactionIdType)
    (accountName : Str) (w' : WalletDb), (∀ id, id ∈ order ↔ id ∈ w.db.transactions) →
      WalletDb.removeAccount Crypto.plain order accountName w.db = .ok () w' →
        TouchesOneAccount Crypto.plain w.db accountName w' := by
  intro hall
  obtain ⟨w', hrun⟩ := removeAccount_returns (c := Crypto.plain) (w := pairWallet) ⟨rfl, fun _ => rfl⟩ [5] ['x']
  have htouches := hall twoAccounts [5] ['x'] w' order_pair hrun
  have he : pairWallet.accountNamed ['x'] = some (pairAccount 2 ['x'] 1) := rfl
  rw [TouchesOneAccount, show twoAccounts.db = pairWallet from rfl, he] at htouches
  have hforeign : ¬Involves (pairAccount 2 ['x'] 1).data pairTransaction.data := by
    rintro ⟨l, hl, key, hkey, hparty⟩
    rw [(heldKeys_pair 2 ['x']).1] at hkey
    obtain rfl : key = 1 := by simpa using hkey
    rw [List.mem_singleton.1 hl] at hparty
    exact absurd hparty (by decide)
  have hkept := (htouches.transactions 5 pairTransaction (transactions_pair 5) hforeign).1
  have herased := WalletDb.removeAccount_erases (c := Crypto.plain) twoAccounts.isOpen he hrun
  rw [(herased.transactions 5).1 (List.mem_singleton_self 5)] at hkept
  exact (nomatch hkept)

/-- The account `y` goes with its key and its transaction, and `x` stays. -/
theorem removeAccount_touches_one_pair : ∃ w',
    WalletDb.removeAccount Crypto.plain [5] ['y'] twoAccounts.db = .ok () w' ∧
      OneGone Crypto.plain twoAccounts.db (pairAccount 3 ['y'] 2) w' := by
  obtain ⟨w', hrun⟩ := removeAccount_returns (c := Crypto.plain) (w := pairWallet) ⟨rfl, fun _ => rfl⟩ [5] ['y']
  refine ⟨w', hrun, (removeAccount_touches_one_iff twoAccounts order_pair hrun).2 fun e he => ?_⟩
  obtain rfl : pairAccount 3 ['y'] 2 = e := Option.some.inj he
  refine ⟨fun key hkey hearlier => ?_, fun id t ht => ?_⟩
  · rw [(heldKeys_pair 3 ['y']).2] at hkey
    obtain rfl : key = 2 := by simpa using hkey
    exact absurd (by decide) hearlier
  · rw [show twoAccounts.db = pairWallet from rfl, transactions_pair] at ht
    split_ifs at ht
    cases ht
    exact ⟨_, List.mem_singleton_self _, 2, by rw [(heldKeys_pair 3 ['y']).2]; decide, .inl rfl⟩

end TwoAccounts

end Achain.Wallets
