import Achain.GenerateBlock

/-!
# What a stored entry changes

Each store of a ledger changes the table of its entry and the indexes of that table and leaves the
others as they are. The lookups of the tables the supply depends on are spelled out.
-/

namespace Achain

open Table Result

variable {P : Primitives} {l l' : Ledger}

/-- The ledgers agree but for the account indexes. -/
def SameButAccountIndexes (l l' : Ledger) : Prop :=
  l' = { l with
    accountNameToId := l'.accountNameToId
    accountAddressToId := l'.accountAddressToId }

namespace SameButAccountIndexes

theorem refl (l : Ledger) : SameButAccountIndexes l l := rfl

theorem trans {l₁ l₂ l₃ : Ledger} (h₁ : SameButAccountIndexes l₁ l₂)
    (h₂ : SameButAccountIndexes l₂ l₃) : SameButAccountIndexes l₁ l₃ := by
  unfold SameButAccountIndexes at *
  rw [h₁] at h₂
  exact h₂

theorem ite {c : Prop} [Decidable c] {l a b : Ledger} (ha : SameButAccountIndexes l a)
    (hb : SameButAccountIndexes l b) : SameButAccountIndexes l (if c then a else b) := by
  split_ifs
  · exact ha
  · exact hb

theorem foldl {α : Type} {f : Ledger → α → Ledger} (h : ∀ l a, SameButAccountIndexes l (f l a)) :
    ∀ (as : List α) (l : Ledger), SameButAccountIndexes l (as.foldl f l)
  | [], l => refl l
  | a :: as, l => (h l a).trans (foldl h as (f l a))

theorem eraseKeyAddresses (keys : List PublicKeyType) (l : Ledger) :
    SameButAccountIndexes l (Achain.eraseKeyAddresses P l keys) := by
  refine foldl (fun l key => ?_) keys l
  rfl

theorem insertKeyAddresses (keys : List PublicKeyType) (id : AccountIdType) (l : Ledger) :
    SameButAccountIndexes l (Achain.insertKeyAddresses P l keys id) := by
  refine foldl (fun l key => ?_) keys l
  exact ite rfl rfl

theorem storeErase (prev entry : AccountEntry) (l : Ledger) :
    SameButAccountIndexes l (AccountEntry.storeErase P l prev entry) := by
  have h₁ : ∀ l : Ledger, SameButAccountIndexes l
      (if prev.name ≠ entry.name then AccountDbInterface.accountEraseFromNameMap l prev.name
        else l) := fun l => ite rfl rfl
  have h₂ : ∀ l : Ledger, SameButAccountIndexes l
      (if P.address prev.ownerKey ≠ P.address entry.ownerKey then
        AccountDbInterface.accountEraseFromAddressMap l (P.address prev.ownerKey) else l) :=
    fun l => ite rfl rfl
  have h₃ : ∀ l : Ledger, SameButAccountIndexes l
      (if prev.activeKey ≠ entry.activeKey then
        Achain.eraseKeyAddresses P l prev.activeKeyHistory.keys else l) :=
    fun l => ite (eraseKeyAddresses _ _) rfl
  unfold AccountEntry.storeErase
  refine ((h₁ l).trans ((h₂ _).trans (h₃ _))).trans ?_
  cases prev.delegateInfo with
  | none => exact refl _
  | some d =>
    cases entry.delegateInfo with
    | none => exact (eraseKeyAddresses _ _).trans (ite rfl rfl)
    | some e => exact (ite (eraseKeyAddresses _ _) (refl _)).trans (ite rfl rfl)

theorem storeInsert (id : AccountIdType) (entry : AccountEntry) (l : Ledger) :
    SameButAccountIndexes { l with account := l.account.insert id entry }
      (AccountEntry.storeInsert P l id entry) := by
  unfold AccountEntry.storeInsert
  have h : ∀ l : Ledger, SameButAccountIndexes l
      (Achain.insertKeyAddresses P
        (AccountDbInterface.accountInsertIntoAddressMap
          (AccountDbInterface.accountInsertIntoNameMap l entry.name id)
          (P.address entry.ownerKey) id) entry.activeKeyHistory.keys id) := by
    intro l
    refine trans ?_ (insertKeyAddresses _ _ _)
    rfl
  cases entry.delegateInfo with
  | none => exact h _
  | some d => exact (h _).trans ((insertKeyAddresses _ _ _).trans (ite rfl rfl))

end SameButAccountIndexes

/-- What storing an account changes besides the indexes of the accounts. -/
theorem AccountEntry.store_ledger (id : AccountIdType) (e : AccountEntry) :
    SameButAccountIndexes { l with account := l.account.insert id e }
      (AccountEntry.store P l id e) := by
  unfold AccountEntry.store
  refine SameButAccountIndexes.trans ?_ (SameButAccountIndexes.storeInsert id e _)
  have h : ∀ l' : Ledger, SameButAccountIndexes l l' → SameButAccountIndexes
      { l with account := l.account.insert id e } { l' with account := l'.account.insert id e } := by
    intro l' h
    rw [h]
    rfl
  apply h
  cases AccountDbInterface.accountLookupById l id with
  | none => exact .refl _
  | some prev => exact .storeErase prev e l

namespace Ledger

theorem storeAccount_eq (e : AccountEntry) :
    l.storeAccount P e = { l with
      account := l.account.insert e.id e
      accountNameToId := (l.storeAccount P e).accountNameToId
      accountAddressToId := (l.storeAccount P e).accountAddressToId } :=
  AccountEntry.store_ledger e.id e

theorem storeAsset_eq (e : AssetEntry) :
    l.storeAsset e = { l with
      asset := l.asset.insert e.id e
      assetSymbolToId := (l.storeAsset e).assetSymbolToId } := by
  unfold storeAsset AssetEntry.store
  cases AssetDbInterface.assetLookupById l e.id with
  | none => rfl
  | some prev =>
    by_cases h : prev.symbol ≠ e.symbol
    · simp only [if_pos h]
      rfl
    · simp only [if_neg h]
      rfl

theorem storeContract_eq (e : ContractEntry) :
    l.storeContract e = { l with
      contract := l.contract.insert e.id e
      contractNameToId := (l.storeContract e).contractNameToId } := by
  unfold storeContract ContractEntry.store
  split_ifs <;> rfl

theorem removeContract_eq (id : ContractIdType) :
    ContractEntry.remove l id = l ∨
      ContractEntry.remove l id = { l with contract := l.contract.erase id } := by
  unfold ContractEntry.remove
  cases ContractDbInterface.contractLookupById l id with
  | none => exact .inl rfl
  | some _ => exact .inr rfl

theorem storeSlot_eq (e : SlotEntry) :
    l.storeSlot e = { l with
      slot := (l.storeSlot e).slot
      slotTimestampToDelegate := (l.storeSlot e).slotTimestampToDelegate } := by
  unfold storeSlot SlotEntry.store
  by_cases hs : (!SlotDbInterface.statisticsEnabled l) = true
  · simp only [if_pos hs]
  · simp only [if_neg hs]
    cases SlotDbInterface.slotLookupByIndex l e.index with
    | none => rfl
    | some prev =>
      by_cases h : prev.index.timestamp ≠ e.index.timestamp
      · simp only [if_pos h]
        rfl
      · simp only [if_neg h]
        rfl

/-! ## Fields after a store -/

@[simp] theorem storeAccount_prev (e : AccountEntry) :
    (l.storeAccount P e).prev = l.prev := by rw [storeAccount_eq]

@[simp] theorem storeAccount_balance (e : AccountEntry) :
    (l.storeAccount P e).balance = l.balance := by rw [storeAccount_eq]

@[simp] theorem storeAccount_account (e : AccountEntry) :
    (l.storeAccount P e).account = l.account.insert e.id e := by rw [storeAccount_eq]

@[simp] theorem storeAccount_asset (e : AccountEntry) :
    (l.storeAccount P e).asset = l.asset := by rw [storeAccount_eq]

@[simp] theorem storeAccount_contract (e : AccountEntry) :
    (l.storeAccount P e).contract = l.contract := by rw [storeAccount_eq]

@[simp] theorem storeAccount_property (e : AccountEntry) :
    (l.storeAccount P e).property = l.property := by rw [storeAccount_eq]

@[simp] theorem storeAsset_prev (e : AssetEntry) :
    (l.storeAsset e).prev = l.prev := by rw [storeAsset_eq]

@[simp] theorem storeAsset_balance (e : AssetEntry) :
    (l.storeAsset e).balance = l.balance := by rw [storeAsset_eq]

@[simp] theorem storeAsset_account (e : AssetEntry) :
    (l.storeAsset e).account = l.account := by rw [storeAsset_eq]

@[simp] theorem storeAsset_asset (e : AssetEntry) :
    (l.storeAsset e).asset = l.asset.insert e.id e := by rw [storeAsset_eq]

@[simp] theorem storeAsset_contract (e : AssetEntry) :
    (l.storeAsset e).contract = l.contract := by rw [storeAsset_eq]

@[simp] theorem storeAsset_property (e : AssetEntry) :
    (l.storeAsset e).property = l.property := by rw [storeAsset_eq]

@[simp] theorem storeBalance_prev (e : BalanceEntry) : (l.storeBalance P e).prev = l.prev := rfl

@[simp] theorem storeBalance_balance (e : BalanceEntry) :
    (l.storeBalance P e).balance = l.balance.insert (P.balanceId e) e := rfl

@[simp] theorem storeBalance_account (e : BalanceEntry) :
    (l.storeBalance P e).account = l.account := rfl

@[simp] theorem storeBalance_asset (e : BalanceEntry) : (l.storeBalance P e).asset = l.asset := rfl

@[simp] theorem storeBalance_contract (e : BalanceEntry) :
    (l.storeBalance P e).contract = l.contract := rfl

@[simp] theorem storeBalance_property (e : BalanceEntry) :
    (l.storeBalance P e).property = l.property := rfl

@[simp] theorem storeSlate_prev (e : SlateEntry) : (l.storeSlate P e).prev = l.prev := rfl

@[simp] theorem storeSlate_balance (e : SlateEntry) : (l.storeSlate P e).balance = l.balance := rfl

@[simp] theorem storeSlate_account (e : SlateEntry) : (l.storeSlate P e).account = l.account := rfl

@[simp] theorem storeSlate_asset (e : SlateEntry) : (l.storeSlate P e).asset = l.asset := rfl

@[simp] theorem storeSlate_contract (e : SlateEntry) :
    (l.storeSlate P e).contract = l.contract := rfl

@[simp] theorem storeSlate_property (e : SlateEntry) :
    (l.storeSlate P e).property = l.property := rfl

@[simp] theorem storeProperty_prev (id : PropertyIdType) (v : PropertyValue) :
    (l.storeProperty id v).prev = l.prev := rfl

@[simp] theorem storeProperty_balance (id : PropertyIdType) (v : PropertyValue) :
    (l.storeProperty id v).balance = l.balance := rfl

@[simp] theorem storeProperty_account (id : PropertyIdType) (v : PropertyValue) :
    (l.storeProperty id v).account = l.account := rfl

@[simp] theorem storeProperty_asset (id : PropertyIdType) (v : PropertyValue) :
    (l.storeProperty id v).asset = l.asset := rfl

@[simp] theorem storeProperty_contract (id : PropertyIdType) (v : PropertyValue) :
    (l.storeProperty id v).contract = l.contract := rfl

@[simp] theorem storeProperty_property (id : PropertyIdType) (v : PropertyValue) :
    (l.storeProperty id v).property = l.property.insert id v := rfl

@[simp] theorem storeContract_prev (e : ContractEntry) :
    (l.storeContract e).prev = l.prev := by rw [storeContract_eq]

@[simp] theorem storeContract_balance (e : ContractEntry) :
    (l.storeContract e).balance = l.balance := by rw [storeContract_eq]

@[simp] theorem storeContract_account (e : ContractEntry) :
    (l.storeContract e).account = l.account := by rw [storeContract_eq]

@[simp] theorem storeContract_asset (e : ContractEntry) :
    (l.storeContract e).asset = l.asset := by rw [storeContract_eq]

@[simp] theorem storeContract_contract (e : ContractEntry) :
    (l.storeContract e).contract = l.contract.insert e.id e := by rw [storeContract_eq]

@[simp] theorem storeContract_property (e : ContractEntry) :
    (l.storeContract e).property = l.property := by rw [storeContract_eq]

@[simp] theorem storeStorage_prev (e : ContractStorageEntry) :
    (l.storeStorage e).prev = l.prev := rfl

@[simp] theorem storeStorage_balance (e : ContractStorageEntry) :
    (l.storeStorage e).balance = l.balance := rfl

@[simp] theorem storeStorage_account (e : ContractStorageEntry) :
    (l.storeStorage e).account = l.account := rfl

@[simp] theorem storeStorage_asset (e : ContractStorageEntry) :
    (l.storeStorage e).asset = l.asset := rfl

@[simp] theorem storeStorage_contract (e : ContractStorageEntry) :
    (l.storeStorage e).contract = l.contract := rfl

@[simp] theorem storeStorage_property (e : ContractStorageEntry) :
    (l.storeStorage e).property = l.property := rfl

@[simp] theorem storeSlot_prev (e : SlotEntry) :
    (l.storeSlot e).prev = l.prev := by rw [storeSlot_eq]

@[simp] theorem storeSlot_balance (e : SlotEntry) :
    (l.storeSlot e).balance = l.balance := by rw [storeSlot_eq]

@[simp] theorem storeSlot_account (e : SlotEntry) :
    (l.storeSlot e).account = l.account := by rw [storeSlot_eq]

@[simp] theorem storeSlot_asset (e : SlotEntry) :
    (l.storeSlot e).asset = l.asset := by rw [storeSlot_eq]

@[simp] theorem storeSlot_contract (e : SlotEntry) :
    (l.storeSlot e).contract = l.contract := by rw [storeSlot_eq]

@[simp] theorem storeSlot_property (e : SlotEntry) :
    (l.storeSlot e).property = l.property := by rw [storeSlot_eq]

/-! ## Lookups after a store -/

theorem getBalance_storeBalance (e : BalanceEntry) (id : BalanceIdType) :
    (l.storeBalance P e).getBalance id = if id = P.balanceId e then some e else l.getBalance id :=
  Overlay.lookup_insert

theorem getAccount_storeAccount (e : AccountEntry) (id : AccountIdType) :
    (l.storeAccount P e).getAccount id = if id = e.id then some e else l.getAccount id := by
  rw [getAccount, storeAccount_account, storeAccount_prev]
  exact Overlay.lookup_insert

theorem getAsset_storeAsset (e : AssetEntry) (id : AssetIdType) :
    (l.storeAsset e).getAsset id = if id = e.id then some e else l.getAsset id := by
  rw [getAsset, storeAsset_asset, storeAsset_prev]
  exact Overlay.lookup_insert

theorem getProperty_storeProperty (id id' : PropertyIdType) (v : PropertyValue) :
    (l.storeProperty id v).getProperty id' = if id' = id then some v else l.getProperty id' :=
  Overlay.lookup_insert

theorem getContract_storeContract (e : ContractEntry) (id : ContractIdType) :
    (l.storeContract e).getContract id = if id = e.id then some e else l.getContract id := by
  rw [getContract, storeContract_contract, storeContract_prev]
  exact Overlay.lookup_insert

theorem getContract_remove (id id' : ContractIdType) :
    (ContractEntry.remove l id).getContract id' =
      if id' = id then none else l.getContract id' := by
  unfold ContractEntry.remove
  cases h : ContractDbInterface.contractLookupById l id with
  | none =>
    dsimp only
    split_ifs with hid
    · rw [hid]
      exact h
    · rfl
  | some _ => exact Overlay.lookup_erase

end Ledger

end Achain
