import Achain.Proofs.Evaluation
import Mathlib.Logic.Relation

/-!
# The writes of an evaluation

Whatever an evaluation does to the ledger is a sequence of stores of single entries, each under the
key the entry itself gives, and of removals of contracts. So the chain below is never touched and
the tables stay keyed by their entries.
-/

namespace Achain

open Table Result

variable {P : Primitives} {V : Vm} {l l' : Ledger}

/-- One write to a ledger. -/
inductive Write (P : Primitives) (l : Ledger) : Ledger → Prop
  | balance (e : BalanceEntry) : Write P l (l.storeBalance P e)
  | account (e : AccountEntry) : Write P l (l.storeAccount P e)
  | asset (e : AssetEntry) : Write P l (l.storeAsset e)
  | slate (e : SlateEntry) : Write P l (l.storeSlate P e)
  | slot (e : SlotEntry) : Write P l (l.storeSlot e)
  | property (id : PropertyIdType) (v : PropertyValue) : Write P l (l.storeProperty id v)
  | contract (e : ContractEntry) : Write P l (l.storeContract e)
  | removeContract (id : ContractIdType) : Write P l (ContractEntry.remove l id)
  | storage (e : ContractStorageEntry) : Write P l (l.storeStorage e)
  | resultId (req res : TransactionIdType) :
      Write P l (ContractDbInterface.contractStoreResultidByReqestid l req res)
  | requestId (res req : TransactionIdType) :
      Write P l (ContractDbInterface.contractStoreRequestidByResultid l res req)
  | contractId (trx : TransactionIdType) (id : ContractIdType) :
      Write P l (ContractDbInterface.contractStoreContractidByTrxid l trx id)
  | trxId (id : ContractIdType) (trx : TransactionIdType) :
      Write P l (ContractDbInterface.contractStoreTrxidByContractid l id trx)

/-- A sequence of writes. -/
abbrev Writes (P : Primitives) : Ledger → Ledger → Prop := Relation.ReflTransGen (Write P)

namespace Writes

theorem one (h : Write P l l') : Writes P l l' := .single h

/-- What every write keeps is kept by a sequence of them. -/
theorem keeps {C : Ledger → Prop} (hC : ∀ {l l'}, Write P l l' → C l → C l') (h : Writes P l l')
    (hl : C l) : C l' := by
  induction h with
  | refl => exact hl
  | tail _ hw ih => exact hC hw ih

/-- The chain below is only read. -/
theorem prev (h : Writes P l l') : l'.prev = l.prev := by
  refine h.keeps (C := fun l' => l'.prev = l.prev) (fun hw hl => ?_) rfl
  rw [← hl]
  cases hw with
  | removeContract id =>
    rcases Ledger.removeContract_eq (l := _) id with h | h <;> rw [h]
  | resultId _ _ | requestId _ _ | contractId _ _ | trxId _ _ => rfl
  | _ => simp

end Writes

/-! ## Tables keyed by their entries -/

namespace Write

/-- A table entry after a write is under its own key or was there before. -/
theorem getBalance (h : Write P l l') {k : BalanceIdType} {e : BalanceEntry}
    (he : l'.getBalance k = some e) : P.balanceId e = k ∨ l.getBalance k = some e := by
  cases h with
  | balance e' =>
    rw [Ledger.getBalance_storeBalance] at he
    split_ifs at he with hk
    · exact .inl (Option.some.inj he ▸ hk.symm)
    · exact .inr he
  | removeContract id =>
    obtain h | h := Ledger.removeContract_eq (l := l) id <;> rw [h] at he <;> exact .inr he
  | resultId _ _ | requestId _ _ | contractId _ _ | trxId _ _ => exact .inr he
  | _ =>
    right
    simpa [Ledger.getBalance] using he

theorem getAccount (h : Write P l l') {k : AccountIdType} {e : AccountEntry}
    (he : l'.getAccount k = some e) : e.id = k ∨ l.getAccount k = some e := by
  cases h with
  | account e' =>
    rw [Ledger.getAccount_storeAccount] at he
    split_ifs at he with hk
    · exact .inl (Option.some.inj he ▸ hk.symm)
    · exact .inr he
  | removeContract id =>
    obtain h | h := Ledger.removeContract_eq (l := l) id <;> rw [h] at he <;> exact .inr he
  | resultId _ _ | requestId _ _ | contractId _ _ | trxId _ _ => exact .inr he
  | _ =>
    right
    simpa [Ledger.getAccount] using he

theorem getAsset (h : Write P l l') {k : AssetIdType} {e : AssetEntry}
    (he : l'.getAsset k = some e) : e.id = k ∨ l.getAsset k = some e := by
  cases h with
  | asset e' =>
    rw [Ledger.getAsset_storeAsset] at he
    split_ifs at he with hk
    · exact .inl (Option.some.inj he ▸ hk.symm)
    · exact .inr he
  | removeContract id =>
    obtain h | h := Ledger.removeContract_eq (l := l) id <;> rw [h] at he <;> exact .inr he
  | resultId _ _ | requestId _ _ | contractId _ _ | trxId _ _ => exact .inr he
  | _ =>
    right
    simpa [Ledger.getAsset] using he

theorem getContract (h : Write P l l') {k : ContractIdType} {e : ContractEntry}
    (he : l'.getContract k = some e) : e.id = k ∨ l.getContract k = some e := by
  cases h with
  | contract e' =>
    rw [Ledger.getContract_storeContract] at he
    split_ifs at he with hk
    · exact .inl (Option.some.inj he ▸ hk.symm)
    · exact .inr he
  | removeContract id =>
    rw [Ledger.getContract_remove] at he
    split_ifs at he
    exact .inr he
  | resultId _ _ | requestId _ _ | contractId _ _ | trxId _ _ => exact .inr he
  | _ =>
    right
    simpa [Ledger.getContract] using he

end Write

/-- The tables are keyed by the ids of their entries. -/
structure Ledger.WellKeyed (P : Primitives) (l : Ledger) : Prop where
  balance : ∀ {k e}, l.getBalance k = some e → P.balanceId e = k
  account : ∀ {k e}, l.getAccount k = some e → e.id = k
  asset : ∀ {k e}, l.getAsset k = some e → e.id = k
  contract : ∀ {k e}, l.getContract k = some e → e.id = k

theorem Ledger.WellKeyed.write (h : Write P l l') (hl : l.WellKeyed P) : l'.WellKeyed P where
  balance he := (h.getBalance he).elim id hl.balance
  account he := (h.getAccount he).elim id hl.account
  asset he := (h.getAsset he).elim id hl.asset
  contract he := (h.getContract he).elim id hl.contract

theorem Ledger.WellKeyed.writes (h : Writes P l l') (hl : l.WellKeyed P) : l'.WellKeyed P :=
  h.keeps Ledger.WellKeyed.write hl

/-! ## The operations -/

section Leaf

variable {ctx : OpContext} {s s' : OpState}

theorem OriginLedger.writes (h : OriginLedger P l l') : Writes P l l' := by
  cases h with
  | same => exact .refl
  | registered e _ _ => exact (Writes.one (.contract e)).tail (.removeContract e.id)
  | restored op _ => exact .one (.balance _)

/-- The operations on accounts, assets and slates, and those that only leave a message. -/
def Operation.sparesBalances : Operation → Bool
  | .registerAccount _ | .updateAccount _ | .withdrawPay _ | .createAsset _ | .updateAsset _
  | .issueAsset _ | .defineSlate _ | .updateSigningKey _ | .updateBalanceVote _
  | .updateAssetExt _ | .imessageMemo _ | .storage _ | .event _ | .onCallSuccess => true
  | _ => false

/-- The ledgers have the same balances and contracts over the same chain. -/
structure SameBalances (l l' : Ledger) : Prop where
  prev : l'.prev = l.prev
  balance : l'.balance = l.balance
  contract : l'.contract = l.contract

/-- The ledgers have the same assets over the same chain. -/
structure SameAssets (l l' : Ledger) : Prop where
  asset : l'.asset = l.asset
  prev : l'.prev = l.prev

namespace SameAssets

variable {l l₁ l' : Ledger}

theorem refl (l : Ledger) : SameAssets l l := ⟨rfl, rfl⟩

theorem trans (h₁ : SameAssets l l₁) (h₂ : SameAssets l₁ l') : SameAssets l l' :=
  ⟨h₂.asset.trans h₁.asset, h₂.prev.trans h₁.prev⟩

theorem getAsset (h : SameAssets l l') : l'.getAsset = l.getAsset := by
  funext a
  rw [Ledger.getAsset, h.asset, h.prev, Ledger.getAsset]

end SameAssets

/-- The operations other than those on assets. -/
def Operation.sparesAssets : Operation → Bool
  | .createAsset _ | .updateAsset _ | .updateAssetExt _ | .issueAsset _ => false
  | _ => true

/-- The ledgers have the same accounts and properties over the same chain. -/
structure SameAccounts (l l' : Ledger) : Prop where
  prev : l'.prev = l.prev
  account : l'.account = l.account
  property : l'.property = l.property

namespace SameAccounts

variable {l₁ : Ledger}

theorem refl (l : Ledger) : SameAccounts l l := ⟨rfl, rfl, rfl⟩

theorem trans (h : SameAccounts l l₁) (h' : SameAccounts l₁ l') : SameAccounts l l' :=
  ⟨h'.prev.trans h.prev, h'.account.trans h.account, h'.property.trans h.property⟩

end SameAccounts

/-- The operations that write no account and give no id. -/
def Operation.sparesAccounts : Operation → Bool
  | .registerAccount _ | .updateAccount _ | .withdrawPay _ | .createAsset _ => false
  | _ => true

/-- The operations that write no contract, not even for a while. -/
def Operation.sparesContracts : Operation → Bool
  | .registerContract _ | .upgradeContract _ | .destroyContract _ | .callContract _
  | .transferContract _ | .contractInfo _ | .onDestroy _ | .onUpgrade _ => false
  | _ => true

/-- An operation has written, and not to the tables that it spares. -/
structure Operation.Confined (P : Primitives) (op : Operation) (l l' : Ledger) : Prop where
  writes : Writes P l l'
  balance : op.sparesBalances = true → l'.balance = l.balance
  contract : op.sparesContracts = true → l'.contract = l.contract
  asset : op.sparesAssets = true → l'.asset = l.asset
  account : op.sparesAccounts = true → l'.account = l.account
  property : op.sparesAccounts = true → l'.property = l.property

namespace Operation.Confined

variable {op : Operation} {l₁ : Ledger}

theorem refl (op : Operation) (l : Ledger) : op.Confined P l l :=
  ⟨.refl, fun _ => rfl, fun _ => rfl, fun _ => rfl, fun _ => rfl, fun _ => rfl⟩

theorem trans (h : op.Confined P l l₁) (h' : op.Confined P l₁ l') : op.Confined P l l' :=
  ⟨h.writes.trans h'.writes, fun hop => (h'.balance hop).trans (h.balance hop),
    fun hop => (h'.contract hop).trans (h.contract hop), fun hop => (h'.asset hop).trans (h.asset hop),
    fun hop => (h'.account hop).trans (h.account hop),
    fun hop => (h'.property hop).trans (h.property hop)⟩

theorem storeBalance (e : BalanceEntry) (hop : op.sparesBalances = false) :
    op.Confined P l (l.storeBalance P e) := by
  refine ⟨.one (.balance e), ?_, ?_, ?_, ?_, ?_⟩ <;> simp [hop]

theorem storeContract (e : ContractEntry) (hop : op.sparesContracts = false) :
    op.Confined P l (l.storeContract e) := by
  refine ⟨.one (.contract e), ?_, ?_, ?_, ?_, ?_⟩ <;> simp [hop]

theorem storeAccount (e : AccountEntry) (hop : op.sparesAccounts = false) :
    op.Confined P l (l.storeAccount P e) := by
  refine ⟨.one (.account e), ?_, ?_, ?_, ?_, ?_⟩ <;> simp [hop]

theorem storeAsset (e : AssetEntry) (hop : op.sparesAssets = false) :
    op.Confined P l (l.storeAsset e) := by
  refine ⟨.one (.asset e), ?_, ?_, ?_, ?_, ?_⟩ <;> simp [hop]

theorem storeProperty (id : PropertyIdType) (v : PropertyValue) (hop : op.sparesAccounts = false) :
    op.Confined P l (l.storeProperty id v) := by
  refine ⟨.one (.property id v), ?_, ?_, ?_, ?_, ?_⟩ <;> simp [hop]

theorem removeContract (id : ContractIdType) (hop : op.sparesContracts = false) :
    op.Confined P l (ContractEntry.remove l id) := by
  refine ⟨.one (.removeContract id), ?_, ?_, ?_, ?_, ?_⟩ <;>
    rcases Ledger.removeContract_eq (l := l) id with h | h <;> simp [hop, h]

theorem origin (h : OriginLedger P l l') (hbalances : op.sparesBalances = false)
    (hcontracts : op.sparesContracts = false) : op.Confined P l l' := by
  cases h with
  | same => exact .refl _ _
  | registered e _ _ => exact (storeContract e hcontracts).trans (.removeContract _ hcontracts)
  | restored op' _ => exact .storeBalance _ hbalances

end Operation.Confined

/-- An operation that is not a wrapped transaction only writes, and only to some of the tables. -/
theorem Operation.evaluateLeaf_confined {op : Operation} (h : op.evaluateLeaf P V ctx s = .ok s') :
    op.Confined P s.ledger s'.ledger := by
  cases op <;> simp only [evaluateLeaf] at h
  case withdraw op =>
    obtain ⟨_, _, -, -, -, -, hl, -⟩ := WithdrawOperation.evaluate_ok h
    exact hl ▸ .storeBalance _ rfl
  case deposit op =>
    obtain ⟨_, _, -, -, -, hl, -⟩ := DepositOperation.evaluate_ok h
    exact hl ▸ .storeBalance _ rfl
  case registerAccount op =>
    obtain ⟨_, -, -, -, -, hl, -⟩ := RegisterAccountOperation.evaluate_ok h
    exact hl ▸ (Confined.storeProperty _ _ rfl).trans (.storeAccount _ rfl)
  case updateAccount op =>
    obtain ⟨_, _, _, -, -, -, -, hl, -⟩ := UpdateAccountOperation.evaluate_ok h
    exact hl ▸ .storeAccount _ rfl
  case withdrawPay op =>
    obtain ⟨_, _, -, -, -, hl, -⟩ := WithdrawPayOperation.evaluate_ok h
    exact hl ▸ .storeAccount _ rfl
  case createAsset op =>
    obtain ⟨_, _, -, -, -, hl, -⟩ := CreateAssetOperation.evaluate_ok h
    exact hl ▸ (Confined.storeProperty _ _ rfl).trans (.storeAsset _ rfl)
  case updateAsset op =>
    obtain ⟨_, _, -, -, -, -, hl, -⟩ := UpdateAssetOperation.evaluate_ok h
    exact hl ▸ .storeAsset _ rfl
  case updateAssetExt op =>
    obtain ⟨_, _, -, -, -, -, hl, -⟩ := UpdateAssetExtOperation.evaluate_ok h
    exact hl ▸ .storeAsset _ rfl
  case issueAsset op =>
    obtain ⟨_, _, -, -, -, -, -, -, -, -, hl, -⟩ := IssueAssetOperation.evaluate_ok h
    exact hl ▸ .storeAsset _ rfl
  case defineSlate op =>
    obtain rfl | rfl := DefineSlateOperation.evaluate_ok h
    · exact .refl _ _
    · exact ⟨.one (.slate _), fun _ => rfl, fun _ => rfl, fun _ => rfl, fun _ => rfl, fun _ => rfl⟩
  case updateSigningKey op => simp [UpdateSigningKeyOperation.evaluate] at h
  case updateBalanceVote op => exact ok_eq_ok.1 h ▸ .refl _ _
  case onCallSuccess => exact ok_eq_ok.1 h ▸ .refl _ _
  case imessageMemo op => exact (ImessageMemoOperation.evaluate_ok h).1 ▸ .refl _ _
  case event op => exact (EventOperation.evaluate_ok h).1 ▸ .refl _ _
  case storage op =>
    obtain ⟨-, _, rfl⟩ := StorageOperation.evaluate_ok h
    exact ⟨.one (.storage _), fun _ => rfl, fun _ => rfl, fun _ => rfl, fun _ => rfl, fun _ => rfl⟩
  case contractInfo op =>
    obtain ⟨-, -, e, -, -, -, rfl⟩ := ContractInfoOperation.evaluate_ok h
    have hstored : (Operation.contractInfo op).Confined P s.ledger (s.ledger.storeContract e) :=
      .storeContract e rfl
    exact hstored.trans ⟨(Writes.one (.contractId _ _)).tail (.trxId _ _), fun _ => rfl, fun _ => rfl,
      fun _ => rfl, fun _ => rfl, fun _ => rfl⟩
  case registerContract op => exact .origin (RegisterContractOperation.evaluate_ok h).ledger rfl rfl
  case upgradeContract op => exact .origin (UpgradeContractOperation.evaluate_ok h).ledger rfl rfl
  case destroyContract op => exact .origin (DestroyContractOperation.evaluate_ok h).ledger rfl rfl
  case callContract op => exact .origin (CallContractOperation.evaluate_ok h).ledger rfl rfl
  case transferContract op => exact .origin (TransferContractOperation.evaluate_ok h).ledger rfl rfl
  case withdrawContract op =>
    obtain ⟨_, -, -, -, -, -, hl, -⟩ := WithdrawContractOperation.evaluate_ok h
    exact hl ▸ .storeBalance _ rfl
  case depositContract op =>
    obtain ⟨_, _, -, -, -, -, hl, -⟩ := DepositContractOperation.evaluate_ok h
    exact hl ▸ .storeBalance _ rfl
  case balancesWithdraw op =>
    refine foldlM_rel (R := fun s s' : OpState =>
      (Operation.balancesWithdraw op).Confined P s.ledger s'.ledger) (fun _ => .refl _ _)
      (fun _ _ _ => .trans) ?_ (BalancesWithdrawOperation.evaluate_ok h).2
    intro item _ s s' h
    obtain ⟨_, _, -, -, -, -, -, hl, -⟩ := BalancesWithdrawOperation.withdrawOne_ok h
    exact hl ▸ .storeBalance _ rfl
  case onDestroy op =>
    obtain ⟨-, e, s₁, -, hmove, rfl⟩ := OnDestroyOperation.evaluate_ok h
    have hmoved : (Operation.onDestroy op).Confined P s.ledger s₁.ledger := by
      rcases OnDestroyOperation.move_ok hmove with
        ⟨-, rfl⟩ | ⟨b, dest, date, l₁, -, -, -, rfl, -, -, hl, -⟩
      · exact .refl _ _
      · exact hl ▸ (Confined.storeBalance _ rfl).trans (.storeBalance _ rfl)
    exact hmoved.trans (.storeContract _ rfl)
  case onUpgrade op =>
    obtain ⟨-, e, -, rfl⟩ := OnUpgradeOperation.evaluate_ok h
    exact .storeContract _ rfl
  case transaction trx => simp at h

theorem Operation.evaluateLeaf_writes {op : Operation} (h : op.evaluateLeaf P V ctx s = .ok s') :
    Writes P s.ledger s'.ledger :=
  (evaluateLeaf_confined h).writes

theorem Operation.evaluateLeaf_spares {op : Operation} (hop : op.sparesBalances = true)
    (h : op.evaluateLeaf P V ctx s = .ok s') : SameBalances s.ledger s'.ledger :=
  have hconfined := evaluateLeaf_confined h
  have hcontracts : op.sparesContracts = true := by
    cases op <;> first | rfl | cases hop
  ⟨hconfined.writes.prev, hconfined.balance hop, hconfined.contract hcontracts⟩

theorem Operation.evaluateLeaf_sameAssets {op : Operation} (hop : op.sparesAssets = true)
    (h : op.evaluateLeaf P V ctx s = .ok s') : SameAssets s.ledger s'.ledger :=
  have hconfined := evaluateLeaf_confined h
  ⟨hconfined.asset hop, hconfined.writes.prev⟩

theorem Operation.evaluateLeaf_sameAccounts {op : Operation} (hop : op.sparesAccounts = true)
    (h : op.evaluateLeaf P V ctx s = .ok s') : SameAccounts s.ledger s'.ledger :=
  have hconfined := evaluateLeaf_confined h
  ⟨hconfined.writes.prev, hconfined.account hop, hconfined.property hop⟩

end Leaf

/-- An evaluation only writes. -/
theorem writes_ledgerRel :
    LedgerRel P V (fun _ => True) (fun _ => (0 : ℕ)) fun _ l l' => Writes P l l' where
  refl _ := .refl
  trans := .trans
  leaf _ h := Operation.evaluateLeaf_writes h
  fee h := by
    obtain ⟨-, rfl⟩ | ⟨-, a, -, rfl⟩ := EvalState.collectFee_ok h
    · exact .refl
    · exact .one (.asset _)
  votes h := by
    obtain ⟨a, stats, -, -, rfl⟩ := EvalState.updateVotes_ok h
    exact .one (.account _)
  request s id trx := (Writes.one (.resultId _ _)).tail (.requestId _ _)

theorem evaluate_writes {s s' : EvalState} {t : SignedTransaction}
    (h : evaluate P V s t = .ok s') : Writes P s.st.ledger s'.st.ledger :=
  writes_ledgerRel.evaluate (fun _ _ => trivial) h

end Achain
