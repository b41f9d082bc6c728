import Achain.Proofs.Evaluation
import Achain.Proofs.DepositDates

/-!
# Limits on deposits

Deposits of a transaction are counted, and the owners of the balances they go to are collected, over
the whole evaluation, whatever the transaction wraps. No owner is collected twice. The count is
tested before it goes up, so that one deposit more than the limit is accepted, and no more than one.
-/

namespace Achain

open Table Result

variable {P : Primitives} {V : Vm} {ctx : OpContext} {s s' s'' : OpState}

/-! ## The owners collected -/

theorem insertDepositAddresses_ok : ∀ {owners seen seen' : List Address},
    insertDepositAddresses owners seen = .ok seen' →
      seen' = owners.reverse ++ seen ∧ (seen.Nodup → seen'.Nodup)
  | [], seen, seen', h => by
    obtain rfl := pure_eq_ok.1 h
    exact ⟨rfl, id⟩
  | owner :: owners, seen, seen', h => by
    rw [insertDepositAddresses, List.foldlM_cons, bind_eq_ok] at h
    obtain ⟨seen₁, h₁, h₂⟩ := h
    split_ifs at h₁ with hmem
    rw [ok_eq_ok] at h₁
    obtain ⟨heq, hnodup⟩ := insertDepositAddresses_ok h₂
    subst h₁
    refine ⟨by rw [heq, List.reverse_cons, List.append_assoc]; rfl, fun hseen => ?_⟩
    exact hnodup (List.nodup_cons.2 ⟨hmem, hseen⟩)

/-- The count and the owners collected are the same. -/
structure SameDeposits (s s' : OpState) : Prop where
  count : s'.depositCount = s.depositCount
  address : s'.depositAddress = s.depositAddress

theorem SameDeposits.refl (s : OpState) : SameDeposits s s := ⟨rfl, rfl⟩

theorem SameDeposits.trans (h : SameDeposits s s') (h' : SameDeposits s' s'') :
    SameDeposits s s'' :=
  ⟨h'.count.trans h.count, h'.address.trans h.address⟩

section Operations

theorem OriginEvaluated.sameDeposits (h : OriginEvaluated P ctx s s') : SameDeposits s s' := by
  rw [h.only]
  exact ⟨rfl, rfl⟩

theorem BalancesWithdrawOperation.sameDeposits {op : BalancesWithdrawOperation}
    (h : op.evaluate P ctx s = .ok s') : SameDeposits s s' := by
  refine foldlM_rel .refl (fun _ _ _ h h' => h.trans h') ?_ (evaluate_ok h).2
  intro item _ s₁ s₂ hone
  simp only [withdrawOne, bind_eq_ok, ensure_eq_ok, orThrow_eq_ok, pure_eq_ok, exists_const] at hone
  obtain ⟨-, e, -, -, -, asset, -, _, -, s₃, h₃, s₄, h₄, rfl⟩ := hone
  obtain ⟨_, rfl⟩ := OpState.adjustBalanceVote_eq_ok h₃
  obtain ⟨_, _, rfl⟩ := OpState.addBalance_eq_ok h₄
  exact ⟨rfl, rfl⟩

theorem OnDestroyOperation.sameDeposits {op : OnDestroyOperation}
    (h : op.evaluate P ctx s = .ok s') : SameDeposits s s' := by
  obtain ⟨-, e, s₁, -, hmove, rfl⟩ := evaluate_ok h
  suffices hsame : SameDeposits s s₁ from ⟨hsame.count, hsame.address⟩
  unfold move at hmove
  split at hmove
  · simp only [moveBalance, bind_eq_ok, ensure_eq_ok, orThrow_eq_ok, pure_eq_ok,
      exists_const] at hmove
    obtain ⟨-, -, s₂, h₂, date, -, s₃, h₃, asset, -, rfl⟩ := hmove
    obtain ⟨_, _, rfl⟩ := OpState.addBalance_eq_ok h₂
    obtain ⟨_, _, rfl⟩ := OpState.subBalance_eq_ok h₃
    exact ⟨rfl, rfl⟩
  · obtain rfl := ok_eq_ok.1 hmove
    exact .refl s

def Operation.isDepositOp : Operation → Bool
  | .deposit _ => true
  | _ => false

/-- Only deposits are counted. -/
theorem Operation.evaluateLeaf_sameDeposits {op : Operation} (hop : op.isDepositOp = false)
    (h : op.evaluateLeaf P V ctx s = .ok s') : SameDeposits s s' := by
  cases op <;> simp only [evaluateLeaf] at h
  case deposit op => cases hop
  case withdraw op =>
    simp only [WithdrawOperation.evaluate, bind_eq_ok, ensure_eq_ok, orThrow_eq_ok, pure_eq_ok,
      exists_const] at h
    obtain ⟨-, e, -, -, asset, -, _, -, s₁, h₁, b, -, s₂, h₂, rfl⟩ := h
    obtain ⟨_, rfl⟩ := OpState.adjustBalanceVote_eq_ok h₁
    obtain ⟨_, _, rfl⟩ := OpState.addBalance_eq_ok h₂
    exact ⟨rfl, rfl⟩
  case registerAccount op =>
    simp only [RegisterAccountOperation.evaluate, bind_eq_ok, ensure_eq_ok, pure_eq_ok,
      exists_const, Prod.exists] at h
    obtain ⟨-, -, -, -, l, id, -, -, required, -, rfl⟩ := h
    exact ⟨rfl, rfl⟩
  case updateAccount op =>
    simp only [UpdateAccountOperation.evaluate, bind_eq_ok, ensure_eq_ok, orThrow_eq_ok, pure_eq_ok,
      exists_const, Prod.exists] at h
    obtain ⟨e, -, -, _, -, -, -, info, fee, -, required, -, rfl⟩ := h
    exact ⟨rfl, rfl⟩
  case withdrawPay op =>
    simp only [WithdrawPayOperation.evaluate, bind_eq_ok, ensure_eq_ok, orThrow_eq_ok, pure_eq_ok,
      exists_const] at h
    obtain ⟨-, e, -, stats, -, -, -, pay, -, votes, -, s₁, h₁, rfl⟩ := h
    obtain ⟨_, _, rfl⟩ := OpState.addBalance_eq_ok h₁
    exact ⟨rfl, rfl⟩
  case createAsset op =>
    simp only [CreateAssetOperation.evaluate, bind_eq_ok, ensure_eq_ok, pure_eq_ok, exists_const,
      Prod.exists] at h
    obtain ⟨-, -, -, n, -, -, issuer, -, -, -, required, -, l, id, -, rfl⟩ := h
    exact ⟨rfl, rfl⟩
  case updateAsset op =>
    simp only [UpdateAssetOperation.evaluate, bind_eq_ok, ensure_eq_ok, orThrow_eq_ok, pure_eq_ok,
      exists_const] at h
    obtain ⟨a, -, -, -, -, b, -, rfl⟩ := h
    exact ⟨rfl, rfl⟩
  case updateAssetExt op =>
    simp only [UpdateAssetExtOperation.evaluate, bind_eq_ok, ensure_eq_ok, orThrow_eq_ok,
      pure_eq_ok, exists_const] at h
    obtain ⟨a, -, -, -, -, b, -, -, -, -, -, rfl⟩ := h
    exact ⟨rfl, rfl⟩
  case issueAsset op =>
    simp only [IssueAssetOperation.evaluate, bind_eq_ok, ensure_eq_ok, orThrow_eq_ok, pure_eq_ok,
      exists_const] at h
    obtain ⟨a, -, -, -, -, -, s₁, h₁, rfl⟩ := h
    obtain ⟨_, _, rfl⟩ := OpState.addBalance_eq_ok h₁
    exact ⟨rfl, rfl⟩
  case defineSlate op =>
    obtain rfl | rfl := DefineSlateOperation.evaluate_ok h <;> exact ⟨rfl, rfl⟩
  case updateSigningKey op => simp [UpdateSigningKeyOperation.evaluate] at h
  case updateBalanceVote op => exact ok_eq_ok.1 h ▸ .refl s
  case onCallSuccess => exact ok_eq_ok.1 h ▸ .refl s
  case imessageMemo op =>
    simp only [ImessageMemoOperation.evaluate, bind_eq_ok, ensure_eq_ok, pure_eq_ok,
      exists_const] at h
    obtain ⟨-, -, required, -, rfl⟩ := h
    exact ⟨rfl, rfl⟩
  case event op =>
    simp only [EventOperation.evaluate, bind_eq_ok, ensure_eq_ok, orThrow_eq_ok, pure_eq_ok,
      exists_const] at h
    obtain ⟨-, _, -, -, rfl⟩ := h
    exact ⟨rfl, rfl⟩
  case storage op =>
    obtain ⟨-, _, rfl⟩ := StorageOperation.evaluate_ok h
    exact ⟨rfl, rfl⟩
  case contractInfo op =>
    obtain ⟨-, -, _, -, -, -, rfl⟩ := ContractInfoOperation.evaluate_ok h
    exact ⟨rfl, rfl⟩
  case registerContract op => exact (RegisterContractOperation.evaluate_ok h).sameDeposits
  case upgradeContract op => exact (UpgradeContractOperation.evaluate_ok h).sameDeposits
  case destroyContract op => exact (DestroyContractOperation.evaluate_ok h).sameDeposits
  case callContract op => exact (CallContractOperation.evaluate_ok h).sameDeposits
  case transferContract op => exact (TransferContractOperation.evaluate_ok h).sameDeposits
  case withdrawContract op =>
    simp only [WithdrawContractOperation.evaluate, bind_eq_ok, ensure_eq_ok, orThrow_eq_ok,
      pure_eq_ok, exists_const] at h
    obtain ⟨-, -, e, -, -, asset, -, s₁, h₁, rfl⟩ := h
    obtain ⟨_, _, rfl⟩ := OpState.addBalance_eq_ok h₁
    exact ⟨rfl, rfl⟩
  case depositContract op =>
    simp only [DepositContractOperation.evaluate, bind_eq_ok, ensure_eq_ok, orThrow_eq_ok,
      pure_eq_ok, exists_const] at h
    obtain ⟨-, -, -, date, -, s₁, h₁, s₂, h₂, asset, -, rfl⟩ := h
    obtain ⟨_, _, rfl⟩ := OpState.subBalance_eq_ok h₁
    obtain ⟨_, rfl⟩ := OpState.adjustBalanceVote_eq_ok h₂
    exact ⟨rfl, rfl⟩
  case balancesWithdraw op => exact BalancesWithdrawOperation.sameDeposits h
  case onDestroy op => exact OnDestroyOperation.sameDeposits h
  case onUpgrade op =>
    obtain ⟨-, _, -, rfl⟩ := OnUpgradeOperation.evaluate_ok h
    exact ⟨rfl, rfl⟩
  case transaction trx => simp at h

/-- A deposit is counted after the count has been tested. -/
theorem DepositOperation.evaluate_counted {op : DepositOperation} (h : op.evaluate P s = .ok s') :
    s.depositCount ≤ transactionMaxDepositNum ∧ s'.depositCount = s.depositCount + 1 ∧
      insertDepositAddresses
        (depositEntry P s.ledger op.condition (.ofCondition op.condition)).condition.owners
        s.depositAddress = .ok s'.depositAddress := by
  simp only [evaluate, bind_eq_ok, ensure_eq_ok, orThrow_eq_ok, pure_eq_ok, exists_const,
    decide_eq_true_eq] at h
  obtain ⟨hcount, -, -, seen, hseen, date, -, b, -, s₁, h₁, s₂, h₂, asset, -, rfl⟩ := h
  obtain ⟨_, _, rfl⟩ := OpState.subBalance_eq_ok h₁
  obtain ⟨_, rfl⟩ := OpState.adjustBalanceVote_eq_ok h₂
  exact ⟨hcount, rfl, hseen⟩

end Operations

/-! ## Whole transactions -/

/-- The owners of the balance a deposit goes to. -/
def Visit.depositOwners (P : Primitives) (v : Visit) : Option (List Address) :=
  match v.2 with
  | .deposit op =>
    some (depositEntry P v.1.st.ledger op.condition (.ofCondition op.condition)).condition.owners
  | _ => none

/-- The owners of each balance deposited to, in the order of the deposits. -/
def depositedTo (P : Primitives) (tr : List Visit) : List (List Address) :=
  tr.filterMap (Visit.depositOwners P)

theorem depositedTo_append (a b : List Visit) :
    depositedTo P (a ++ b) = depositedTo P a ++ depositedTo P b :=
  List.filterMap_append

theorem Visit.isSome_depositOwners (v : Visit) :
    (v.depositOwners P).isSome = v.2.isDepositOp := by
  obtain ⟨s, op⟩ := v
  cases op <;> rfl

theorem length_depositedTo (tr : List Visit) :
    (depositedTo P tr).length = (tr.map Prod.snd).countP Operation.isDepositOp := by
  rw [depositedTo, List.length_filterMap_eq_countP, List.countP_map]
  exact List.countP_congr fun v _ => by rw [Visit.isSome_depositOwners]; rfl

/-- What the deposits visited between two states do to the count and to the owners collected. -/
structure Deposited (owners : List (List Address)) (s s' : OpState) : Prop where
  count : s'.depositCount = s.depositCount + owners.length
  address : s'.depositAddress = owners.flatten.reverse ++ s.depositAddress
  nodup : s.depositAddress.Nodup → s'.depositAddress.Nodup
  limit : s.depositCount ≤ transactionMaxDepositNum + 1 →
    s'.depositCount ≤ transactionMaxDepositNum + 1

namespace Deposited

variable {a b : List (List Address)}

theorem of_same (h : SameDeposits s s') : Deposited [] s s' where
  count := by simp [h.count]
  address := h.address
  nodup hs := h.address ▸ hs
  limit hs := h.count ▸ hs

theorem trans (h : Deposited a s s') (h' : Deposited b s' s'') : Deposited (a ++ b) s s'' where
  count := by
    rw [h'.count, h.count, List.length_append]
    push_cast
    ring
  address := by
    rw [h'.address, h.address, List.flatten_append, List.reverse_append, List.append_assoc]
  nodup hs := h'.nodup (h.nodup hs)
  limit hs := h'.limit (h.limit hs)

theorem deposit {op : DepositOperation} (h : op.evaluate P s = .ok s') :
    Deposited
      [(depositEntry P s.ledger op.condition (.ofCondition op.condition)).condition.owners] s s' := by
  obtain ⟨hlimit, hcount, hinsert⟩ := DepositOperation.evaluate_counted h
  obtain ⟨haddress, hnodup⟩ := insertDepositAddresses_ok hinsert
  refine ⟨hcount, ?_, hnodup, fun _ => by omega⟩
  rw [haddress, List.flatten_singleton]

end Deposited

theorem deposited_visitRel :
    VisitRel P V fun tr s s' => Deposited (depositedTo P tr) s.st s'.st where
  refl s := .of_same (.refl s.st)
  trans h h' := by
    rw [depositedTo_append]
    exact h.trans h'
  start h := by
    obtain ⟨-, keys, -, rfl⟩ := EvalState.start_ok h
    exact .of_same ⟨rfl, rfl⟩
  leaf {s op st} _ h := by
    by_cases hop : op.isDepositOp = false
    · have hnone : depositedTo P [(s, op)] = [] := by
        cases op <;> first | rfl | cases hop
      rw [hnone]
      exact .of_same (Operation.evaluateLeaf_sameDeposits hop h)
    · cases op <;> simp only [Operation.isDepositOp, not_true_eq_false] at hop
      exact .deposit h
  next s := .of_same ⟨rfl, rfl⟩
  after h := by
    obtain ⟨-, rfl⟩ | ⟨-, -, rfl⟩ := EvalState.afterFirst_ok h <;> exact .of_same ⟨rfl, rfl⟩
  ends s t first := by
    unfold EvalState.endResult
    split_ifs <;> exact .of_same ⟨rfl, rfl⟩
  finish h := by
    obtain ⟨st, hst, rfl⟩ := EvalState.finish_ok h
    obtain ⟨fees, hfees⟩ := EvalState.chargeSignatures_eq _ _
    rw [hfees] at hst
    obtain ⟨-, rfl⟩ | ⟨-, _, _, -, -, -, rfl⟩ := EvalState.settle_ok hst <;>
      exact .of_same ⟨rfl, rfl⟩
  request s id trx := .of_same ⟨rfl, rfl⟩

/-- The number of deposits of a transaction, whatever it wraps. -/
def SignedTransaction.depositNum (t : SignedTransaction) : ℕ :=
  t.leaves.countP Operation.isDepositOp

/-- A transaction makes no more deposits than the limit, and no two of them to a common owner. -/
structure DepositLimits (P : Primitives) (V : Vm) (s : EvalState) (t : SignedTransaction) :
    Prop where
  count : (t.depositNum : ℤ) ≤ transactionMaxDepositNum
  disjoint : (depositedTo P (visits P V s t)).Pairwise List.Disjoint

/-- Of the transactions accepted, those of one deposit more than the limit are over it. -/
theorem depositLimits_iff (P : Primitives) (V : Vm) (p : PendingChainState)
    (skipSignatureCheck skipexec : Bool) (t : SignedTransaction) (s' : EvalState)
    (h : evaluate P V (.init p skipSignatureCheck skipexec) t = .ok s') :
    DepositLimits P V (.init p skipSignatureCheck skipexec) t ↔
      (t.depositNum : ℤ) ≠ transactionMaxDepositNum + 1 := by
  obtain ⟨hdeposited, hleaves⟩ := deposited_visitRel.evaluate t h
  have hnum : (depositedTo P (visits P V (.init p skipSignatureCheck skipexec) t)).length =
      t.depositNum := by
    rw [length_depositedTo, hleaves, SignedTransaction.depositNum]
  have hlimit := hdeposited.limit (by decide : (0 : ℤ) ≤ 100 + 1)
  rw [hdeposited.count, hnum] at hlimit
  replace hlimit : (0 : ℤ) + t.depositNum ≤ transactionMaxDepositNum + 1 := hlimit
  have hnodup := hdeposited.nodup List.nodup_nil
  rw [hdeposited.address] at hnodup
  have hdisjoint := (List.nodup_flatten.1 (List.nodup_reverse.1 (List.nodup_append.1 hnodup).1)).2
  constructor
  · intro hlimits
    have hcount := hlimits.count
    omega
  · intro hne
    exact ⟨by omega, hdisjoint⟩

/-- Spends the balance of key 1 on deposits of one share each to other keys. -/
def spread (n : ℕ) : SignedTransaction where
  expiration := 60
  reserved := none
  alpAccount := []
  alpInportAsset := 0
  operations := .withdraw ⟨3, 300, []⟩ ::
    (List.range n).map fun i => .deposit ⟨1, ⟨0, 0, .common, .signature (i + 10) none⟩⟩
  resultTrxType := .origin
  resultTrxId := 0
  signatures := []

theorem depositLimits_spread :
    DepositLimits .plain .idle (.init (.ofView datedView) true false) (spread 3) := by
  have hrun : returns (evaluate .plain .idle (.init (.ofView datedView) true false) (spread 3))
      (fun _ => true) = true := by decide +kernel
  obtain ⟨s', hs', -⟩ := exists_of_returns hrun
  exact (depositLimits_iff .plain .idle (.ofView datedView) true false (spread 3) s' hs').2
    (by decide +kernel)

/-- A hundred and one deposits are accepted. -/
theorem spread_over_limit :
    ∃ s', evaluate .plain .idle (.init (.ofView datedView) true false) (spread 101) = .ok s' ∧
      ¬DepositLimits .plain .idle (.init (.ofView datedView) true false) (spread 101) := by
  have hrun : returns (evaluate .plain .idle (.init (.ofView datedView) true false) (spread 101))
      (fun _ => true) = true := by decide +kernel
  obtain ⟨s', hs', -⟩ := exists_of_returns hrun
  refine ⟨s', hs', fun hlimits => ?_⟩
  have hover : ¬((spread 101).depositNum : ℤ) ≤ transactionMaxDepositNum := by decide +kernel
  exact hover hlimits.count

end Achain
