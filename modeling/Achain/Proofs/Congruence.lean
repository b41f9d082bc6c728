import Achain.Proofs.Results

/-!
# What the carried operations do not read

The operations an executed contract leaves in a result read neither the result under construction
nor its fees nor the maps between request and result ids. So they do the same whether or not the
contract was executed before them, and whatever id the result is recorded under.
-/

namespace Achain

open Table Result

variable {P : Primitives} {V : Vm}

/-- The part of the state that the operations of a result do not read. -/
structure Frame where
  pResultTrx : SignedTransaction
  requiredFees : Asset
  contractBalanceRemain : ShareType
  requestIdToResultId : Overlay TransactionIdType TransactionIdType
  resultIdToRequestId : Overlay TransactionIdType TransactionIdType

def Ledger.reframe (f : Frame) (l : Ledger) : Ledger :=
  { l with
    requestIdToResultId := f.requestIdToResultId
    resultIdToRequestId := f.resultIdToRequestId }

/-- The state with another frame. -/
def OpState.reframe (f : Frame) (s : OpState) : OpState :=
  { s with
    pResultTrx := f.pResultTrx
    requiredFees := f.requiredFees
    contractBalanceRemain := f.contractBalanceRemain
    ledger := s.ledger.reframe f }

section Reframe

variable {f : Frame} {s : OpState} {l : Ledger}

@[simp] theorem OpState.reframe_ledger : (s.reframe f).ledger = s.ledger.reframe f := rfl

@[simp] theorem Ledger.getBalance_reframe : (l.reframe f).getBalance = l.getBalance := rfl

@[simp] theorem Ledger.getAsset_reframe : (l.reframe f).getAsset = l.getAsset := rfl

@[simp] theorem Ledger.getSlate_reframe : (l.reframe f).getSlate = l.getSlate := rfl

@[simp] theorem Ledger.getContract_reframe : (l.reframe f).getContract = l.getContract := rfl

@[simp] theorem Ledger.getStorage_reframe : (l.reframe f).getStorage = l.getStorage := rfl

@[simp] theorem Ledger.prev_reframe : (l.reframe f).prev = l.prev := rfl

theorem Ledger.storeContract_reframe (e : ContractEntry) :
    (l.reframe f).storeContract e = (l.storeContract e).reframe f := by
  unfold storeContract ContractEntry.store
  dsimp only
  split_ifs <;> rfl

theorem OpState.addBalance_reframe (s : OpState) (a : Asset) :
    (s.reframe f).addBalance a = reframe f <$> s.addBalance a :=
  bind_read fun _ => bind_read fun _ => bind_read fun _ => rfl

theorem OpState.subBalance_reframe (s : OpState) (a : Asset) :
    (s.reframe f).subBalance a = reframe f <$> s.subBalance a :=
  bind_read fun _ => bind_read fun _ => bind_read fun _ => rfl

theorem OpState.adjustBalanceVote_reframe (s : OpState) (c : WithdrawCondition) (x : ShareType) :
    (s.reframe f).adjustBalanceVote c x = reframe f <$> s.adjustBalanceVote c x := by
  unfold adjustBalanceVote adjustVote
  split_ifs
  · rfl
  · exact bind_read fun _ => bind_read fun _ => rfl
  · rfl

variable {ctx : OpContext}

theorem DepositOperation.evaluate_reframe (op : DepositOperation) :
    op.evaluate P (s.reframe f) = OpState.reframe f <$> op.evaluate P s := by
  refine bind_read fun _ => bind_read fun _ => bind_read fun _ => ?_
  refine bind_read fun seen => bind_read fun _ => bind_read fun _ => ?_
  refine bind_step (OpState.subBalance_reframe { s with
    depositCount := s.depositCount + 1
    depositAddress := seen } _) fun s => ?_
  exact bind_step (OpState.adjustBalanceVote_reframe s _ _) fun s => bind_read fun _ => rfl

theorem WithdrawContractOperation.evaluate_reframe (op : WithdrawContractOperation) :
    op.evaluate P ctx (s.reframe f) = OpState.reframe f <$> op.evaluate P ctx s := by
  refine bind_read fun _ => bind_read fun _ => bind_read fun _ => ?_
  refine bind_read fun _ => bind_read fun _ => ?_
  exact bind_step (OpState.addBalance_reframe s _) fun s => rfl

theorem BalancesWithdrawOperation.withdrawOne_reframe (s : OpState)
    (item : BalanceIdType × ShareType) :
    withdrawOne P ctx (s.reframe f) item = OpState.reframe f <$> withdrawOne P ctx s item := by
  refine bind_read fun _ => bind_read fun _ => bind_read fun _ => ?_
  refine bind_read fun _ => bind_read fun _ => bind_read fun _ => ?_
  refine bind_step (OpState.adjustBalanceVote_reframe s _ _) fun s => ?_
  exact bind_step (OpState.addBalance_reframe s _) fun s => rfl

theorem BalancesWithdrawOperation.evaluate_reframe (op : BalancesWithdrawOperation) :
    op.evaluate P ctx (s.reframe f) = OpState.reframe f <$> op.evaluate P ctx s :=
  bind_read fun _ => bind_read fun _ => foldlM_step withdrawOne_reframe _ s

theorem DepositContractOperation.evaluate_reframe (op : DepositContractOperation) :
    op.evaluate P ctx (s.reframe f) = OpState.reframe f <$> op.evaluate P ctx s := by
  refine bind_read fun _ => bind_read fun _ => bind_read fun _ => bind_read fun _ => ?_
  refine bind_step (OpState.subBalance_reframe s _) fun s => ?_
  exact bind_step (OpState.adjustBalanceVote_reframe s _ _) fun s => bind_read fun _ => rfl

theorem StorageOperation.evaluate_reframe (op : StorageOperation) :
    op.evaluate ctx (s.reframe f) = OpState.reframe f <$> op.evaluate ctx s :=
  bind_read fun _ => bind_read fun _ => bind_read fun _ => rfl

theorem EventOperation.evaluate_reframe (op : EventOperation) :
    op.evaluate ctx (s.reframe f) = OpState.reframe f <$> op.evaluate ctx s :=
  bind_read fun _ => bind_read fun _ => bind_read fun _ => rfl

theorem OnUpgradeOperation.evaluate_reframe (op : OnUpgradeOperation) :
    op.evaluate ctx (s.reframe f) = OpState.reframe f <$> op.evaluate ctx s := by
  refine bind_read fun _ => bind_read fun _ => ?_
  rw [OpState.reframe_ledger, Ledger.storeContract_reframe]
  rfl

theorem ContractInfoOperation.evaluate_reframe (op : ContractInfoOperation) :
    op.evaluate P ctx (s.reframe f) = OpState.reframe f <$> op.evaluate P ctx s := by
  refine bind_read fun _ => bind_read fun _ => bind_read fun _ => ?_
  dsimp only
  rw [OpState.reframe_ledger, Ledger.storeContract_reframe]
  rfl

theorem OnDestroyOperation.moveBalance_reframe (op : OnDestroyOperation) (entry : ContractEntry)
    (b : BalanceEntry) :
    op.moveBalance P entry b (s.reframe f) = OpState.reframe f <$> op.moveBalance P entry b s := by
  refine bind_read fun _ => bind_read fun _ => ?_
  refine bind_step (OpState.addBalance_reframe s _) fun s => bind_read fun _ => ?_
  refine bind_step (OpState.subBalance_reframe { s with
    ledger := s.ledger.storeBalance P { b with balance := 0 } } _) fun s => ?_
  exact bind_read fun _ => rfl

theorem OnDestroyOperation.evaluate_reframe (op : OnDestroyOperation) :
    op.evaluate P ctx (s.reframe f) = OpState.reframe f <$> op.evaluate P ctx s := by
  refine bind_read fun _ => bind_read fun entry => ?_
  refine bind_step (y := op.move P entry s) ?_ fun s => ?_
  · unfold move
    rw [OpState.reframe_ledger, Ledger.getBalance_reframe]
    cases s.ledger.getBalance (P.getBalanceId entry.id .contract) with
    | some b => exact op.moveBalance_reframe entry b
    | none => rfl
  · rw [OpState.reframe_ledger, Ledger.storeContract_reframe]
    rfl

/-- The operations of a result do not read the frame. -/
theorem Operation.evaluateLeaf_reframe {op : Operation} (hop : op.isResultOp = true) :
    op.evaluateLeaf P V ctx (s.reframe f) = OpState.reframe f <$> op.evaluateLeaf P V ctx s := by
  cases op <;> simp only [isResultOp, Bool.false_eq_true] at hop <;> simp only [evaluateLeaf]
  case contractInfo op => exact op.evaluate_reframe
  case withdrawContract op => exact op.evaluate_reframe
  case depositContract op => exact op.evaluate_reframe
  case balancesWithdraw op => exact op.evaluate_reframe
  case deposit op => exact op.evaluate_reframe
  case storage op => exact op.evaluate_reframe
  case event op => exact op.evaluate_reframe
  case onDestroy op => exact op.evaluate_reframe
  case onUpgrade op => exact op.evaluate_reframe
  case onCallSuccess => rfl

/-! ## The carried operations in turn -/

/-- One carried operation. -/
def carryOperation (P : Primitives) (V : Vm) (ctx : OpContext) (st : OpState) (op : Operation) :
    Except Exn OpState := do
  let st ← op.evaluateLeaf P V ctx st
  return { st with currentOpIndex := st.currentOpIndex + 1 }

/-- The operations a result carries, none of which is a transaction. -/
def carryOperations (P : Primitives) (V : Vm) (ctx : OpContext) (st : OpState)
    (ops : List Operation) : Except Exn OpState :=
  ops.foldlM (carryOperation P V ctx) st

theorem evaluateOperations_eq_carry :
    ∀ (ops : List Operation) (s : EvalState), (∀ op ∈ ops, op.isTransactionOp = false) →
      evaluateOperations P V s ops =
        (fun st => { s with st := st }) <$> carryOperations P V s.ctx s.st ops
  | [], s, _ => by
    rw [evaluateOperations_nil]
    rfl
  | op :: ops, s, h => by
    have hop := h op (List.mem_cons_self ..)
    have hops := fun op' hop' => h op' (List.mem_cons_of_mem _ hop')
    rw [evaluateOperations_cons, evaluateOperation_leaf hop, carryOperations, List.foldlM_cons,
      carryOperation]
    cases op.evaluateLeaf P V s.ctx s.st with
    | error e => rfl
    | ok st => exact evaluateOperations_eq_carry ops ({ s with st := st } : EvalState).nextOp hops

theorem carryOperations_reframe {ops : List Operation} (hops : ops.all Operation.isResultOp = true) :
    carryOperations P V ctx (s.reframe f) ops =
      OpState.reframe f <$> carryOperations P V ctx s ops := by
  induction ops generalizing s with
  | nil => rfl
  | cons op ops ih =>
    rw [List.all_cons, Bool.and_eq_true] at hops
    rw [carryOperations, carryOperations, List.foldlM_cons, List.foldlM_cons]
    refine bind_step (bind_step (Operation.evaluateLeaf_reframe hops.1) fun st => ?_) fun st => ?_
    · rfl
    · exact ih hops.2

end Reframe

theorem Operation.isTransactionOp_of_isResultOp {op : Operation} (h : op.isResultOp = true) :
    op.isTransactionOp = false := by
  cases op <;> simp_all [isResultOp, isTransactionOp]

theorem Operation.isContractOp_of_isResultOp {op : Operation} (h : op.isResultOp = true) :
    op.isContractOp = false := by
  cases op <;> simp_all [isResultOp, isContractOp]

end Achain
