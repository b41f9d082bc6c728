import Achain.Proofs.Debits
import Achain.Proofs.Moves

/-!
# The shape of a transaction

The legality of its operations and the flag that the evaluation of a result raises give every
transaction that is accepted a shape: a contract operation stands alone, a wrapped transaction leads
the operations and wraps one contract operation, and what only a result may carry stands behind it.
The operations behind a wrapped transaction are not looked at for a further one, though those of
any other transaction are.
-/

namespace Achain

open Table Result

variable {P : Primitives} {V : Vm} {s s' : EvalState} {t origin : SignedTransaction}
  {op first : Operation} {ops rest : List Operation}

/-! ## What only a result may carry -/

/-- The operations that a transaction may not carry but in a result. -/
def Operation.onlyInResult : Operation → Bool
  | .balancesWithdraw _ | .withdrawContract _ | .depositContract _ | .storage _ | .onDestroy _
  | .onUpgrade _ | .contractInfo _ => true
  | _ => false

theorem Operation.onlyInResult_contractOp (hop : op.isContractOp = true) :
    op.onlyInResult = false := by
  cases op <;> simp_all [isContractOp, onlyInResult]

/-- They are evaluated only while the flag is up. -/
theorem Operation.evaluateLeaf_flag {ctx : OpContext} {st st' : OpState}
    (hop : op.onlyInResult = true) (h : op.evaluateLeaf P V ctx st = .ok st') :
    ctx.evaluateContractResult = true := by
  cases op <;> simp only [onlyInResult, Bool.false_eq_true] at hop <;>
    simp only [evaluateLeaf] at h
  case contractInfo op => exact (ContractInfoOperation.evaluate_ok h).1
  case withdrawContract op =>
    obtain ⟨_, -, hflag, -⟩ := WithdrawContractOperation.evaluate_ok h
    exact hflag
  case depositContract op =>
    obtain ⟨_, _, -, hflag, -⟩ := DepositContractOperation.evaluate_ok h
    exact hflag
  case balancesWithdraw op => exact (BalancesWithdrawOperation.evaluate_ok h).1
  case storage op => exact (StorageOperation.evaluate_ok h).1
  case onDestroy op => exact (OnDestroyOperation.evaluate_ok h).1
  case onUpgrade op => exact (OnUpgradeOperation.evaluate_ok h).1

/-- An operation that is evaluated while the flag is down is none of them, and leaves it down. -/
theorem evaluateOperation_down (hop : op.isTransactionOp = false)
    (hdown : s.evaluateContractResult = false) (h : evaluateOperation P V s op = .ok s') :
    op.onlyInResult = false ∧ s'.evaluateContractResult = false := by
  rw [evaluateOperation_leaf hop, bind_eq_ok] at h
  obtain ⟨st, hst, hs'⟩ := h
  obtain rfl := pure_eq_ok.1 hs'
  refine ⟨?_, hdown⟩
  by_contra hres
  have hflag := Operation.evaluateLeaf_flag (by simpa using hres) hst
  rw [EvalState.ctx, hdown] at hflag
  cases hflag

theorem evaluateOperations_down : ∀ (ops : List Operation) {s s' : EvalState},
    (∀ op ∈ ops, op.isTransactionOp = false) → s.evaluateContractResult = false →
      evaluateOperations P V s ops = .ok s' → ∀ op ∈ ops, op.onlyInResult = false
  | [], _, _, _, _, _, _, hmem => (List.not_mem_nil hmem).elim
  | op :: ops, s, s', hplain, hdown, h, op', hmem => by
    rw [evaluateOperations_cons, bind_eq_ok] at h
    obtain ⟨s₁, h₁, h₂⟩ := h
    obtain ⟨hop, hdown₁⟩ := evaluateOperation_down (hplain op (List.mem_cons_self ..)) hdown h₁
    have hops := evaluateOperations_down ops (s := s₁.nextOp)
      (fun op'' hmem' => hplain op'' (List.mem_cons_of_mem _ hmem')) hdown₁ h₂
    rcases List.mem_cons.1 hmem with rfl | hmem
    · exact hop
    · exact hops op' hmem

/-- A transaction that no wrapped one leads carries none of them. -/
theorem evaluate_down (ht : t.operations = first :: rest)
    (hfirst : first.isTransactionOp = false) (hdown : s.evaluateContractResult = false)
    (h : evaluate P V s t = .ok s') : ∀ op ∈ t.operations, op.onlyInResult = false := by
  have hplain := legal_plain ht hfirst (evaluate_legal h)
  rw [evaluate_cons first rest ht] at h
  simp only [bind_eq_ok] at h
  obtain ⟨s₁, h₁, s₂, h₂, s₃, h₃, s₄, h₄, -⟩ := h
  obtain ⟨-, keys, -, hs₁⟩ := EvalState.start_ok h₁
  have hdown₁ : s₁.evaluateContractResult = false := by
    rw [hs₁]
    exact hdown
  obtain ⟨hop, hdown₂⟩ := evaluateOperation_down hfirst hdown₁ h₂
  obtain rfl := EvalState.afterFirst_plain hfirst h₃
  have hrest := evaluateOperations_down rest (s := s₂.nextOp) hplain hdown₂ h₄
  intro op hmem
  rw [ht] at hmem
  rcases List.mem_cons.1 hmem with rfl | hmem
  · exact hop
  · exact hrest op hmem

/-! ## The shape -/

/-- The shape of a transaction, whose operations at any depth are those it takes effect by. -/
structure SignedTransaction.Shaped (t : SignedTransaction) : Prop where
  nonempty : t.operations ≠ []
  alone : ∀ op ∈ t.operations, op.isContractOp = true → t.operations = [op]
  leads : ∀ i origin, t.operations[i]? = some (.transaction origin) →
    i = 0 ∧ ∃ op, origin.operations = [op] ∧ op.isContractOp = true
  behind : ∀ op ∈ t.leaves, op.onlyInResult = true →
    ∃ origin rest, t.operations = .transaction origin :: rest ∧ op ∈ rest

/-- A wrapped transaction leads the operations, and a further one is behind it. -/
def SignedTransaction.carriesFurther (t : SignedTransaction) : Bool :=
  match t.operations with
  | .transaction _ :: rest => rest.any Operation.isTransactionOp
  | _ => false

theorem SignedTransaction.Shaped.carriesFurther (h : t.Shaped) : t.carriesFurther = false := by
  unfold SignedTransaction.carriesFurther
  split
  · rename_i origin rest hops
    rw [List.any_eq_false]
    intro op hmem hop
    obtain ⟨trx, rfl⟩ : ∃ trx, op = .transaction trx := by
      cases op <;> simp_all [Operation.isTransactionOp]
    obtain ⟨i, hi⟩ := List.mem_iff_getElem?.1 hmem
    have hlater := (h.leads (i + 1) trx (by rw [hops, List.getElem?_cons_succ, hi])).1
    omega
  · rfl

/-- The operations of a result that carries no further transaction, at any depth. -/
theorem leaves_result (ht : t.operations = .transaction origin :: rest)
    (hlegal : t.checkOperationsLegality = true)
    (hrest : ∀ op ∈ rest, op.isTransactionOp = false) :
    ∃ op, origin.operations = [op] ∧ op.isContractOp = true ∧ t.leaves = op :: rest := by
  obtain ⟨op, horigin, hop⟩ := legal_wrapped ht hlegal
  refine ⟨op, horigin, hop, ?_⟩
  rw [SignedTransaction.leaves_eq, ht, leavesOf_cons, Operation.leaves_transaction,
    leaves_origin horigin hop, leavesOf_of_leaves hrest, List.singleton_append]

theorem shaped_result (ht : t.operations = .transaction origin :: rest)
    (hlegal : t.checkOperationsLegality = true)
    (hrest : ∀ op ∈ rest, op.isTransactionOp = false) : t.Shaped := by
  obtain ⟨op, horigin, hop, hleaves⟩ := leaves_result ht hlegal hrest
  refine ⟨by simp [ht], fun _ => legal_contractOp hlegal, fun i trx hi => ?_, fun op' hmem hres => ?_⟩
  · rw [ht] at hi
    cases i with
    | zero =>
      obtain rfl : origin = trx := by simpa using hi
      exact ⟨rfl, op, horigin, hop⟩
    | succ i =>
      rw [List.getElem?_cons_succ] at hi
      have hplain := hrest _ (List.mem_of_getElem? hi)
      cases hplain
  · rw [hleaves] at hmem
    rcases List.mem_cons.1 hmem with rfl | hmem
    · rw [Operation.onlyInResult_contractOp hop] at hres
      cases hres
    · exact ⟨origin, rest, ht, hmem⟩

theorem shaped_plain (ht : t.operations = first :: rest) (hfirst : first.isTransactionOp = false)
    (hlegal : t.checkOperationsLegality = true)
    (hres : ∀ op ∈ t.operations, op.onlyInResult = false) : t.Shaped := by
  have hplain : ∀ op ∈ t.operations, op.isTransactionOp = false := by
    intro op hmem
    rw [ht] at hmem
    rcases List.mem_cons.1 hmem with rfl | hmem
    · exact hfirst
    · exact legal_plain ht hfirst hlegal op hmem
  refine ⟨by simp [ht], fun _ => legal_contractOp hlegal, fun i trx hi => ?_, fun op hmem hop => ?_⟩
  · have htrx := hplain _ (List.mem_of_getElem? hi)
    cases htrx
  · rw [SignedTransaction.leaves_eq, leavesOf_of_leaves hplain] at hmem
    rw [hres op hmem] at hop
    cases hop

/-- A transaction that is accepted has the shape unless it is a result that carries a further
transaction. -/
theorem shaped_iff (P : Primitives) (V : Vm) (p : PendingChainState)
    (skipSignatureCheck skipexec : Bool) (t : SignedTransaction) (s' : EvalState)
    (h : evaluate P V (.init p skipSignatureCheck skipexec) t = .ok s') :
    t.Shaped ↔ t.carriesFurther = false := by
  have hlegal := evaluate_legal h
  refine ⟨fun hshaped => hshaped.carriesFurther, fun hfurther => ?_⟩
  cases hops : t.operations with
  | nil => simp [SignedTransaction.checkOperationsLegality, hops] at hlegal
  | cons first rest =>
    cases hfirst : first.isTransactionOp with
    | false => exact shaped_plain hops hfirst hlegal (evaluate_down hops hfirst rfl h)
    | true =>
      obtain ⟨origin, rfl⟩ : ∃ origin, first = .transaction origin := by
        cases first <;> simp_all [Operation.isTransactionOp]
      refine shaped_result hops hlegal fun op hmem => ?_
      rw [SignedTransaction.carriesFurther, hops] at hfurther
      simpa using List.any_eq_false.1 hfurther op hmem

theorem shaped_theftResult : (theftResult 3).Shaped := by
  have hrun : returns (evaluate .plain .idle (.init (.ofView theftView) false true) (theftResult 3))
      (fun _ => true) = true := by decide +kernel
  obtain ⟨s', hs', -⟩ := exists_of_returns hrun
  exact (shaped_iff .plain .idle (.ofView theftView) false true (theftResult 3) s' hs').2 (by decide)

/-- The result of a call that carries a withdrawal in a transaction of its own. -/
def carryingWithdrawal : SignedTransaction :=
  { SignedTransaction.empty with
    expiration := 100
    operations := [.transaction theftOrigin, .transaction { SignedTransaction.empty with
      expiration := 90
      operations := [.withdraw ⟨6, 4000, []⟩] }]
    resultTrxId := 10003
    resultTrxType := .complete }

/-- It is accepted, also where contracts are executed, though two of its operations wrap a
transaction. -/
theorem carryingWithdrawal_unshaped :
    ∃ s', evaluate .plain .idle (.init (.ofView theftView) true false) carryingWithdrawal = .ok s' ∧
      ¬carryingWithdrawal.Shaped := by
  have hrun : returns (evaluate .plain .idle (.init (.ofView theftView) true false)
      carryingWithdrawal) (fun _ => true) = true := by decide +kernel
  obtain ⟨s', hs', -⟩ := exists_of_returns hrun
  refine ⟨s', hs', fun hshaped => ?_⟩
  exact absurd (hshaped.leads 1 _ rfl).1 (by decide)

end Achain
