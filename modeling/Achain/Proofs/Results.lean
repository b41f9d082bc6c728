import Achain.Proofs.Debits

/-!
# Results and the origin transactions they wrap

A result starts with a transaction operation around an origin transaction of one contract
operation. Evaluating the origin transaction leaves the computed result in `p_result_trx`; the
operations evaluated next are those the result carries. With the VM on, the two are tied by one
comparison: the id of the computed result against a field of the carried one, which nothing binds
to the operations carried.
-/

namespace Achain

open Table Result

variable {P : Primitives} {V : Vm} {s s' : EvalState} {t origin : SignedTransaction}
  {op : Operation} {rest : List Operation}

/-! ## What an evaluation leaves alone -/

/-- The settings of an evaluation are the same. -/
structure SameSettings (s s' : EvalState) : Prop where
  skipSignatureCheck : s'.skipSignatureCheck = s.skipSignatureCheck
  skipexec : s'.skipexec = s.skipexec
  throwExecException : s'.throwExecException = s.throwExecException

theorem SameSettings.refl (s : EvalState) : SameSettings s s := ⟨rfl, rfl, rfl⟩

theorem sameSettings_evalRel :
    EvalRel P V (fun _ => True) (fun _ => (0 : ℕ)) fun _ => SameSettings where
  refl := .refl
  trans h₁ h₂ := ⟨h₂.1.trans h₁.1, h₂.2.trans h₁.2, h₂.3.trans h₁.3⟩
  start h := by
    obtain ⟨-, keys, -, rfl⟩ := EvalState.start_ok h
    exact ⟨rfl, rfl, rfl⟩
  leaf _ _ _ := ⟨rfl, rfl, rfl⟩
  next _ := ⟨rfl, rfl, rfl⟩
  after h := by
    rcases EvalState.afterFirst_ok h with ⟨-, rfl⟩ | ⟨-, -, rfl⟩ <;> exact ⟨rfl, rfl, rfl⟩
  ends s t first := by
    unfold EvalState.endResult
    split_ifs <;> exact ⟨rfl, rfl, rfl⟩
  finish h := by
    obtain ⟨st, -, rfl⟩ := EvalState.finish_ok h
    exact ⟨rfl, rfl, rfl⟩
  request _ _ _ := ⟨rfl, rfl, rfl⟩

theorem evaluate_settings (h : evaluate P V s t = .ok s') : SameSettings s s' :=
  sameSettings_evalRel.evaluate t (fun _ _ => trivial) h

/-! ## Origin transactions -/

/-- A contract operation is one of the five origin operations. -/
theorem Operation.evaluateLeaf_origin {ctx : OpContext} {st st' : OpState}
    (hop : op.isContractOp = true) (h : op.evaluateLeaf P V ctx st = .ok st') :
    OriginEvaluated P ctx st st' := by
  cases op <;> simp only [isContractOp, Bool.false_eq_true] at hop <;>
    simp only [evaluateLeaf] at h
  · exact RegisterContractOperation.evaluate_ok h
  · exact UpgradeContractOperation.evaluate_ok h
  · exact DestroyContractOperation.evaluate_ok h
  · exact CallContractOperation.evaluate_ok h
  · exact TransferContractOperation.evaluate_ok h

theorem Operation.isTransactionOp_of_isContractOp (h : op.isContractOp = true) :
    op.isTransactionOp = false := by
  cases op <;> simp_all [isContractOp, isTransactionOp]

/-- The evaluation of an origin transaction is that of its operation: no fees are collected. -/
theorem evaluate_origin (horigin : origin.operations = [op]) (hop : op.isContractOp = true) :
    evaluate P V s origin = (do
      let s ← s.start P origin
      let st ← op.evaluateLeaf P V s.ctx s.st
      return { s.nextOp with
        st := EvalState.chargeSignatures origin
          { st with currentOpIndex := st.currentOpIndex + 1 } }.storeTransaction P) := by
  have htrx := Operation.isTransactionOp_of_isContractOp hop
  have hignore : origin.ignoresRequiredFee = true := by
    rw [SignedTransaction.ignoresRequiredFee, horigin]
    simp [hop]
  rw [evaluate_cons op [] horigin]
  cases hstart : s.start P origin with
  | error e => rfl
  | ok s₀ =>
    obtain ⟨-, keys, -, rfl⟩ := EvalState.start_ok hstart
    rw [ok_bind, ok_bind, evaluateOperation_leaf htrx]
    cases hleaf : op.evaluateLeaf P V _ _ with
    | error e => rfl
    | ok st =>
      simp only [ok_bind, EvalState.afterFirst, htrx, Bool.false_eq_true, if_false,
        evaluateOperations_nil, EvalState.endResult, EvalState.finish, EvalState.settle, hignore,
        if_true, pure, Except.pure]
      rfl

theorem evaluate_origin_ok (horigin : origin.operations = [op]) (hop : op.isContractOp = true)
    (h : evaluate P V s origin = .ok s') :
    ∃ s₀ st, s.start P origin = .ok s₀ ∧ op.evaluateLeaf P V s₀.ctx s₀.st = .ok st ∧
      s' = { s₀.nextOp with
        st := EvalState.chargeSignatures origin
          { st with currentOpIndex := st.currentOpIndex + 1 } }.storeTransaction P := by
  rw [evaluate_origin horigin hop] at h
  simp only [bind_eq_ok, pure_eq_ok] at h
  obtain ⟨s₀, h₀, st, hst, rfl⟩ := h
  exact ⟨s₀, st, h₀, hst, rfl⟩

/-- Executing an origin transaction builds a result of it. -/
theorem evaluate_origin_result (horigin : origin.operations = [op]) (hop : op.isContractOp = true)
    (hskip : s.skipexec = false) (hblank : Blank s.st.pResultTrx)
    (h : evaluate P V s origin = .ok s') : ResultOf origin origin.expiration s'.st.pResultTrx := by
  obtain ⟨s₀, st, h₀, hst, rfl⟩ := evaluate_origin_ok horigin hop h
  obtain ⟨-, keys, -, rfl⟩ := EvalState.start_ok h₀
  have hresult := (Operation.evaluateLeaf_origin hop hst).result hskip hblank
  obtain ⟨fees, hfees⟩ := EvalState.chargeSignatures_eq origin
    { st with currentOpIndex := st.currentOpIndex + 1 }
  rw [hfees]
  exact hresult

/-! ## Results -/

/-- A legal transaction that starts with a transaction operation wraps one contract operation. -/
theorem legal_wrapped (ht : t.operations = .transaction origin :: rest)
    (h : t.checkOperationsLegality = true) :
    ∃ op, origin.operations = [op] ∧ op.isContractOp = true := by
  rw [SignedTransaction.checkOperationsLegality, ht] at h
  dsimp only at h
  split_ifs at h
  split at h
  · rename_i op hop
    exact ⟨op, hop, h⟩
  · simp at h

theorem start_legal (h : s.start P t = .ok s') : t.checkOperationsLegality = true := by
  obtain ⟨hcheck, -⟩ := EvalState.start_ok h
  simp only [EvalState.checkTransaction, bind_eq_ok, ensure_eq_ok, exists_const] at hcheck
  exact hcheck.2.2.2.2.1

/-- The state in which the operations a result carries are evaluated. -/
def EvalState.carried (P : Primitives) (t origin : SignedTransaction) (s : EvalState) : EvalState :=
  { (storeRequestResult P t.resultTrxId origin s).nextOp with evaluateContractResult := true }

/-- The evaluation of a result: its wrapped transaction, then the operations it carries. -/
theorem evaluate_result_ok (ht : t.operations = .transaction origin :: rest)
    (h : evaluate P V s t = .ok s') :
    ∃ s₀ s₁ s₂, s.start P t = .ok s₀ ∧ evaluate P V s₀ origin = .ok s₁ ∧
      (s.skipexec = false → t.resultTrxId = P.id s₁.st.pResultTrx) ∧
      evaluateOperations P V (s₁.carried P t origin) rest = .ok s₂ ∧
      (s₂.endResult P t (.transaction origin)).1.finish P t
        (s₂.endResult P t (.transaction origin)).2 = .ok s' := by
  rw [evaluate_cons _ rest ht] at h
  simp only [evaluateOperation_transaction, bind_eq_ok, pure_eq_ok] at h
  obtain ⟨s₀, h₀, _, ⟨s₁, h₁, rfl⟩, s₂, h₂, s₃, h₃, hfinish⟩ := h
  obtain ⟨-, keys, -, rfl⟩ := EvalState.start_ok h₀
  rcases EvalState.afterFirst_ok h₂ with ⟨hfalse, -⟩ | ⟨-, hid, rfl⟩
  · simp [Operation.isTransactionOp] at hfalse
  · refine ⟨_, s₁, s₃, h₀, h₁, fun hskip => hid ?_, h₃, hfinish⟩
    exact (evaluate_settings h₁).skipexec.trans hskip

/-! ## The tie between the computed and the carried result -/

/-- The result with the operations of `t`: what an executing node would have computed for `t` to be
its result. -/
def SignedTransaction.asResultOf (t origin : SignedTransaction) : SignedTransaction :=
  { SignedTransaction.empty with
    expiration := origin.expiration
    operations := t.operations }

/-- With the VM on, the operations carried after the first are those of the computed result exactly
when the id the carried result has in its field is that of its own operations. -/
theorem carried_operations_eq_iff (P : Primitives) (V : Vm) (p : PendingChainState)
    (skipSignatureCheck : Bool) (t origin : SignedTransaction) (rest : List Operation)
    (ht : t.operations = .transaction origin :: rest) (_hcomplete : t.resultTrxType = .complete)
    (s' : EvalState) (h : evaluate P V (.init p skipSignatureCheck false) t = .ok s') :
    ∃ s₀ s₁, (EvalState.init p skipSignatureCheck false).start P t = .ok s₀ ∧
      evaluate P V s₀ origin = .ok s₁ ∧
      ((P.trxHash (t.asResultOf origin) = P.trxHash s₁.st.pResultTrx →
          t.asResultOf origin = s₁.st.pResultTrx) →
        (rest = s₁.st.pResultTrx.operations.tail ↔ P.id (t.asResultOf origin) = t.resultTrxId)) := by
  obtain ⟨s₀, s₁, s₂, h₀, h₁, hid, -, -⟩ := evaluate_result_ok ht h
  obtain ⟨op, horigin, hop⟩ := legal_wrapped ht (start_legal h₀)
  have hresult : ResultOf origin origin.expiration s₁.st.pResultTrx := by
    obtain ⟨-, keys, -, rfl⟩ := EvalState.start_ok h₀
    exact evaluate_origin_result horigin hop rfl .empty h₁
  obtain ⟨rest', -, hr⟩ := hresult
  refine ⟨s₀, s₁, h₀, h₁, fun hinj => ?_⟩
  have hidr : t.resultTrxId = P.trxHash s₁.st.pResultTrx := by
    rw [hid rfl, hr]
    rfl
  have hidt : P.id (t.asResultOf origin) = P.trxHash (t.asResultOf origin) := rfl
  rw [hidt, hidr]
  constructor
  · intro hrest
    rw [hr, List.tail_cons] at hrest
    have hsame : t.asResultOf origin = s₁.st.pResultTrx := by
      rw [hr, SignedTransaction.asResultOf, ht, hrest]
    rw [hsame]
  · intro hhash
    rw [← hinj hhash, SignedTransaction.asResultOf, ht, List.tail_cons]

/-- A result of the call of contract 7 that has the id of the computed result and carries other
operations. -/
def forgedResult : SignedTransaction :=
  { SignedTransaction.empty with
    expiration := 100
    operations := [.transaction theftOrigin, .withdrawContract ⟨6, 3000, 0⟩,
      .deposit ⟨1500, ⟨0, 0, .common, .signature 1 none⟩⟩, .onCallSuccess]
    resultTrxType := .complete
    resultTrxId := 10003 }

theorem carried_operations_eq_iff_at_call :
    ∃ (s' s₁ : EvalState),
      evaluate .plain .idle (.init (.ofView theftView) false false) forgedResult = .ok s' ∧
      (forgedResult.operations.tail = s₁.st.pResultTrx.operations.tail ↔
        Primitives.plain.id (forgedResult.asResultOf theftOrigin) = forgedResult.resultTrxId) := by
  have hrun : returns (evaluate .plain .idle (.init (.ofView theftView) false false) forgedResult)
      (fun _ => true) = true := by decide +kernel
  obtain ⟨s', hs', -⟩ := exists_of_returns hrun
  obtain ⟨s₀, s₁, h₀, h₁, hiff⟩ := carried_operations_eq_iff .plain .idle (.ofView theftView) false
    forgedResult theftOrigin forgedResult.operations.tail rfl rfl s' hs'
  refine ⟨s', s₁, hs', hiff fun hhash => ?_⟩
  have hexec : returns (do
      let s₀ ← (EvalState.init (.ofView theftView) false false).start .plain forgedResult
      evaluate .plain .idle s₀ theftOrigin)
      (fun s => Primitives.plain.trxHash s.st.pResultTrx == 10003) = true := by decide +kernel
  rw [h₀, ok_bind, h₁] at hexec
  have hcomputed : Primitives.plain.trxHash s₁.st.pResultTrx = 10003 := by
    simpa [returns] using hexec
  rw [hcomputed] at hhash
  exact absurd hhash (by decide)

/-- The forged result is accepted with the VM on although it carries other operations than the
computed result. -/
theorem forgedResult_accepted :
    ∃ s' s₀ s₁, evaluate .plain .idle (.init (.ofView theftView) false false) forgedResult =
        .ok s' ∧
      (EvalState.init (.ofView theftView) false false).start .plain forgedResult = .ok s₀ ∧
      evaluate .plain .idle s₀ theftOrigin = .ok s₁ ∧
      forgedResult.operations.tail ≠ s₁.st.pResultTrx.operations.tail := by
  have hrun : returns (evaluate .plain .idle (.init (.ofView theftView) false false) forgedResult)
      (fun _ => true) = true := by decide +kernel
  have hexec : returns (do
      let s₀ ← (EvalState.init (.ofView theftView) false false).start .plain forgedResult
      evaluate .plain .idle s₀ theftOrigin)
      (fun s => s.st.pResultTrx.operations.length == 3) = true := by decide +kernel
  obtain ⟨s', hs', -⟩ := exists_of_returns hrun
  obtain ⟨s₁, hs₁, hlength⟩ := exists_of_returns hexec
  rw [bind_eq_ok] at hs₁
  obtain ⟨s₀, h₀, h₁⟩ := hs₁
  refine ⟨s', s₀, s₁, hs', h₀, h₁, fun hsame => ?_⟩
  have htail := congrArg List.length hsame
  rw [List.length_tail, List.length_tail, beq_iff_eq.1 hlength] at htail
  exact absurd htail (by decide)

end Achain
