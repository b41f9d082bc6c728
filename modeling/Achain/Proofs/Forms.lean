import Achain.Proofs.Settle

/-!
# The complete and the incomplete form of a result

`generate_block` puts a result into a block whole or, above a size limit of the delegate's own, cut
to the origin transaction. The complete form is evaluated by carrying out the operations of the
result and collecting its fees. The cut form is only executed: nothing carries out the operations
of the result it stands for, and its fees are not collected. So the two never agree.
-/

namespace Achain

open Table Result

variable {P : Primitives} {V : Vm} {s s' : EvalState} {t origin : SignedTransaction}
  {op : Operation} {rest : List Operation}

/-! ## The operations of a result -/

theorem carryOperations_sameAssets {ctx : OpContext} {st st' : OpState}
    (hrest : rest.all Operation.isResultOp = true)
    (h : carryOperations P V ctx st rest = .ok st') : SameAssets st.ledger st'.ledger := by
  refine foldlM_rel (R := fun s s' : OpState => SameAssets s.ledger s'.ledger) (fun _ => .refl _)
    (fun _ _ _ => .trans) ?_ h
  intro op hop s s' h
  simp only [carryOperation, bind_eq_ok, pure_eq_ok] at h
  obtain ⟨st, hst, rfl⟩ := h
  have hspares : op.sparesAssets = true := by
    have hres := List.all_eq_true.1 hrest op hop
    cases op <;> first | rfl | cases hres
  have hkept := Operation.evaluateLeaf_sameAssets hspares hst
  exact hkept

theorem carryOperations_writes {ctx : OpContext} {st st' : OpState}
    (h : carryOperations P V ctx st rest = .ok st') : Writes P st.ledger st'.ledger := by
  refine foldlM_rel (R := fun s s' : OpState => Writes P s.ledger s'.ledger) (fun _ => .refl)
    (fun _ _ _ => .trans) ?_ h
  intro op _ s s' h
  simp only [carryOperation, bind_eq_ok, pure_eq_ok] at h
  obtain ⟨st, hst, rfl⟩ := h
  have hwrites := Operation.evaluateLeaf_writes hst
  exact hwrites

theorem evaluate_origin_sameAssets (horigin : origin.operations = [op])
    (hop : op.isContractOp = true) (h : evaluate P V s origin = .ok s') :
    SameAssets s.st.ledger s'.st.ledger := by
  obtain ⟨s₀, st, h₀, hst, rfl⟩ := evaluate_origin_ok horigin hop h
  obtain ⟨-, keys, -, rfl⟩ := EvalState.start_ok h₀
  obtain ⟨fees, hfees⟩ := EvalState.chargeSignatures_eq origin
    { st with currentOpIndex := st.currentOpIndex + 1 }
  have hspares : op.sparesAssets = true := by
    cases op <;> first | rfl | cases hop
  have hledger := Operation.evaluateLeaf_sameAssets hspares hst
  rw [hfees]
  exact hledger

/-! ## The evaluation of a result without nested transactions -/

/-- An evaluation depends on the state it begins in only through its start. -/
theorem evaluate_congr {s₁ s₂ : EvalState} (h : s₁.start P t = s₂.start P t) :
    evaluate P V s₁ t = evaluate P V s₂ t := by
  cases ht : t.operations with
  | nil => rw [evaluate_nil ht, evaluate_nil ht, h]
  | cons first rest => rw [evaluate_cons first rest ht, evaluate_cons first rest ht, h]

/-- With the signatures not checked, wrapping an origin transaction does not change its
evaluation. -/
theorem evaluate_wrapped {s₀ : EvalState} (hskip : s.skipSignatureCheck = true)
    (h : s.start P t = .ok s₀) : evaluate P V s₀ origin = evaluate P V s origin := by
  obtain ⟨-, keys, hkeys, rfl⟩ := EvalState.start_ok h
  have hkeys : keys = s.signedKeys := by
    rw [EvalState.keysWith, if_pos hskip, ok_eq_ok] at hkeys
    exact hkeys.symm
  subst hkeys
  exact evaluate_congr rfl

/-- The state in which the fees of a result are collected. -/
def OpState.closeResult (t : SignedTransaction) (st : OpState) : OpState :=
  EvalState.chargeSignatures t
    { st with pResultTrx := { st.pResultTrx with operations := [] } }

@[simp] theorem OpState.closeResult_ledger (t : SignedTransaction) (st : OpState) :
    (st.closeResult t).ledger = st.ledger := by
  obtain ⟨fees, hfees⟩ := EvalState.chargeSignatures_eq t
    { st with pResultTrx := { st.pResultTrx with operations := [] } }
  rw [closeResult, hfees]

@[simp] theorem OpState.closeResult_balance (t : SignedTransaction) (st : OpState) :
    (st.closeResult t).balance = st.balance := by
  obtain ⟨fees, hfees⟩ := EvalState.chargeSignatures_eq t
    { st with pResultTrx := { st.pResultTrx with operations := [] } }
  rw [closeResult, hfees]

theorem evaluate_result_carry (ht : t.operations = .transaction origin :: rest)
    (hrest : rest.all Operation.isResultOp = true) (hskip : s.skipSignatureCheck = true)
    (h : evaluate P V s t = .ok s') :
    ∃ s₁ st₂, evaluate P V s origin = .ok s₁ ∧
      carryOperations P V (s₁.carried P t origin).ctx (s₁.carried P t origin).st rest = .ok st₂ ∧
      EvalState.settle P t (st₂.closeResult t) = .ok s'.st := by
  obtain ⟨s₀, s₁, s₂, h₀, h₁, -, h₂, hfinish⟩ := evaluate_result_ok ht h
  rw [evaluate_wrapped hskip h₀] at h₁
  have hleaves : ∀ op ∈ rest, op.isTransactionOp = false := fun op hop =>
    Operation.isTransactionOp_of_isResultOp (List.all_eq_true.1 hrest op hop)
  rw [evaluateOperations_eq_carry rest _ hleaves] at h₂
  cases hst₂ : carryOperations P V (s₁.carried P t origin).ctx (s₁.carried P t origin).st rest with
  | error e =>
    rw [hst₂] at h₂
    simp [Functor.map, Except.map] at h₂
  | ok st₂ =>
    rw [hst₂] at h₂
    obtain rfl := ok_eq_ok.1 h₂
    obtain ⟨st₃, hst₃, rfl⟩ := EvalState.finish_ok hfinish
    rw [EvalState.endResult_st rfl] at hst₃
    exact ⟨s₁, st₂, h₁, hst₂, hst₃⟩

/-! ## The two forms -/

/-- The effect of a transaction on the balances, the contracts, the fees and the votes. -/
structure SameEffect (l l' : Ledger) : Prop where
  balances : ∀ id, l'.getBalance id = l.getBalance id
  storages : ∀ id, l'.getStorage id = l.getStorage id
  contracts : ∀ id, l'.getContract id = l.getContract id
  fees : ∀ a, (l'.getAsset a).map AssetEntry.collectedFees =
    (l.getAsset a).map AssetEntry.collectedFees
  votes : ∀ id, (l'.getAccount id).map AccountEntry.netVotes =
    (l.getAccount id).map AccountEntry.netVotes

theorem Ledger.WellKeyed.overlay {p : PendingChainState} (h : p.ledger.WellKeyed P) :
    p.overlay.ledger.WellKeyed P :=
  ⟨h.balance, h.account, h.asset, h.contract⟩

/-- A whole result in which no transaction is nested has its fees checked. -/
theorem ignoresRequiredFee_complete (ht : t.operations = .transaction origin :: rest)
    (hrest : rest.all Operation.isResultOp = true) (htype : t.resultTrxType ≠ .incomplete) :
    t.ignoresRequiredFee = false := by
  rw [SignedTransaction.ignoresRequiredFee, List.any_eq_false]
  intro op hop
  rw [ht, List.mem_cons] at hop
  rcases hop with rfl | hop
  · simp [Operation.isContractOp, Operation.isTransactionOp, htype]
  · have hresult := List.all_eq_true.1 hrest op hop
    simp [Operation.isContractOp_of_isResultOp hresult,
      Operation.isTransactionOp_of_isResultOp hresult]

/-- The evaluation of a whole result adds the tally of the base asset to its fees. -/
theorem evaluate_complete_fees (ht : t.operations = .transaction origin :: rest)
    (hrest : rest.all Operation.isResultOp = true) (htype : t.resultTrxType ≠ .incomplete)
    (horigin : origin.operations = [op]) (hop : op.isContractOp = true)
    (hl : s.st.ledger.WellKeyed P) (hskip : s.skipSignatureCheck = true)
    (hpos : 0 < amountAt s'.st.balance 0) (h : evaluate P V s t = .ok s') :
    ∃ e, s.st.ledger.getAsset 0 = some e ∧
      s'.st.ledger.getAsset 0 = some (e.addFees (amountAt s'.st.balance 0)) := by
  have hignore := ignoresRequiredFee_complete ht hrest htype
  obtain ⟨s₁, st₂, h₁, h₂, hsettle⟩ := evaluate_result_carry ht hrest hskip h
  have horiginAssets := evaluate_origin_sameAssets horigin hop h₁
  have hcarried : SameAssets s.st.ledger (s₁.carried P t origin).st.ledger :=
    horiginAssets.trans ⟨rfl, rfl⟩
  have hassets : SameAssets s.st.ledger (st₂.closeResult t).ledger := by
    rw [OpState.closeResult_ledger]
    exact hcarried.trans (carryOperations_sameAssets hrest h₂)
  have hkeyed : (st₂.closeResult t).ledger.WellKeyed P := by
    rw [OpState.closeResult_ledger]
    refine hl.writes ((evaluate_writes h₁).trans (.trans ?_ (carryOperations_writes h₂)))
    exact (Writes.one (.resultId _ _)).tail (.requestId _ _)
  have hbalance : amountAt s'.st.balance 0 = amountAt (st₂.closeResult t).balance 0 := by
    rcases EvalState.settle_ok hsettle with ⟨htrue, -⟩ | ⟨-, l₁, l₂, -, -, -, hst⟩
    · rw [hignore] at htrue
      exact absurd htrue (by simp)
    · rw [hst]
      exact amountAt_insert_self
  rw [hbalance] at hpos ⊢
  have hsome := settle_isSome hkeyed hignore hsettle hpos
  have hafter := settle_asset hkeyed hignore hsettle 0
  rw [hassets.getAsset] at hsome hafter
  obtain ⟨e, he⟩ := Option.isSome_iff_exists.1 hsome
  refine ⟨e, he, ?_⟩
  rw [hafter, he, if_pos hpos]
  rfl

/-- The frame of a state. -/
def OpState.frame (st : OpState) : Frame :=
  ⟨st.pResultTrx, st.requiredFees, st.contractBalanceRemain, st.ledger.requestIdToResultId,
    st.ledger.resultIdToRequestId⟩

/-- What a result is recorded under makes no difference to its tally. -/
theorem evaluate_result_balance {t' : SignedTransaction} {s'' : EvalState}
    (ht : t.operations = .transaction origin :: rest)
    (ht' : t'.operations = .transaction origin :: rest)
    (hrest : rest.all Operation.isResultOp = true) (htype : t.resultTrxType ≠ .incomplete)
    (htype' : t'.resultTrxType ≠ .incomplete) (hskip : s.skipSignatureCheck = true)
    (h : evaluate P V s t = .ok s') (h' : evaluate P V s t' = .ok s'') :
    amountAt s''.st.balance 0 = amountAt s'.st.balance 0 := by
  obtain ⟨s₁, st₂, h₁, h₂, hsettle⟩ := evaluate_result_carry ht hrest hskip h
  obtain ⟨s₁', st₂', h₁', h₂', hsettle'⟩ := evaluate_result_carry ht' hrest hskip h'
  rw [h₁, ok_eq_ok] at h₁'
  subst h₁'
  have hframe : carryOperations P V (s₁.carried P t' origin).ctx (s₁.carried P t' origin).st rest =
      OpState.reframe (s₁.carried P t' origin).st.frame <$>
        carryOperations P V (s₁.carried P t origin).ctx (s₁.carried P t origin).st rest :=
    carryOperations_reframe (f := (s₁.carried P t' origin).st.frame)
      (s := (s₁.carried P t origin).st) hrest
  rw [h₂, h₂'] at hframe
  obtain rfl := ok_eq_ok.1 hframe
  have hbalance : ∀ {t : SignedTransaction} {s' : EvalState} {st₂ : OpState},
      t.ignoresRequiredFee = false → EvalState.settle P t (st₂.closeResult t) = .ok s'.st →
      amountAt s'.st.balance 0 = amountAt st₂.balance 0 := by
    intro t s' st₂ hignore hsettle
    rcases EvalState.settle_ok hsettle with ⟨htrue, -⟩ | ⟨-, l₁, l₂, -, -, -, hst⟩
    · rw [hignore] at htrue
      exact absurd htrue (by simp)
    · rw [hst, OpState.closeResult_balance]
      exact amountAt_insert_self
  rw [hbalance (ignoresRequiredFee_complete ht hrest htype) hsettle,
    hbalance (ignoresRequiredFee_complete ht' hrest htype') hsettle']
  rfl

/-- The evaluation of a cut result leaves the assets alone. -/
theorem evaluate_incomplete_sameAssets (ht : t.operations = [.transaction origin])
    (htype : t.resultTrxType = .incomplete) (horigin : origin.operations = [op])
    (hop : op.isContractOp = true) (hskip : s.skipSignatureCheck = true)
    (h : evaluate P V s t = .ok s') : SameAssets s.st.ledger s'.st.ledger := by
  obtain ⟨s₁, st₂, h₁, h₂, hsettle⟩ := evaluate_result_carry ht rfl hskip h
  obtain rfl := ok_eq_ok.1 h₂
  have hignore : t.ignoresRequiredFee = true := by
    rw [SignedTransaction.ignoresRequiredFee, ht]
    simp [Operation.isTransactionOp, htype]
  rcases EvalState.settle_ok hsettle with ⟨-, hst⟩ | ⟨hfalse, -⟩
  · have hledger : s'.st.ledger = (s₁.carried P t origin).st.ledger := by
      rw [hst, OpState.closeResult_ledger]
    rw [hledger]
    exact (evaluate_origin_sameAssets horigin hop h₁).trans ⟨rfl, rfl⟩
  · rw [hignore] at hfalse
    exact absurd hfalse (by simp)

theorem evaluate_origin_imessageLength (horigin : origin.operations = [op])
    (hop : op.isContractOp = true) (h : evaluate P V s origin = .ok s') :
    s'.st.imessageLength = s.st.imessageLength := by
  obtain ⟨s₀, st, h₀, hst, rfl⟩ := evaluate_origin_ok horigin hop h
  obtain ⟨-, keys, -, rfl⟩ := EvalState.start_ok h₀
  obtain ⟨fees, hfees⟩ := EvalState.chargeSignatures_eq origin
    { st with currentOpIndex := st.currentOpIndex + 1 }
  have honly := (Operation.evaluateLeaf_origin hop hst).only
  rw [hfees]
  show st.imessageLength = s.st.imessageLength
  rw [honly]

/-- A valid configuration asks for a fee that is positive. -/
theorem DelegateConfig.minFee_pos {c : DelegateConfig} (hc : c.validate = true) :
    0 < c.minFee 0 := by
  simp only [validate, Bool.and_eq_true, decide_eq_true_eq] at hc
  have hmin := hc.1.1.1.2
  rw [minFee, if_neg (by decide)]
  exact Int64.lt_of_lt_of_le (by decide) hmin

/-- The two forms in which a block may carry a result never have the same effect: the complete form
adds the fee to the collected fees of the base asset, the incomplete form adds nothing. -/
theorem forms_never_agree (P : Primitives) (V : Vm) (c : DelegateConfig)
    (hc : c.validate = true) (p : PendingChainState) (hp : p.ledger.WellKeyed P)
    (origin : SignedTransaction) (op : Operation) (horigin : origin.operations = [op])
    (hop : op.isContractOp = true) (s s' sc si : EvalState)
    (h : evaluateOrigin P V p origin = .ok s)
    (h' : evaluateResult P V p s.st.pResultTrx = .ok s')
    (hfee : c.acceptsFee s.st.imessageLength s' = true)
    (hcomplete : evaluate P V (.init p.overlay true true) (completeForm P s.st.pResultTrx) = .ok sc)
    (hincomplete : evaluate P V (.init p.overlay true false) (incompleteForm P s.st.pResultTrx) =
      .ok si) :
    ¬SameEffect sc.st.ledger si.st.ledger := by
  intro hsame
  have hresult : ResultOf origin origin.expiration s.st.pResultTrx :=
    evaluate_origin_result horigin hop rfl .empty h
  have hlength : s.st.imessageLength = 0 := evaluate_origin_imessageLength horigin hop h
  obtain ⟨rest, hrest, hr⟩ := hresult
  rw [hr] at h' hcomplete hincomplete
  have hsamebalance := evaluate_result_balance rfl rfl hrest (by simp [SignedTransaction.empty])
    (by simp [completeForm]) rfl h' hcomplete
  have hpos : 0 < amountAt sc.st.balance 0 := by
    rw [DelegateConfig.acceptsFee, Bool.and_eq_true, hlength, decide_eq_true_eq,
      decide_eq_true_eq] at hfee
    rw [hsamebalance]
    exact Int64.lt_of_lt_of_le (DelegateConfig.minFee_pos hc) hfee.2
  obtain ⟨e, he, hsc⟩ := evaluate_complete_fees rfl hrest (by simp [completeForm]) horigin hop
    hp.overlay rfl hpos hcomplete
  have hsi := evaluate_incomplete_sameAssets rfl rfl horigin hop rfl hincomplete
  have hfees := hsame.fees 0
  have he' : si.st.ledger.getAsset 0 = some e := by
    rw [hsi.getAsset]
    exact he
  rw [hsc, he'] at hfees
  have hzero : e.collectedFees = e.collectedFees + amountAt sc.st.balance 0 := by
    simpa [AssetEntry.addFees] using hfees
  have hno : amountAt sc.st.balance 0 = 0 := by
    simpa using hzero
  rw [hno] at hpos
  exact absurd hpos (by decide)

/-- The least a delegate may ask for. -/
def plainConfig : DelegateConfig where
  blockMaxTransactionCount := 100
  blockMaxSize := 1000
  transactionMaxSize := 1000
  transactionMinFee := defaultRelayFee
  transactionImessageMaxSoftLength := 1000
  transactionImessageMinFeeCoe := minMessageFeeCoe
  transactionBlacklist := []
  operationBlacklist := fun _ => false

/-- The evaluations of `generate_block` and of the two forms, for the call of contract 7. -/
def formsOfCall : Except Exn (EvalState × EvalState × EvalState × EvalState) := do
  let s ← evaluateOrigin .plain .idle (.ofView theftView) theftOrigin
  let s' ← evaluateResult .plain .idle (.ofView theftView) s.st.pResultTrx
  let sc ← evaluate .plain .idle (.init (PendingChainState.ofView theftView).overlay true true)
    (completeForm .plain s.st.pResultTrx)
  let si ← evaluate .plain .idle (.init (PendingChainState.ofView theftView).overlay true false)
    (incompleteForm .plain s.st.pResultTrx)
  return (s, s', sc, si)

theorem formsOfCall_ok {p : EvalState × EvalState × EvalState × EvalState → Bool}
    (h : returns formsOfCall p = true) :
    ∃ s s' sc si, formsOfCall = .ok (s, s', sc, si) ∧
      evaluateOrigin .plain .idle (.ofView theftView) theftOrigin = .ok s ∧
      evaluateResult .plain .idle (.ofView theftView) s.st.pResultTrx = .ok s' ∧
      evaluate .plain .idle (.init (PendingChainState.ofView theftView).overlay true true)
        (completeForm .plain s.st.pResultTrx) = .ok sc ∧
      evaluate .plain .idle (.init (PendingChainState.ofView theftView).overlay true false)
        (incompleteForm .plain s.st.pResultTrx) = .ok si ∧ p (s, s', sc, si) = true := by
  obtain ⟨a, ha, hp⟩ := exists_of_returns h
  have hforms := ha
  simp only [formsOfCall, bind_eq_ok, pure_eq_ok] at hforms
  obtain ⟨s, hs, s', hs', sc, hsc, si, hsi, rfl⟩ := hforms
  exact ⟨s, s', sc, si, ha, hs, hs', hsc, hsi, hp⟩

theorem forms_never_agree_at_call :
    ∃ s s' sc si, formsOfCall = .ok (s, s', sc, si) ∧ ¬SameEffect sc.st.ledger si.st.ledger := by
  have hrun : returns formsOfCall
      (fun a => plainConfig.acceptsFee a.1.st.imessageLength a.2.1) = true := by decide +kernel
  obtain ⟨s, s', sc, si, hforms, hs, hs', hsc, hsi, hfee⟩ := formsOfCall_ok hrun
  refine ⟨s, s', sc, si, hforms, ?_⟩
  exact forms_never_agree .plain .idle plainConfig (by decide) (.ofView theftView)
    theftView_wellKeyed theftOrigin (.callContract theftCall) rfl rfl s s' sc si hs hs' hfee hsc hsi

/-- The complete form of the result of the call adds 1001 shares to the fees and takes them from the
caller, the incomplete form does neither. -/
theorem forms_of_call_differ :
    ∃ s s' sc si, evaluateOrigin .plain .idle (.ofView theftView) theftOrigin = .ok s ∧
      evaluateResult .plain .idle (.ofView theftView) s.st.pResultTrx = .ok s' ∧
      plainConfig.validate = true ∧ plainConfig.acceptsFee s.st.imessageLength s' = true ∧
      evaluate .plain .idle (.init (PendingChainState.ofView theftView).overlay true true)
        (completeForm .plain s.st.pResultTrx) = .ok sc ∧
      evaluate .plain .idle (.init (PendingChainState.ofView theftView).overlay true false)
        (incompleteForm .plain s.st.pResultTrx) = .ok si ∧
      ¬SameEffect sc.st.ledger si.st.ledger := by
  have hrun : returns formsOfCall (fun a =>
      plainConfig.acceptsFee a.1.st.imessageLength a.2.1 &&
        (a.2.2.1.st.ledger.getAsset 0).map AssetEntry.collectedFees == some 1001 &&
        (a.2.2.2.st.ledger.getAsset 0).map AssetEntry.collectedFees == some 0) = true := by
    decide +kernel
  obtain ⟨s, s', sc, si, -, hs, hs', hsc, hsi, hafter⟩ := formsOfCall_ok hrun
  simp only [Bool.and_eq_true, beq_iff_eq] at hafter
  refine ⟨s, s', sc, si, hs, hs', by decide, hafter.1.1, hsc, hsi, fun hsame => ?_⟩
  have hfees := hsame.fees 0
  rw [hafter.1.2, hafter.2] at hfees
  exact absurd hfees (by decide)

end Achain
