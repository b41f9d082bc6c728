import Achain.Proofs.Authorization
import Achain.Proofs.Blocks
import Achain.Proofs.Debits

/-!
# Signatures of the transactions of a block

The block path evaluates a transaction with its signature checks off. Where it succeeds, the
evaluation with the checks on succeeds exactly when the transaction is covered: its signatures and
those of the transactions it wraps recover, and each operation finds the signatures it asks for
among the keys recovered so far. The task that is meant to make sure of this before collects the
entries to look at from the member `trx` of an evaluation that has not begun, which is empty, and an
exception in it is dropped; so it never refuses a block.
-/

namespace Achain

open Table Result

variable (P : Primitives) (V : Vm)

mutual

/-- The addresses signed for once a transaction has been evaluated. -/
def keysAfter (keys : List Address) (t : SignedTransaction) : Except Exn (List Address) :=
  match t with
  | ⟨expiration, reserved, alpAccount, alpInportAsset, operations, type, id, signatures⟩ => do
    let keys ← EvalState.recoverKeys P
      ⟨expiration, reserved, alpAccount, alpInportAsset, operations, type, id, signatures⟩ keys
    keysAfterOperations keys operations
termination_by structural t

def keysAfterOperations (keys : List Address) (ops : List Operation) :
    Except Exn (List Address) :=
  match ops with
  | [] => .ok keys
  | op :: ops => do
    let keys ← keysAfterOperation keys op
    keysAfterOperations keys ops
termination_by structural ops

def keysAfterOperation (keys : List Address) (op : Operation) : Except Exn (List Address) :=
  match op with
  | .transaction trx => keysAfter keys trx
  | _ => .ok keys
termination_by structural op

end

mutual

/-- Whether a transaction evaluated with the checks off is covered by its signatures, with some
addresses known before. -/
def covered (s : EvalState) (keys : List Address) (t : SignedTransaction) : Bool :=
  match t with
  | ⟨expiration, reserved, alpAccount, alpInportAsset, operations, type, id, signatures⟩ =>
    let t : SignedTransaction :=
      ⟨expiration, reserved, alpAccount, alpInportAsset, operations, type, id, signatures⟩
    returns (EvalState.recoverKeys P t keys) fun keys => onReturn (s.start P t) fun s =>
      match operations with
      | [] => true
      | first :: rest =>
        coveredOperation s keys first &&
          onReturn (do
            let s ← evaluateOperation P V s first
            s.nextOp.afterFirst P t first) fun s =>
          onReturn (keysAfterOperation P keys first) fun keys => coveredOperations s keys rest
termination_by structural t

def coveredOperations (s : EvalState) (keys : List Address) (ops : List Operation) : Bool :=
  match ops with
  | [] => true
  | op :: ops =>
    coveredOperation s keys op &&
      onReturn (evaluateOperation P V s op) fun s =>
      onReturn (keysAfterOperation P keys op) fun keys => coveredOperations s.nextOp keys ops
termination_by structural ops

def coveredOperation (s : EvalState) (keys : List Address) (op : Operation) : Bool :=
  match op with
  | .transaction trx => covered s keys trx
  | op => op.authorized P (s.ctx.signedBy fun a => decide (a ∈ keys)) s.st
termination_by structural op

end

/-! ## The checked evaluation -/

/-- The same transactions are known. -/
structure SameKnown (p q : PendingTransactions) : Prop where
  digests : q.digests = p.digests
  prevKnown : q.prevKnown = p.prevKnown

/-- The state of the evaluation with the checks on: it knows the addresses signed for, which also
go into the entries it stores. -/
def EvalState.checked (s : EvalState) (keys : List Address) (tr : PendingTransactions) :
    EvalState :=
  { s with skipSignatureCheck := false, signedKeys := keys, transactions := tr }

variable {P V} {s s' s₁ : EvalState} {keys : List Address} {tr : PendingTransactions}
  {t : SignedTransaction} {b d : Bool} {K K' : Except Exn (List Address)}

/-- The checked evaluation leads to the state of the unchecked one if the condition holds, and
throws if not. -/
def Checks (b : Bool) (x : Except Exn EvalState) (K : Except Exn (List Address)) (s' : EvalState) :
    Prop :=
  if b then ∃ keys tr, K = .ok keys ∧ SameKnown s'.transactions tr ∧ x = .ok (s'.checked keys tr)
  else ∃ e, x = .error e

/-- A step that may recover keys, followed by one under a condition on the keys it has left. -/
theorem Checks.seq {x : Except Exn EvalState} {k : EvalState → Except Exn EvalState}
    {c : List Address → Bool} {F : List Address → Except Exn (List Address)}
    (hx : Checks b x K s₁)
    (hk : ∀ keys tr, K = .ok keys → SameKnown s₁.transactions tr →
      Checks (c keys) (k (s₁.checked keys tr)) (F keys) s') :
    Checks (b && onReturn K c) (x >>= k) (K >>= F) s' := by
  cases b with
  | true =>
    obtain ⟨keys, tr, rfl, hknown, rfl⟩ := hx
    exact hk keys tr rfl hknown
  | false =>
    obtain ⟨e, rfl⟩ := hx
    exact ⟨e, rfl⟩

/-- A step that reads no signatures. -/
theorem Checks.step {x : Except Exn EvalState} {k : EvalState → Except Exn EvalState}
    (hx : Checks b x K s₁)
    (hk : ∀ keys tr, SameKnown s₁.transactions tr →
      ∃ tr', SameKnown s'.transactions tr' ∧ k (s₁.checked keys tr) = .ok (s'.checked keys tr')) :
    Checks b (x >>= k) K s' := by
  cases b with
  | true =>
    obtain ⟨keys, tr, hkeys, hknown, rfl⟩ := hx
    obtain ⟨tr', hknown', hk'⟩ := hk keys tr hknown
    exact ⟨keys, tr', hkeys, hknown', hk'⟩
  | false =>
    obtain ⟨e, rfl⟩ := hx
    exact ⟨e, rfl⟩

namespace EvalState

theorem checkTransaction_checked (keys : List Address) (h : SameKnown s.transactions tr) :
    (s.checked keys tr).checkTransaction P t = s.checkTransaction P t := by
  have hknown : tr.isKnownTransaction P t = s.transactions.isKnownTransaction P t := by
    rw [PendingTransactions.isKnownTransaction, h.digests, h.prevKnown]
    rfl
  unfold checkTransaction
  simp only [checked, hknown]
  rfl

/-- The start of a transaction, whose signatures must recover. -/
theorem start_checked {k : EvalState → Except Exn EvalState} {c : List Address → Bool}
    {F : List Address → Except Exn (List Address)} (hknown : SameKnown s.transactions tr)
    (h : s.start P t = .ok s₁)
    (hk : ∀ keys tr, SameKnown s₁.transactions tr →
      Checks (c keys) (k (s₁.checked keys tr)) (F keys) s') :
    Checks (returns (recoverKeys P t keys) c) ((s.checked keys tr).start P t >>= k)
      (recoverKeys P t keys >>= F) s' := by
  obtain ⟨hcheck, keys₁, -, rfl⟩ := start_ok h
  have hcheck' := (checkTransaction_checked keys hknown).trans hcheck
  have hstart : (s.checked keys tr).start P t = (recoverKeys P t keys >>= fun keys =>
      .ok (({ s with trx := t, st := { s.st with currentOpIndex := 0 } } : EvalState).checked
        keys tr)) := by
    rw [start, hcheck', ok_bind]
    rfl
  rw [hstart]
  cases recoverKeys P t keys with
  | error e => exact ⟨e, rfl⟩
  | ok keys => exact hk keys tr hknown

theorem afterFirst_checked {first : Operation} (keys : List Address) (tr : PendingTransactions)
    (h : s.afterFirst P t first = .ok s₁) :
    (s.checked keys tr).afterFirst P t first = .ok (s₁.checked keys tr) ∧
      s₁.transactions = s.transactions := by
  unfold afterFirst at h ⊢
  split_ifs at h ⊢
  · simp only [bind_eq_ok, ensure_eq_ok, exists_const, pure_eq_ok] at h ⊢
    obtain ⟨hid, rfl⟩ := h
    exact ⟨⟨hid, rfl⟩, rfl⟩
  · obtain rfl := ok_eq_ok.1 h
    exact ⟨rfl, rfl⟩

theorem storeTransaction_checked (keys : List Address) (hknown : SameKnown s.transactions tr) :
    ∃ tr', SameKnown (s.storeTransaction P).transactions tr' ∧
      (s.checked keys tr).storeTransaction P = (s.storeTransaction P).checked keys tr' := by
  refine ⟨((s.checked keys tr).storeTransaction P).transactions, ⟨?_, hknown.prevKnown⟩, rfl⟩
  show tr.digests.insert _ = s.transactions.digests.insert _
  rw [hknown.digests]
  rfl

theorem endResult_checked {first : Operation} (keys : List Address)
    (hknown : SameKnown s.transactions tr) :
    ∃ tr', SameKnown (s.endResult P t first).1.transactions tr' ∧
      (s.checked keys tr).endResult P t first =
        ((s.endResult P t first).1.checked keys tr', (s.endResult P t first).2) := by
  unfold endResult
  split_ifs with hfirst htype
  · obtain ⟨tr', hknown', htr'⟩ :=
      storeTransaction_checked (P := P) (s := { s with trx := t }) keys hknown
    refine ⟨tr', hknown', ?_⟩
    have hstore : ({ s.checked keys tr with trx := t } : EvalState).storeTransaction P =
        (({ s with trx := t } : EvalState).storeTransaction P).checked keys tr' := htr'
    simp only [hstore]
    rfl
  · exact ⟨tr, hknown, rfl⟩
  · exact ⟨tr, hknown, rfl⟩

theorem finish_checked {r : SignedTransaction} (keys : List Address)
    (hknown : SameKnown s.transactions tr)
    (h : s.finish P t r = .ok s') :
    ∃ tr', SameKnown s'.transactions tr' ∧
      (s.checked keys tr).finish P t r = .ok (s'.checked keys tr') := by
  obtain ⟨st, hst, rfl⟩ := finish_ok h
  obtain ⟨tr', hknown', htr'⟩ :=
    storeTransaction_checked (P := P) (s := { s with st := st, trx := r }) keys hknown
  refine ⟨tr', hknown', ?_⟩
  rw [finish]
  have hst' : settle P t (chargeSignatures t (s.checked keys tr).st) = .ok st := hst
  rw [hst', ok_bind]
  exact congrArg Except.ok htr'

end EvalState

theorem leaf_checked {op : Operation} {st : OpState} (hskip : s.skipSignatureCheck = true)
    (hknown : SameKnown s.transactions tr) (h : op.evaluateLeaf P V s.ctx s.st = .ok st) :
    Checks (op.authorized P (s.ctx.signedBy fun a => decide (a ∈ keys)) s.st)
      (do
        let st ← op.evaluateLeaf P V (s.checked keys tr).ctx (s.checked keys tr).st
        return { s.checked keys tr with st := st })
      (.ok keys) { s with st := st } := by
  have hctx : s.ctx = s.ctx.unchecked := by
    unfold OpContext.unchecked OpContext.signedBy EvalState.ctx EvalState.checkSignature
    simp only [hskip, Bool.true_or]
  rw [hctx] at h
  have hgated : Gated (op.authorized P (s.ctx.signedBy fun a => decide (a ∈ keys)) s.st)
      (op.evaluateLeaf P V (s.checked keys tr).ctx (s.checked keys tr).st) st :=
    Operation.evaluateLeaf_gated h
  generalize op.authorized P (s.ctx.signedBy fun a => decide (a ∈ keys)) s.st = b at hgated
  cases b with
  | true =>
    refine ⟨keys, tr, rfl, hknown, ?_⟩
    rw [hgated.ok rfl]
    rfl
  | false =>
    obtain ⟨e, he⟩ := hgated
    rw [he]
    exact ⟨e, rfl⟩

/-! ## Whole evaluations -/

theorem evaluateOperation_skips {op : Operation} (hskip : s.skipSignatureCheck = true)
    (h : evaluateOperation P V s op = .ok s') : s'.skipSignatureCheck = true :=
  (sameSettings_evalRel.evaluateOperation op (fun _ _ => trivial) h).skipSignatureCheck.trans hskip

theorem keysAfter_eq (t : SignedTransaction) :
    keysAfter P keys t =
      (EvalState.recoverKeys P t keys >>= fun keys => keysAfterOperations P keys t.operations) := by
  cases t
  simp only [keysAfter]

theorem covered_nil (ht : t.operations = []) (h : s.start P t = .ok s₁) :
    covered P V s keys t = returns (EvalState.recoverKeys P t keys) fun _ => true := by
  obtain ⟨_, _, _, _, operations, _, _, _⟩ := t
  subst ht
  simp only [covered, h, onReturn]

theorem covered_cons {first : Operation} {rest : List Operation} {s₂ s₃ : EvalState}
    (ht : t.operations = first :: rest) (h : s.start P t = .ok s₁)
    (h₂ : evaluateOperation P V s₁ first = .ok s₂)
    (h₃ : s₂.nextOp.afterFirst P t first = .ok s₃) :
    covered P V s keys t = returns (EvalState.recoverKeys P t keys) fun keys =>
      coveredOperation P V s₁ keys first &&
        onReturn (keysAfterOperation P keys first) fun keys => coveredOperations P V s₃ keys rest := by
  obtain ⟨_, _, _, _, operations, _, _, _⟩ := t
  subst ht
  simp only [covered, h, h₂, ok_bind, h₃, onReturn]

theorem keysAfterOperations_cons (op : Operation) (ops : List Operation) :
    keysAfterOperations P keys (op :: ops) =
      (keysAfterOperation P keys op >>= fun keys => keysAfterOperations P keys ops) := by
  simp only [keysAfterOperations]

theorem coveredOperations_cons {op : Operation} {ops : List Operation}
    (h : evaluateOperation P V s op = .ok s₁) :
    coveredOperations P V s keys (op :: ops) = (coveredOperation P V s keys op &&
      onReturn (keysAfterOperation P keys op) fun keys =>
        coveredOperations P V s₁.nextOp keys ops) := by
  simp only [coveredOperations, h, onReturn]

mutual

theorem evaluate_checked : ∀ (t : SignedTransaction) {s s' : EvalState} {keys : List Address}
    {tr : PendingTransactions}, s.skipSignatureCheck = true → SameKnown s.transactions tr →
    evaluate P V s t = .ok s' →
    Checks (covered P V s keys t) (evaluate P V (s.checked keys tr) t) (keysAfter P keys t) s'
  | ⟨e, r, aa, ai, [], ty, id, sg⟩, s, s', keys, tr, hskip, hknown, h => by
    rw [evaluate_nil rfl, bind_eq_ok] at h
    obtain ⟨s₁, h₁, h₂⟩ := h
    rw [evaluate_nil rfl, covered_nil rfl h₁, keysAfter_eq]
    refine EvalState.start_checked hknown h₁ fun keys tr hknown => ?_
    obtain ⟨tr', hknown', hfinish⟩ := EvalState.finish_checked keys hknown h₂
    simp only [keysAfterOperations]
    exact ⟨keys, tr', rfl, hknown', hfinish⟩
  | ⟨e, r, aa, ai, first :: rest, ty, id, sg⟩, s, s', keys, tr, hskip, hknown, h => by
    rw [evaluate_cons first rest rfl] at h
    simp only [bind_eq_ok] at h
    obtain ⟨s₁, h₁, s₂, h₂, s₃, h₃, s₄, h₄, h₅⟩ := h
    have hskip₁ : s₁.skipSignatureCheck = true := by
      obtain ⟨-, _, -, rfl⟩ := EvalState.start_ok h₁
      exact hskip
    have hskip₃ : s₃.skipSignatureCheck = true := by
      have hskip₂ := evaluateOperation_skips hskip₁ h₂
      rcases EvalState.afterFirst_ok h₃ with ⟨-, rfl⟩ | ⟨-, -, rfl⟩ <;> exact hskip₂
    rw [evaluate_cons first rest rfl, covered_cons rfl h₁ h₂ h₃, keysAfter_eq]
    refine EvalState.start_checked hknown h₁ fun keys tr hknown => ?_
    rw [keysAfterOperations_cons]
    refine (evaluateOperation_checked first hskip₁ hknown h₂).seq fun keys tr _ hknown => ?_
    have hknown₃ : SameKnown s₃.transactions tr := by
      rw [(EvalState.afterFirst_checked keys tr h₃).2]
      exact hknown
    have hafter : (s₂.checked keys tr).nextOp.afterFirst P _ first = .ok (s₃.checked keys tr) :=
      (EvalState.afterFirst_checked keys tr h₃).1
    rw [hafter, ok_bind]
    refine (evaluateOperations_checked rest hskip₃ hknown₃ h₄).step fun keys tr hknown => ?_
    obtain ⟨tr₁, hknown₁, hend⟩ := EvalState.endResult_checked keys hknown
    rw [hend]
    exact EvalState.finish_checked keys hknown₁ h₅
termination_by structural t => t

theorem evaluateOperations_checked : ∀ (ops : List Operation) {s s' : EvalState}
    {keys : List Address} {tr : PendingTransactions}, s.skipSignatureCheck = true →
    SameKnown s.transactions tr → evaluateOperations P V s ops = .ok s' →
    Checks (coveredOperations P V s keys ops) (evaluateOperations P V (s.checked keys tr) ops)
      (keysAfterOperations P keys ops) s'
  | [], s, s', keys, tr, _, hknown, h => by
    rw [evaluateOperations_nil] at h
    obtain rfl := ok_eq_ok.1 h
    rw [evaluateOperations_nil]
    simp only [coveredOperations, keysAfterOperations]
    exact ⟨keys, tr, rfl, hknown, rfl⟩
  | op :: ops, s, s', keys, tr, hskip, hknown, h => by
    rw [evaluateOperations_cons, bind_eq_ok] at h
    obtain ⟨s₁, h₁, h₂⟩ := h
    have hskip₁ : s₁.skipSignatureCheck = true := evaluateOperation_skips hskip h₁
    have hskip₂ : s₁.nextOp.skipSignatureCheck = true := hskip₁
    rw [evaluateOperations_cons, coveredOperations_cons h₁, keysAfterOperations_cons]
    refine (evaluateOperation_checked op hskip hknown h₁).seq fun keys tr _ hknown => ?_
    exact evaluateOperations_checked ops hskip₂ hknown h₂
termination_by structural ops => ops

theorem evaluateOperation_checked (op : Operation) {s s' : EvalState} {keys : List Address}
    {tr : PendingTransactions} (hskip : s.skipSignatureCheck = true)
    (hknown : SameKnown s.transactions tr) (h : evaluateOperation P V s op = .ok s') :
    Checks (coveredOperation P V s keys op) (evaluateOperation P V (s.checked keys tr) op)
      (keysAfterOperation P keys op) s' := by
  cases op with
  | transaction trx =>
    rw [evaluateOperation_transaction, bind_eq_ok] at h
    obtain ⟨s₁, h₁, h₂⟩ := h
    obtain rfl := pure_eq_ok.1 h₂
    rw [evaluateOperation_transaction]
    simp only [coveredOperation, keysAfterOperation]
    exact (evaluate_checked trx hskip hknown h₁).step fun keys tr hknown => ⟨tr, hknown, rfl⟩
  | _ =>
    rw [evaluateOperation_leaf rfl, bind_eq_ok] at h
    obtain ⟨st, h₁, h₂⟩ := h
    obtain rfl := pure_eq_ok.1 h₂
    rw [evaluateOperation_leaf rfl]
    simp only [coveredOperation, keysAfterOperation]
    exact leaf_checked hskip hknown h₁
termination_by structural op

end

/-! ## Blocks -/

/-- Where the unchecked evaluation succeeds, the checked one does if and only if the transaction is
covered. -/
theorem evaluate_checked_iff {q : PendingChainState} {e : Bool}
    (h : evaluate P V (.init q true e) t = .ok s') :
    (∃ s'', evaluate P V (.init q false e) t = .ok s'') ↔
      covered P V (.init q true e) [] t = true := by
  have hchecks : Checks (covered P V (.init q true e) [] t) (evaluate P V (.init q false e) t)
      (keysAfter P [] t) s' := evaluate_checked t rfl ⟨rfl, rfl⟩ h
  cases hcov : covered P V (.init q true e) [] t with
  | true =>
    rw [hcov] at hchecks
    obtain ⟨keys, tr, -, -, heval⟩ := hchecks
    exact ⟨fun _ => rfl, fun _ => ⟨_, heval⟩⟩
  | false =>
    rw [hcov] at hchecks
    obtain ⟨exn, heval⟩ := hchecks
    constructor
    · rintro ⟨s'', hs''⟩
      rw [heval] at hs''
      cases hs''
    · intro hfalse
      cases hfalse

/-- A transaction of an accepted block evaluates with the signature checks on, on the pending state
its predecessors lead to, if and only if it is covered there. -/
theorem checked_iff_covered (P : Primitives) (V : Vm) (c : ApplyConfig)
    (_hverify : c.verifyTransactionSignatures = true) (p p' : PendingChainState)
    (before after : List SignedTransaction) (t : SignedTransaction)
    (h : applyTransactions P V c (before ++ t :: after) p = .ok p') :
    ∃ q b e, applyTransactionsFrom P V c 0 before (p, true) = .ok (q, b) ∧ c.skipexec t = .ok e ∧
      ((∃ s', evaluate P V (.init q false e) t = .ok s') ↔
        covered P V (.init q true e) [] t = true) := by
  obtain ⟨b', h⟩ := applyTransactions_ok h
  rw [applyTransactionsFrom_append, bind_eq_ok] at h
  obtain ⟨⟨q, b⟩, hbefore, h⟩ := h
  obtain ⟨_, ⟨happlied⟩, -⟩ := applyTransactionsFrom_cons h
  exact ⟨q, b, happlied.skipexec, hbefore, happlied.skipexec_eq,
    evaluate_checked_iff happlied.evaluated⟩

/-- A node that verifies signatures and has its VM on. -/
def verifyingConfig : ApplyConfig where
  blockNum := 1
  verifyTransactionSignatures := true
  generatingBlock := false
  nodeVmEnabled := .ok true

/-- A transfer from key 2 to key 1 with some signatures. -/
def transferSigned (signatures : List Signature) : SignedTransaction :=
  { SignedTransaction.empty with
    expiration := 100
    operations := [.withdraw ⟨6, 3000, []⟩, .deposit ⟨1500, ⟨0, 0, .common, .signature 1 none⟩⟩]
    signatures := signatures }

theorem checked_iff_covered_at_transfer :
    ∃ p' q b e,
      applyTransactions .plain .idle verifyingConfig [transferSigned [2]] (.ofView theftView) =
        .ok p' ∧
      applyTransactionsFrom .plain .idle verifyingConfig 0 [] (.ofView theftView, true) =
        .ok (q, b) ∧
      ((∃ s', evaluate .plain .idle (.init q false e) (transferSigned [2]) = .ok s') ↔
        covered .plain .idle (.init q true e) [] (transferSigned [2]) = true) := by
  have hrun : returns (applyTransactions .plain .idle verifyingConfig [transferSigned [2]]
      (.ofView theftView)) (fun _ => true) = true := by decide +kernel
  obtain ⟨p', hp', -⟩ := exists_of_returns hrun
  obtain ⟨q, b, e, hq, -, hiff⟩ := checked_iff_covered .plain .idle verifyingConfig rfl
    (.ofView theftView) p' [] [] (transferSigned [2]) hp'
  exact ⟨p', q, b, e, hp', hq, hiff⟩

/-- A block that moves the shares of key 2 without a signature is accepted. -/
theorem unsigned_transfer_accepted :
    ∃ p', applyTransactions .plain .idle verifyingConfig [transferSigned []]
        (.ofView theftView) = .ok p' ∧
      (p'.ledger.getBalance 6).any (·.balance == 2000) = true ∧
      ¬∃ s', evaluate .plain .idle (.init (.ofView theftView) false false) (transferSigned []) =
        .ok s' := by
  have hrun : returns (applyTransactions .plain .idle verifyingConfig [transferSigned []]
      (.ofView theftView)) (fun p' => (p'.ledger.getBalance 6).any (·.balance == 2000)) = true := by
    decide +kernel
  obtain ⟨p', hp', hafter⟩ := exists_of_returns hrun
  have hfails : returns (evaluate .plain .idle (.init (.ofView theftView) false false)
      (transferSigned [])) (fun _ => true) = false := by decide +kernel
  refine ⟨p', hp', hafter, ?_⟩
  rintro ⟨s', hs'⟩
  rw [hs'] at hfails
  cases hfails

end Achain
