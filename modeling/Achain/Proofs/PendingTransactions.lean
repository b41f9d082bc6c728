import Achain.Client
import Achain.Proofs.Evaluation
import Achain.Proofs.Debits

/-!
# A batch and its transactions

What a transaction that is not stored leaves behind is what was there before. A batch ends with the first
transaction that throws, so it stores what its transactions do one by one if none behind that one is
stored. The size that is not looked at in a batch is looked at when a transaction is evaluated.
-/

namespace Achain

open Table Result

variable {P : Primitives} {V : Vm}

/-! ## The size of a transaction -/

theorem evaluate_starts {s s' : EvalState} {t : SignedTransaction} (h : evaluate P V s t = .ok s') :
    ∃ s₀, s.start P t = .ok s₀ := by
  cases hops : t.operations with
  | nil =>
    rw [evaluate_nil hops, bind_eq_ok] at h
    obtain ⟨s₀, hstart, -⟩ := h
    exact ⟨s₀, hstart⟩
  | cons first rest =>
    rw [evaluate_cons first rest hops, bind_eq_ok] at h
    obtain ⟨s₀, hstart, -⟩ := h
    exact ⟨s₀, hstart⟩

/-- An origin transaction that is too large is not evaluated. -/
theorem dataSize_of_evaluate {s s' : EvalState} {t : SignedTransaction}
    (horigin : t.originTrxBasicVerify = true) (h : evaluate P V s t = .ok s') :
    P.dataSize t ≤ maxTrxSize := by
  obtain ⟨s₀, hstart⟩ := evaluate_starts h
  have hcheck := (EvalState.start_ok hstart).1
  simp only [EvalState.checkTransaction, bind_eq_ok, ensure_eq_ok] at hcheck
  obtain ⟨-, -, -, -, -, hsize, -⟩ := hcheck
  simpa [horigin] using hsize

namespace PendingPool

variable {pool pool' : PendingPool} {trx : SignedTransaction} {evalState : Option EvalState}

theorem orPendingExn_eq_ok {α : Type} {x : Except Exn α} {a : α} :
    orPendingExn x = .ok a ↔ x = .ok a := by
  cases x <;> simp [orPendingExn, Except.mapError]

theorem dataSize_of_evaluateTransaction {fee : ShareType} {contractVmExec skip throwExec : Bool}
    {r : EvalState × PendingChainState}
    (h : pool.evaluateTransaction P V trx fee contractVmExec skip throwExec = .ok r) :
    P.dataSize trx ≤ maxTrxSize := by
  rw [evaluateTransaction, bind_eq_ok] at h
  obtain ⟨skipexec, -, h⟩ := h
  rw [bind_eq_ok] at h
  obtain ⟨_, horigin, h⟩ := h
  rw [bind_eq_ok] at h
  obtain ⟨s, hs, -⟩ := h
  exact dataSize_of_evaluate (ensure_eq_ok.1 horigin) (orPendingExn_eq_ok.1 hs)

/-- A transaction is pending already, or it is stored with the others. -/
theorem storePendingTransaction_cases {override contractVmExec cache : Bool}
    (h : pool.storePendingTransaction P V trx override contractVmExec cache =
      .ok (evalState, pool')) :
    P.id trx ∈ pool.pendingTransactionDb ∧ evalState = none ∧ pool' = pool ∨
      P.id trx ∉ pool.pendingTransactionDb ∧ evalState.isSome = true ∧
        P.dataSize trx ≤ maxTrxSize ∧
        pool'.pendingTransactionDb = pool.pendingTransactionDb.insert (P.id trx) trx := by
  unfold storePendingTransaction at h
  dsimp only at h
  split_ifs at h with hmem
  · simp only [Except.ok.injEq, Prod.mk.injEq] at h
    exact .inl ⟨hmem, h.1.symm, h.2.symm⟩
  · rw [bind_eq_ok] at h
    obtain ⟨r, hr, h⟩ := h
    simp only [pure_eq_ok, Prod.mk.injEq] at h
    obtain ⟨rfl, rfl⟩ := h
    exact .inr ⟨hmem, rfl, dataSize_of_evaluateTransaction hr, rfl⟩

end PendingPool

namespace Client

variable {c c' : Client} {trx : SignedTransaction} {accepted : Bool} {e : ClientExn}

/-! ## One transaction -/

theorem onNewTransaction_cases (h : c.onNewTransaction P V trx = (c', .ok accepted)) :
    accepted = false ∧ c' = c ∨
      accepted = true ∧ c'.clientQuit = c.clientQuit ∧ P.dataSize trx ≤ maxTrxSize ∧
        P.id trx ∉ c.chainDb.pendingTransactionDb ∧
        c'.chainDb.pendingTransactionDb = c.chainDb.pendingTransactionDb.insert (P.id trx) trx := by
  unfold onNewTransaction at h
  split at h
  · rename_i evalState chainDb hstore
    simp only [Prod.mk.injEq, Except.ok.injEq] at h
    obtain ⟨rfl, rfl⟩ := h
    obtain ⟨-, rfl, rfl⟩ | ⟨hnew, hsome, hsize, hdb⟩ :=
      PendingPool.storePendingTransaction_cases hstore
    · exact .inl ⟨rfl, rfl⟩
    · exact .inr ⟨hsome, rfl, hsize, hnew, hdb⟩
  · simp at h

theorem onNewTransaction_error (h : c.onNewTransaction P V trx = (c', .error e)) : c' = c := by
  unfold onNewTransaction at h
  split at h
  · simp at h
  · exact (congrArg Prod.fst h).symm

variable (P V) (garbage : Bool)

/-- The transactions handled as messages of their own: where this leads and which of them are accepted. -/
def oneByOne (c : Client) : List SignedTransaction → Client × List Bool
  | [] => (c, [])
  | trx :: trxVec =>
    let r := c.handleMessage P V garbage (.trx trx)
    let rest := oneByOne r.1 trxVec
    (rest.1, returns r.2 id :: rest.2)

/-- No transaction behind the first one that throws is accepted on its own. -/
def NoneBehindThrow (c : Client) : List SignedTransaction → Prop
  | [] => True
  | trx :: trxVec =>
    match c.onNewTransaction P V trx with
    | (c, .ok _) => NoneBehindThrow c trxVec
    | (c, .error _) => ∀ accepted ∈ (c.oneByOne P V garbage trxVec).2, accepted = false

/-- What is pending. -/
def pendingSet (c : Client) :
    Tab TransactionIdType SignedTransaction × Map (ShareType × TransactionIdType) EvalState :=
  (c.chainDb.pendingTransactionDb, c.chainDb.pendingFeeIndex)

variable {P V garbage}

/-- A message is handled like a transaction of a batch, if that does not throw. -/
theorem handleMessage_of_ok (hquit : c.clientQuit = false)
    (h : c.onNewTransaction P V trx = (c', .ok accepted)) :
    c.handleMessage P V garbage (.trx trx) = (c', .ok accepted) := by
  rw [handleMessage, hquit, if_neg Bool.false_ne_true]
  dsimp only
  obtain ⟨rfl, rfl⟩ | ⟨-, -, hsize, -⟩ := onNewTransaction_cases h
  · split_ifs
    · rfl
    · rw [h]
      rfl
  · rw [if_neg (Nat.not_lt.2 hsize), h]
    rfl

/-- A transaction that throws in a batch is refused on its own, for its size or with an exception. -/
theorem handleMessage_of_error (hquit : c.clientQuit = false)
    (h : c.onNewTransaction P V trx = (c', .error e)) :
    (c.handleMessage P V garbage (.trx trx)).1 = c ∧
      returns (c.handleMessage P V garbage (.trx trx)).2 id = false := by
  rw [handleMessage, hquit, if_neg Bool.false_ne_true]
  dsimp only
  split_ifs
  · exact ⟨rfl, rfl⟩
  · rw [h, onNewTransaction_error h]
    exact ⟨rfl, rfl⟩

/-- What a message with a transaction may do: nothing, or store the transaction and accept it. -/
theorem handleMessage_cases (P : Primitives) (V : Vm) (garbage : Bool) (trx : SignedTransaction)
    (hquit : c.clientQuit = false) :
    (c.handleMessage P V garbage (.trx trx)).1 = c ∧
        returns (c.handleMessage P V garbage (.trx trx)).2 id = false ∨
      (c.handleMessage P V garbage (.trx trx)).1.clientQuit = false ∧
        returns (c.handleMessage P V garbage (.trx trx)).2 id = true ∧
        P.id trx ∉ c.chainDb.pendingTransactionDb ∧
        P.id trx ∈ (c.handleMessage P V garbage (.trx trx)).1.chainDb.pendingTransactionDb ∧
        ∀ id ∈ c.chainDb.pendingTransactionDb,
          id ∈ (c.handleMessage P V garbage (.trx trx)).1.chainDb.pendingTransactionDb := by
  cases hr : c.onNewTransaction P V trx with
  | mk c' result =>
    cases result with
    | error e => exact .inl (handleMessage_of_error hquit hr)
    | ok accepted =>
      rw [handleMessage_of_ok hquit hr]
      obtain ⟨rfl, rfl⟩ | ⟨rfl, hquit', -, hnew, hdb⟩ := onNewTransaction_cases hr
      · exact .inl ⟨rfl, rfl⟩
      · refine .inr ⟨hquit'.trans hquit, rfl, hnew, ?_, fun id hid => ?_⟩
        · rw [hdb]
          exact Finmap.mem_insert.2 (.inl rfl)
        · rw [hdb]
          exact Finmap.mem_insert.2 (.inr hid)

/-! ## The transactions one by one -/

theorem oneByOne_cons (trxVec : List SignedTransaction) :
    c.oneByOne P V garbage (trx :: trxVec) =
      (((c.handleMessage P V garbage (.trx trx)).1.oneByOne P V garbage trxVec).1,
        returns (c.handleMessage P V garbage (.trx trx)).2 id ::
          ((c.handleMessage P V garbage (.trx trx)).1.oneByOne P V garbage trxVec).2) := rfl

theorem mem_pendingTransactionDb_oneByOne (hquit : c.clientQuit = false) {id : TransactionIdType}
    (h : id ∈ c.chainDb.pendingTransactionDb) (trxVec : List SignedTransaction) :
    id ∈ (c.oneByOne P V garbage trxVec).1.chainDb.pendingTransactionDb := by
  induction trxVec generalizing c with
  | nil => exact h
  | cons trx trxVec ih =>
    rw [oneByOne_cons]
    obtain ⟨hsame, -⟩ | ⟨hquit', -, -, -, hkept⟩ := handleMessage_cases P V garbage trx hquit
    · rw [hsame]
      exact ih hquit h
    · exact ih hquit' (hkept id h)

/-- Transactions that are all refused leave the client as it is. -/
theorem oneByOne_of_refused (hquit : c.clientQuit = false) {trxVec : List SignedTransaction}
    (h : ∀ accepted ∈ (c.oneByOne P V garbage trxVec).2, accepted = false) :
    (c.oneByOne P V garbage trxVec).1 = c := by
  induction trxVec with
  | nil => rfl
  | cons trx trxVec ih =>
    rw [oneByOne_cons] at h ⊢
    rw [List.forall_mem_cons] at h
    obtain ⟨hsame, -⟩ | ⟨-, haccepted, -⟩ := handleMessage_cases P V garbage trx hquit
    · rw [hsame] at h ⊢
      exact ih h.2
    · exact absurd (haccepted.symm.trans h.1) (by decide)

/-- What is pending stays the same only if every transaction is refused. -/
theorem refused_of_pendingTransactionDb_eq (hquit : c.clientQuit = false)
    {trxVec : List SignedTransaction}
    (h : (c.oneByOne P V garbage trxVec).1.chainDb.pendingTransactionDb =
      c.chainDb.pendingTransactionDb) :
    ∀ accepted ∈ (c.oneByOne P V garbage trxVec).2, accepted = false := by
  induction trxVec with
  | nil => exact fun _ hmem => absurd hmem List.not_mem_nil
  | cons trx trxVec ih =>
    rw [oneByOne_cons] at h ⊢
    obtain ⟨hsame, hrefused⟩ | ⟨hquit', -, hnew, hstored, -⟩ :=
      handleMessage_cases P V garbage trx hquit
    · rw [hsame] at h ⊢
      exact List.forall_mem_cons.2 ⟨hrefused, ih h⟩
    · refine absurd ?_ hnew
      rw [← h]
      exact mem_pendingTransactionDb_oneByOne hquit' hstored trxVec

/-! ## A batch -/

/-- A batch leaves what its transactions leave one by one, if those behind a throw are refused. -/
theorem pendingSet_onNewTransactions_iff (hquit : c.clientQuit = false) (result : Bool)
    (trxVec : List SignedTransaction) :
    (c.onNewTransactions P V result trxVec).1.pendingSet =
        (c.oneByOne P V garbage trxVec).1.pendingSet ↔
      c.NoneBehindThrow P V garbage trxVec := by
  induction trxVec generalizing c result with
  | nil => exact iff_of_true rfl trivial
  | cons trx trxVec ih =>
    rw [onNewTransactions, NoneBehindThrow, oneByOne_cons]
    cases hr : c.onNewTransaction P V trx with
    | mk c' outcome =>
      cases outcome with
      | ok accepted =>
        rw [handleMessage_of_ok hquit hr]
        refine ih ?_ _
        obtain ⟨-, rfl⟩ | ⟨-, hquit', -⟩ := onNewTransaction_cases hr
        · exact hquit
        · exact hquit'.trans hquit
      | error e =>
        obtain rfl := onNewTransaction_error hr
        rw [(handleMessage_of_error hquit hr).1]
        constructor
        · exact fun h => refused_of_pendingTransactionDb_eq hquit (congrArg Prod.fst h).symm
        · exact fun h => congrArg pendingSet (oneByOne_of_refused hquit h).symm

variable (garbage) in
/-- A batch reports what it started with if each of its transactions is accepted. -/
theorem returns_onNewTransactions_iff (hquit : c.clientQuit = false) (result : Bool)
    (trxVec : List SignedTransaction) :
    returns (c.onNewTransactions P V result trxVec).2 id = true ↔
      result = true ∧ ∀ accepted ∈ (c.oneByOne P V garbage trxVec).2, accepted = true := by
  induction trxVec generalizing c result with
  | nil => exact (and_iff_left fun _ hmem => absurd hmem List.not_mem_nil).symm
  | cons trx trxVec ih =>
    rw [onNewTransactions, oneByOne_cons, List.forall_mem_cons]
    cases hr : c.onNewTransaction P V trx with
    | mk c' outcome =>
      cases outcome with
      | ok accepted =>
        have hquit' : c'.clientQuit = false := by
          obtain ⟨-, rfl⟩ | ⟨-, hquit', -⟩ := onNewTransaction_cases hr
          · exact hquit
          · exact hquit'.trans hquit
        rw [handleMessage_of_ok hquit hr]
        exact (ih hquit' _).trans (by rw [Bool.and_eq_true, and_assoc]; rfl)
      | error e =>
        rw [(handleMessage_of_error hquit hr).2]
        refine iff_of_false Bool.false_ne_true ?_
        rintro ⟨-, hfalse, -⟩
        exact Bool.false_ne_true hfalse

variable (garbage) in
theorem oneByOne_of_clientQuit (hquit : c.clientQuit = true) (trxVec : List SignedTransaction) :
    (c.oneByOne P V garbage trxVec).1 = c ∧
      ∀ accepted ∈ (c.oneByOne P V garbage trxVec).2, accepted = true := by
  induction trxVec with
  | nil => exact ⟨rfl, fun _ hmem => absurd hmem List.not_mem_nil⟩
  | cons trx trxVec ih =>
    have hmessage : c.handleMessage P V garbage (.trx trx) = (c, .ok true) := by
      rw [handleMessage, if_pos hquit]
    rw [oneByOne_cons, hmessage, List.forall_mem_cons]
    exact ⟨ih.1, rfl, ih.2⟩

/-- A batch comes to what its transactions come to one by one if the client is quitting, or if none behind
a throw is accepted and the result is true from the start where all are. -/
theorem batch_eq_oneByOne_iff (P : Primitives) (V : Vm) (garbage : Bool) (c : Client)
    (trxVec : List SignedTransaction) :
    (c.handleMessage P V garbage (.batchTrx trxVec)).1.pendingSet =
          (c.oneByOne P V garbage trxVec).1.pendingSet ∧
        (returns (c.handleMessage P V garbage (.batchTrx trxVec)).2 id = true ↔
          ∀ accepted ∈ (c.oneByOne P V garbage trxVec).2, accepted = true) ↔
      c.clientQuit = true ∨ c.NoneBehindThrow P V garbage trxVec ∧
        ((∀ accepted ∈ (c.oneByOne P V garbage trxVec).2, accepted = true) → garbage = true) := by
  by_cases hquit : c.clientQuit = true
  · obtain ⟨hsame, haccepted⟩ :=
      oneByOne_of_clientQuit (P := P) (V := V) garbage hquit trxVec
    rw [handleMessage, if_pos hquit, hsame]
    exact iff_of_true ⟨rfl, iff_of_true rfl haccepted⟩ (.inl hquit)
  · have hrun := Bool.eq_false_of_not_eq_true hquit
    have hmessage : (c.handleMessage P V garbage (.batchTrx trxVec)).1 =
        (c.onNewTransactions P V garbage trxVec).1 ∧
        returns (c.handleMessage P V garbage (.batchTrx trxVec)).2 id =
          returns (c.onNewTransactions P V garbage trxVec).2 id := by
      rw [handleMessage, if_neg hquit]
      refine ⟨rfl, ?_⟩
      dsimp only
      cases (c.onNewTransactions P V garbage trxVec).2 <;> rfl
    rw [hmessage.1, hmessage.2, pendingSet_onNewTransactions_iff hrun,
      returns_onNewTransactions_iff garbage hrun, or_iff_right hquit]
    refine and_congr_right fun _ => ?_
    constructor
    · exact fun h haccepted => (h.2 haccepted).1
    · exact fun h => ⟨And.right, fun haccepted => ⟨h haccepted, haccepted⟩⟩

/-- A client without pending transactions. -/
def idle : Client where
  clientQuit := false
  syncMode := false
  isInSandbox := false
  chainDb :=
    { pendingTrxState := .ofView theftView
      pendingTransactionDb := ∅
      pendingFeeIndex := ∅
      relayFee := defaultRelayFee
      generatingBlock := false
      nodeVmEnabled := .ok false }

/-- Key 1 withdraws a fee. -/
def feePayment (expiration : TimePointSec) : SignedTransaction :=
  { SignedTransaction.empty with
    expiration := expiration
    operations := [.withdraw ⟨3, 2000, []⟩]
    signatures := [1] }

/-- Behind an expired transaction, one that is accepted on its own is not stored. -/
theorem batch_drops_feePayment :
    (idle.handleMessage .plain .idle true (.batchTrx [feePayment 40, feePayment 100])).1.pendingSet ≠
      (idle.oneByOne .plain .idle true [feePayment 40, feePayment 100]).1.pendingSet := by
  intro h
  have hbatch : 10001 ∉ (idle.handleMessage .plain .idle true
      (.batchTrx [feePayment 40, feePayment 100])).1.chainDb.pendingTransactionDb := by
    decide +kernel
  have hstored : 10001 ∈ (idle.oneByOne .plain .idle true
      [feePayment 40, feePayment 100]).1.chainDb.pendingTransactionDb := by
    decide +kernel
  rw [pendingSet, pendingSet, Prod.mk.injEq] at h
  exact hbatch (h.1 ▸ hstored)

end Client

end Achain
