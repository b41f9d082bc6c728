import Achain.Proofs.ContractSpecs
import Mathlib.Algebra.BigOperators.Group.List.Basic
import Mathlib.Algebra.FreeMonoid.Basic

/-!
# Induction over an evaluation

An evaluation is a sequence of small steps: the start of a transaction, the operations that are not
wrapped transactions, the steps around the operations of a result, and the end. A relation between
the states before and after that each of these keeps is kept by the whole evaluation, whatever is
wrapped in what.
-/

namespace Achain

open Table Result

mutual

/-- The operations of a transaction at any depth, without the transaction operations. -/
def SignedTransaction.leaves (t : SignedTransaction) : List Operation :=
  match t with
  | ⟨_, _, _, _, operations, _, _, _⟩ => leavesOf operations
termination_by structural t

def leavesOf (ops : List Operation) : List Operation :=
  match ops with
  | [] => []
  | op :: ops => op.leaves ++ leavesOf ops
termination_by structural ops

def Operation.leaves (op : Operation) : List Operation :=
  match op with
  | .transaction trx => trx.leaves
  | op => [op]
termination_by structural op

end

theorem SignedTransaction.leaves_eq (t : SignedTransaction) : t.leaves = leavesOf t.operations := by
  cases t
  simp only [leaves]

theorem Operation.leaves_transaction (trx : SignedTransaction) :
    (Operation.transaction trx).leaves = trx.leaves := by
  simp only [leaves]

theorem Operation.leaves_leaf {op : Operation} (h : op.isTransactionOp = false) :
    op.leaves = [op] := by
  cases op
  case transaction => simp [isTransactionOp] at h
  all_goals simp only [leaves]

theorem leavesOf_cons (op : Operation) (ops : List Operation) :
    leavesOf (op :: ops) = op.leaves ++ leavesOf ops := by
  simp only [leavesOf]

variable {P : Primitives} {V : Vm}

/-! ## One step of an evaluation -/

theorem evaluate_nil {s : EvalState} {t : SignedTransaction} (ht : t.operations = []) :
    evaluate P V s t = (do
      let s ← s.start P t
      s.finish P t t) := by
  obtain ⟨_, _, _, _, operations, _, _, _⟩ := t
  subst ht
  simp only [evaluate]

theorem evaluate_cons {s : EvalState} {t : SignedTransaction} (first : Operation)
    (rest : List Operation) (ht : t.operations = first :: rest) :
    evaluate P V s t = (do
      let s ← s.start P t
      let s ← evaluateOperation P V s first
      let s ← s.nextOp.afterFirst P t first
      let s ← evaluateOperations P V s rest
      (s.endResult P t first).1.finish P t (s.endResult P t first).2) := by
  obtain ⟨_, _, _, _, operations, _, _, _⟩ := t
  subst ht
  simp only [evaluate]

theorem evaluateOperation_transaction {s : EvalState} {trx : SignedTransaction} :
    evaluateOperation P V s (.transaction trx) = (do
      let s' ← evaluate P V s trx
      return storeRequestResult P s.trx.resultTrxId trx s') := by
  simp only [evaluateOperation]

theorem evaluateOperation_leaf {s : EvalState} {op : Operation} (h : op.isTransactionOp = false) :
    evaluateOperation P V s op = (do
      let st ← op.evaluateLeaf P V s.ctx s.st
      return { s with st := st }) := by
  cases op
  case transaction => simp [Operation.isTransactionOp] at h
  all_goals simp only [evaluateOperation]

theorem evaluateOperations_nil {s : EvalState} : evaluateOperations P V s [] = .ok s := by
  simp only [evaluateOperations]

theorem evaluateOperations_cons {s : EvalState} {op : Operation} {ops : List Operation} :
    evaluateOperations P V s (op :: ops) = (do
      let s ← evaluateOperation P V s op
      evaluateOperations P V s.nextOp ops) := by
  simp only [evaluateOperations]

namespace EvalState

variable {s s' : EvalState} {t r : SignedTransaction} {first : Operation} {st st' : OpState}
  {l l' : Ledger}

theorem start_ok (h : s.start P t = .ok s') :
    s.checkTransaction P t = .ok () ∧ ∃ keys, s.keysWith P t = .ok keys ∧
      s' = { s with trx := t, signedKeys := keys, st := { s.st with currentOpIndex := 0 } } := by
  simp only [start, bind_eq_ok, pure_eq_ok] at h
  obtain ⟨_, hcheck, keys, hkeys, rfl⟩ := h
  exact ⟨hcheck, keys, hkeys, rfl⟩

theorem afterFirst_ok (h : s.afterFirst P t first = .ok s') :
    (first.isTransactionOp = false ∧ s' = s) ∨ (first.isTransactionOp = true ∧
      (s.skipexec = false → t.resultTrxId = P.id s.st.pResultTrx) ∧
      s' = { s with evaluateContractResult := true }) := by
  unfold afterFirst at h
  split_ifs at h with hfirst
  · simp only [bind_eq_ok, ensure_eq_ok, pure_eq_ok, exists_const, Bool.or_eq_true,
      beq_iff_eq] at h
    refine .inr ⟨hfirst, fun hskip => ?_, h.2.symm⟩
    simpa [hskip] using h.1
  · rw [ok_eq_ok] at h
    exact .inl ⟨by simpa using hfirst, h.symm⟩

theorem afterFirst_plain (hfirst : first.isTransactionOp = false)
    (h : s.afterFirst P t first = .ok s') : s' = s := by
  obtain ⟨-, hs'⟩ | ⟨htrue, -⟩ := afterFirst_ok h
  · exact hs'
  · rw [hfirst] at htrue
    cases htrue

theorem endResult_ledger : (s.endResult P t first).1.st.ledger = s.st.ledger := by
  unfold endResult
  split_ifs <;> rfl

theorem endResult_st (h : first.isTransactionOp = true) :
    (s.endResult P t first).1.st =
      { s.st with pResultTrx := { s.st.pResultTrx with operations := [] } } := by
  unfold endResult
  rw [if_pos h]
  split_ifs <;> rfl

theorem finish_ok (h : s.finish P t r = .ok s') :
    ∃ st, settle P t (chargeSignatures t s.st) = .ok st ∧
      s' = ({ s with st := st, trx := r }).storeTransaction P := by
  simp only [finish, bind_eq_ok, pure_eq_ok] at h
  obtain ⟨st, hst, rfl⟩ := h
  exact ⟨st, hst, rfl⟩

theorem chargeSignatures_eq (t : SignedTransaction) (st : OpState) :
    ∃ fees, chargeSignatures t st = { st with requiredFees := fees } := by
  unfold chargeSignatures
  dsimp only
  split_ifs
  · exact ⟨_, rfl⟩
  · exact ⟨st.requiredFees, rfl⟩

/-- The evaluation of the tally and of the votes, where it is not left out. -/
theorem settle_ok (h : settle P t st = .ok st') :
    (t.ignoresRequiredFee = true ∧ st' = st) ∨ (t.ignoresRequiredFee = false ∧
      ∃ l₁ l₂, checkTallies { st with balance := st.balance.insert 0 (amountAt st.balance 0) } =
          .ok () ∧
        (mapItems (st.balance.insert 0 (amountAt st.balance 0))).foldlM collectFee st.ledger =
          .ok l₁ ∧
        (P.order.order (mapItems st.delegateVoteDeltas)).foldlM (updateVotes P) l₁ = .ok l₂ ∧
        st' = { st with
          balance := st.balance.insert 0 (amountAt st.balance 0)
          ledger := l₂ }) := by
  unfold settle at h
  split_ifs at h with hignore
  · rw [ok_eq_ok] at h
    exact .inl ⟨hignore, h.symm⟩
  · simp only [postEvaluate, updateDelegateVotes, bind_eq_ok, ensure_eq_ok, pure_eq_ok,
      exists_const] at h
    obtain ⟨_, ⟨_, hcheck, l₁, hl₁, -, rfl⟩, _, -, l₂, hl₂, rfl⟩ := h
    exact .inr ⟨by simpa using hignore, l₁, l₂, hcheck, hl₁, hl₂, rfl⟩

theorem collectFee_ok {item : AssetIdType × ShareType} (h : collectFee l item = .ok l') :
    (¬0 < item.2 ∧ l' = l) ∨ (0 < item.2 ∧ ∃ a, l.getAsset item.1 = some a ∧
      l' = l.storeAsset { a with collectedFees := a.collectedFees + item.2 }) := by
  unfold collectFee at h
  split_ifs at h with hpos
  · simp only [bind_eq_ok, orThrow_eq_ok, pure_eq_ok] at h
    obtain ⟨a, ha, fees, hfees, rfl⟩ := h
    rw [safeAdd_eq_ok hfees]
    exact .inr ⟨hpos, a, ha, rfl⟩
  · rw [ok_eq_ok] at h
    exact .inl ⟨hpos, h.symm⟩

theorem updateVotes_ok {item : AccountIdType × ShareType} (h : updateVotes P l item = .ok l') :
    ∃ a stats, l.getAccount item.1 = some a ∧ a.delegateInfo = some stats ∧
      l' = l.storeAccount P { a with
        delegateInfo := some { stats with votesFor := stats.votesFor + item.2 } } := by
  simp only [updateVotes, bind_eq_ok, orThrow_eq_ok, pure_eq_ok] at h
  obtain ⟨a, ha, stats, hstats, rfl⟩ := h
  exact ⟨a, stats, ha, hstats, rfl⟩

end EvalState

/-! ## Whole evaluations -/

/-- An operation that is not a wrapped transaction, with the state it is evaluated in. -/
abbrev Visit := EvalState × Operation

section Visits

variable (P V)

mutual

/-- What the evaluation of a transaction visits, as far as it gets. -/
def visits (s : EvalState) (t : SignedTransaction) : List Visit :=
  match t with
  | ⟨expiration, reserved, alpAccount, alpInportAsset, operations, type, id, signatures⟩ =>
    let t : SignedTransaction :=
      ⟨expiration, reserved, alpAccount, alpInportAsset, operations, type, id, signatures⟩
    match operations with
    | [] => []
    | first :: rest =>
      orNil (s.start P t) fun s =>
        visitsOperation s first ++
          orNil (evaluateOperation P V s first) fun s =>
            orNil (s.nextOp.afterFirst P t first) fun s => visitsOperations s rest
termination_by structural t

def visitsOperations (s : EvalState) (ops : List Operation) : List Visit :=
  match ops with
  | [] => []
  | op :: ops =>
    visitsOperation s op ++
      orNil (evaluateOperation P V s op) fun s => visitsOperations s.nextOp ops
termination_by structural ops

def visitsOperation (s : EvalState) (op : Operation) : List Visit :=
  match op with
  | .transaction trx => visits s trx
  | op => [(s, op)]
termination_by structural op

end

end Visits

theorem visits_nil {s : EvalState} {t : SignedTransaction} (ht : t.operations = []) :
    visits P V s t = [] := by
  obtain ⟨_, _, _, _, operations, _, _, _⟩ := t
  subst ht
  simp only [visits]

theorem visits_cons {s s₁ s₂ s₃ : EvalState} {t : SignedTransaction} {first : Operation}
    {rest : List Operation} (ht : t.operations = first :: rest) (h₁ : s.start P t = .ok s₁)
    (h₂ : evaluateOperation P V s₁ first = .ok s₂)
    (h₃ : s₂.nextOp.afterFirst P t first = .ok s₃) :
    visits P V s t = visitsOperation P V s₁ first ++ visitsOperations P V s₃ rest := by
  obtain ⟨_, _, _, _, operations, _, _, _⟩ := t
  subst ht
  simp only [visits, h₁, h₂, h₃, orNil_ok]

theorem visitsOperations_cons {s s₁ : EvalState} {op : Operation} {ops : List Operation}
    (h₁ : evaluateOperation P V s op = .ok s₁) :
    visitsOperations P V s (op :: ops) =
      visitsOperation P V s op ++ visitsOperations P V s₁.nextOp ops := by
  simp only [visitsOperations, h₁, orNil_ok]

theorem visitsOperation_leaf {s : EvalState} {op : Operation} (h : op.isTransactionOp = false) :
    visitsOperation P V s op = [(s, op)] := by
  cases op
  case transaction => simp [Operation.isTransactionOp] at h
  all_goals simp only [visitsOperation]

/-- A relation every step of an evaluation keeps, with what is visited between two states. -/
structure VisitRel (P : Primitives) (V : Vm) (R : List Visit → EvalState → EvalState → Prop) :
    Prop where
  refl : ∀ s, R [] s s
  trans : ∀ {a b s₁ s₂ s₃}, R a s₁ s₂ → R b s₂ s₃ → R (a ++ b) s₁ s₃
  start : ∀ {s s' t}, EvalState.start P s t = .ok s' → R [] s s'
  leaf : ∀ {s op st}, op.isTransactionOp = false → op.evaluateLeaf P V s.ctx s.st = .ok st →
    R [(s, op)] s { s with st := st }
  next : ∀ s : EvalState, R [] s s.nextOp
  after : ∀ {s s' t first}, EvalState.afterFirst P s t first = .ok s' → R [] s s'
  ends : ∀ (s : EvalState) t first, R [] s (s.endResult P t first).1
  finish : ∀ {s s' t r}, EvalState.finish P s t r = .ok s' → R [] s s'
  request : ∀ s id trx, R [] s (storeRequestResult P id trx s)

namespace VisitRel

variable {R : List Visit → EvalState → EvalState → Prop}

theorem free_right (hR : VisitRel P V R) {a : List Visit} {s₁ s₂ s₃ : EvalState} (h₁ : R a s₁ s₂)
    (h₂ : R [] s₂ s₃) : R a s₁ s₃ :=
  List.append_nil a ▸ hR.trans h₁ h₂

theorem leafOperation (hR : VisitRel P V R) {op : Operation} {s s' : EvalState}
    (hop : op.isTransactionOp = false) (h : Achain.evaluateOperation P V s op = .ok s') :
    R (visitsOperation P V s op) s s' ∧ (visitsOperation P V s op).map Prod.snd = op.leaves := by
  rw [evaluateOperation_leaf hop, bind_eq_ok] at h
  obtain ⟨st, h₁, h₂⟩ := h
  rw [pure_eq_ok] at h₂
  rw [visitsOperation_leaf hop, Operation.leaves_leaf hop, ← h₂]
  exact ⟨hR.leaf hop h₁, rfl⟩

mutual

/-- The relation holds between the states before and after a transaction that is accepted, and all
its operations have been visited. -/
theorem evaluate (hR : VisitRel P V R) : ∀ (t : SignedTransaction) {s s' : EvalState},
    Achain.evaluate P V s t = .ok s' →
      R (visits P V s t) s s' ∧ (visits P V s t).map Prod.snd = t.leaves
  | ⟨e, r, aa, ai, [], ty, id, sg⟩, s, s', h => by
    rw [evaluate_nil rfl, bind_eq_ok] at h
    obtain ⟨s₁, h₁, h₂⟩ := h
    rw [visits_nil rfl]
    exact ⟨hR.trans (hR.start h₁) (hR.finish h₂), rfl⟩
  | ⟨e, r, aa, ai, first :: rest, ty, id, sg⟩, s, s', h => by
    rw [evaluate_cons first rest rfl] at h
    simp only [bind_eq_ok] at h
    obtain ⟨s₁, h₁, s₂, h₂, s₃, h₃, s₄, h₄, h₅⟩ := h
    obtain ⟨hfirst, hleaf⟩ := hR.evaluateOperation first h₂
    obtain ⟨hrest, hleaves⟩ := hR.evaluateOperations rest h₄
    have hbefore := hR.free_right (hR.trans (hR.start h₁) hfirst)
      (hR.trans (hR.next s₂) (hR.after h₃))
    have hend := hR.free_right (hR.ends s₄ _ first) (hR.finish h₅)
    rw [visits_cons rfl h₁ h₂ h₃, SignedTransaction.leaves_eq, leavesOf_cons, List.map_append,
      hleaf, hleaves]
    exact ⟨hR.trans hbefore (hR.free_right hrest hend), rfl⟩
termination_by structural t => t

theorem evaluateOperations (hR : VisitRel P V R) : ∀ (ops : List Operation) {s s' : EvalState},
    Achain.evaluateOperations P V s ops = .ok s' →
      R (visitsOperations P V s ops) s s' ∧
        (visitsOperations P V s ops).map Prod.snd = leavesOf ops
  | [], s, s', h => by
    rw [evaluateOperations_nil, ok_eq_ok] at h
    simp only [visitsOperations, leavesOf]
    exact ⟨h ▸ hR.refl s, rfl⟩
  | op :: ops, s, s', h => by
    rw [evaluateOperations_cons, bind_eq_ok] at h
    obtain ⟨s₁, h₁, h₂⟩ := h
    obtain ⟨hop, hleaf⟩ := hR.evaluateOperation op h₁
    obtain ⟨hops, hleaves⟩ := hR.evaluateOperations ops h₂
    rw [visitsOperations_cons h₁, leavesOf_cons, List.map_append, hleaf, hleaves]
    exact ⟨hR.trans (hR.free_right hop (hR.next s₁)) hops, rfl⟩
termination_by structural ops => ops

theorem evaluateOperation (hR : VisitRel P V R) (op : Operation) {s s' : EvalState}
    (h : Achain.evaluateOperation P V s op = .ok s') :
    R (visitsOperation P V s op) s s' ∧ (visitsOperation P V s op).map Prod.snd = op.leaves := by
  cases op with
  | transaction trx =>
    rw [evaluateOperation_transaction, bind_eq_ok] at h
    obtain ⟨s₁, h₁, h₂⟩ := h
    rw [pure_eq_ok] at h₂
    obtain ⟨htrx, hleaves⟩ := hR.evaluate trx h₁
    simp only [visitsOperation, Operation.leaves_transaction]
    exact ⟨h₂ ▸ hR.free_right htrx (hR.request s₁ _ trx), hleaves⟩
  | _ => exact hR.leafOperation rfl h
termination_by structural op

end

end VisitRel

/-- A relation every step of an evaluation keeps, for the operations that satisfy `Q`. The relation
may carry a weight, to which each operation adds its own. -/
structure EvalRel (P : Primitives) (V : Vm) {M : Type} [AddMonoid M] (Q : Operation → Prop)
    (w : Operation → M) (R : M → EvalState → EvalState → Prop) : Prop where
  refl : ∀ s, R 0 s s
  trans : ∀ {a b s₁ s₂ s₃}, R a s₁ s₂ → R b s₂ s₃ → R (a + b) s₁ s₃
  start : ∀ {s s' t}, EvalState.start P s t = .ok s' → R 0 s s'
  leaf : ∀ {s op st}, Q op → op.isTransactionOp = false →
    op.evaluateLeaf P V s.ctx s.st = .ok st → R (w op) s { s with st := st }
  next : ∀ s : EvalState, R 0 s s.nextOp
  after : ∀ {s s' t first}, EvalState.afterFirst P s t first = .ok s' → R 0 s s'
  ends : ∀ (s : EvalState) t first, R 0 s (s.endResult P t first).1
  finish : ∀ {s s' t r}, EvalState.finish P s t r = .ok s' → R 0 s s'
  request : ∀ s id trx, R 0 s (storeRequestResult P id trx s)

/-- The weight of a list of operations. -/
def weight {M : Type} [AddMonoid M] (w : Operation → M) (ops : List Operation) : M :=
  (ops.map w).sum

/-- In the free monoid the weight is the operations themselves. -/
theorem weight_of (ops : List Operation) :
    (weight FreeAddMonoid.of ops).toList = ops := by
  induction ops with
  | nil => rfl
  | cons op ops ih => exact congrArg (op :: ·) ih

namespace EvalRel

variable {M : Type} [AddMonoid M] {Q : Operation → Prop} {w : Operation → M}
  {R : M → EvalState → EvalState → Prop}

/-- The operations visited all satisfy `Q`, and carry their weight. -/
theorem visitRel (hR : EvalRel P V Q w R) : VisitRel P V fun tr s s' =>
    (∀ op ∈ tr.map Prod.snd, Q op) → R (weight w (tr.map Prod.snd)) s s' where
  refl s _ := hR.refl s
  trans {a b _ _ _} h h' hQ := by
    rw [List.map_append] at hQ ⊢
    rw [weight, List.map_append, List.sum_append]
    exact hR.trans (h fun op hop => hQ op (List.mem_append_left _ hop))
      (h' fun op hop => hQ op (List.mem_append_right _ hop))
  start h _ := hR.start h
  leaf {s op st} hop h hQ := by
    have hw : weight w [op] = w op := List.sum_singleton
    exact hw.symm ▸ hR.leaf (hQ op (List.mem_singleton_self op)) hop h
  next s _ := hR.next s
  after h _ := hR.after h
  ends s t first _ := hR.ends s t first
  finish h _ := hR.finish h
  request s id trx _ := hR.request s id trx

theorem evaluate (hR : EvalRel P V Q w R) (t : SignedTransaction) {s s' : EvalState}
    (hQ : ∀ op ∈ t.leaves, Q op) (h : Achain.evaluate P V s t = .ok s') :
    R (weight w t.leaves) s s' := by
  obtain ⟨hvisits, hleaves⟩ := hR.visitRel.evaluate t h
  rw [hleaves] at hvisits
  exact hvisits hQ

theorem evaluateOperations (hR : EvalRel P V Q w R) (ops : List Operation) {s s' : EvalState}
    (hQ : ∀ op ∈ leavesOf ops, Q op) (h : Achain.evaluateOperations P V s ops = .ok s') :
    R (weight w (leavesOf ops)) s s' := by
  obtain ⟨hvisits, hleaves⟩ := hR.visitRel.evaluateOperations ops h
  rw [hleaves] at hvisits
  exact hvisits hQ

theorem evaluateOperation (hR : EvalRel P V Q w R) (op : Operation) {s s' : EvalState}
    (hQ : ∀ op' ∈ op.leaves, Q op') (h : Achain.evaluateOperation P V s op = .ok s') :
    R (weight w op.leaves) s s' := by
  obtain ⟨hvisits, hleaves⟩ := hR.visitRel.evaluateOperation op h
  rw [hleaves] at hvisits
  exact hvisits hQ

end EvalRel

/-! ## What an evaluation does to the ledger -/

/-- A relation between ledgers that every write of an evaluation keeps, for the operations that
satisfy `Q`. -/
structure LedgerRel (P : Primitives) (V : Vm) {M : Type} [AddMonoid M] (Q : Operation → Prop)
    (w : Operation → M) (R : M → Ledger → Ledger → Prop) : Prop where
  refl : ∀ l, R 0 l l
  trans : ∀ {a b l₁ l₂ l₃}, R a l₁ l₂ → R b l₂ l₃ → R (a + b) l₁ l₃
  leaf : ∀ {ctx s s' op}, Q op → Operation.evaluateLeaf P V ctx s op = .ok s' →
    R (w op) s.ledger s'.ledger
  fee : ∀ {l l' item}, EvalState.collectFee l item = .ok l' → R 0 l l'
  votes : ∀ {l l' item}, EvalState.updateVotes P l item = .ok l' → R 0 l l'
  request : ∀ (s : EvalState) id trx,
    R 0 s.st.ledger (storeRequestResult P id trx s).st.ledger

namespace LedgerRel

variable {M : Type} [AddMonoid M] {Q : Operation → Prop} {w : Operation → M}
  {R : M → Ledger → Ledger → Prop}

theorem free_trans (hR : LedgerRel P V Q w R) (l₁ l₂ l₃ : Ledger) (h₁ : R 0 l₁ l₂)
    (h₂ : R 0 l₂ l₃) : R 0 l₁ l₃ :=
  add_zero (0 : M) ▸ hR.trans h₁ h₂

theorem settle (hR : LedgerRel P V Q w R) {t : SignedTransaction} {st st' : OpState}
    (h : EvalState.settle P t st = .ok st') : R 0 st.ledger st'.ledger := by
  obtain ⟨-, rfl⟩ | ⟨-, l₁, l₂, -, h₁, h₂, rfl⟩ := EvalState.settle_ok h
  · exact hR.refl _
  · have hfee := foldlM_rel hR.refl hR.free_trans (fun _ _ _ _ => hR.fee) h₁
    have hvotes := foldlM_rel hR.refl hR.free_trans (fun _ _ _ _ => hR.votes) h₂
    exact hR.free_trans _ _ _ hfee hvotes

theorem evalRel (hR : LedgerRel P V Q w R) :
    EvalRel P V Q w fun a s s' => R a s.st.ledger s'.st.ledger where
  refl s := hR.refl _
  trans := hR.trans
  start h := by
    obtain ⟨-, keys, -, rfl⟩ := EvalState.start_ok h
    exact hR.refl _
  leaf hQ _ h := hR.leaf hQ h
  next s := hR.refl _
  after h := by
    obtain ⟨-, rfl⟩ | ⟨-, -, rfl⟩ := EvalState.afterFirst_ok h
    · exact hR.refl _
    · exact hR.refl _
  ends s t first := by
    rw [EvalState.endResult_ledger]
    exact hR.refl _
  finish {s s' t r} h := by
    obtain ⟨st, hst, rfl⟩ := EvalState.finish_ok h
    obtain ⟨fees, hfees⟩ := EvalState.chargeSignatures_eq t s.st
    rw [hfees] at hst
    have hsettle := hR.settle hst
    exact hsettle
  request s id trx := hR.request s id trx

/-- The relation holds between the ledgers before and after a transaction. -/
theorem evaluate (hR : LedgerRel P V Q w R) {t : SignedTransaction} {s s' : EvalState}
    (hQ : ∀ op ∈ t.leaves, Q op) (h : Achain.evaluate P V s t = .ok s') :
    R (weight w t.leaves) s.st.ledger s'.st.ledger :=
  hR.evalRel.evaluate t hQ h

end LedgerRel

end Achain
