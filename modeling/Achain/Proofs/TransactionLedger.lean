import Achain.Proofs.Moves
import Mathlib.Data.List.GetD

/-!
# The ledger of a transaction

Through the whole evaluation of a transaction, whatever it wraps, the balance of an asset is what
was withdrawn less what was deposited, and the negated sum of the deltas. The deltas are kept by
operation index. The evaluation of a wrapped transaction starts the index again at 0 and leaves it
where it ends, so that the operations after it are recorded one index late.
-/

namespace Achain

open Table Result

variable {P : Primitives} {V : Vm}

/-! ## Operations -/

section Leaves

variable {ctx : OpContext} {s s' : OpState}

theorem BalancesWithdrawOperation.recorded {op : BalancesWithdrawOperation}
    (h : op.evaluate P ctx s = .ok s') : ∃ m, Recorded m s s' := by
  refine foldlM_rel (R := fun s s' : OpState => ∃ m, Recorded m s s') ?_ ?_ ?_
    (BalancesWithdrawOperation.evaluate_ok h).2
  · exact fun s => ⟨0, SameTally.recorded ⟨rfl, rfl, rfl, rfl, rfl⟩⟩
  · rintro s₁ s₂ s₃ ⟨m, h₁⟩ ⟨m', h₂⟩
    exact ⟨m + m', h₁.trans h₂⟩
  · intro item _ s₁ s₂ hone
    obtain ⟨_, _, -, -, -, -, -, -, -, -, hrecorded⟩ := withdrawOne_ok hone
    exact ⟨_, hrecorded⟩

theorem OnDestroyOperation.recorded {op : OnDestroyOperation}
    (h : op.evaluate P ctx s = .ok s') : ∃ m, Recorded m s s' := by
  obtain ⟨-, e, s₁, -, hmove, rfl⟩ := OnDestroyOperation.evaluate_ok h
  obtain ⟨-, rfl⟩ | ⟨_, _, _, _, -, -, -, -, -, -, -, -, -, hrecorded⟩ := move_ok hmove
  · exact ⟨0, SameTally.recorded ⟨rfl, rfl, rfl, rfl, rfl⟩⟩
  · exact ⟨_, hrecorded.same_right ⟨rfl, rfl, rfl, rfl, rfl⟩⟩

/-- An operation that is not a wrapped transaction records what it moves under the current index. -/
theorem Operation.evaluateLeaf_recorded {op : Operation} (h : op.evaluateLeaf P V ctx s = .ok s') :
    ∃ m, Recorded m s s' := by
  by_cases hop : op.movesShares = false
  · exact ⟨0, (Operation.evaluateLeaf_sameTally hop h).recorded⟩
  cases op <;> simp only [movesShares, Bool.true_eq_false, not_true_eq_false] at hop <;>
    simp only [evaluateLeaf] at h
  case withdraw op =>
    obtain ⟨_, _, -, -, -, -, -, -, hrecorded⟩ := WithdrawOperation.evaluate_ok h
    exact ⟨_, hrecorded⟩
  case deposit op =>
    obtain ⟨_, _, -, -, -, -, -, -, -, hrecorded⟩ := DepositOperation.evaluate_ok h
    exact ⟨_, hrecorded⟩
  case withdrawPay op =>
    obtain ⟨_, _, -, -, -, -, -, hrecorded⟩ := WithdrawPayOperation.evaluate_ok h
    exact ⟨_, hrecorded⟩
  case issueAsset op =>
    obtain ⟨_, _, -, -, -, -, -, -, -, -, -, -, hrecorded⟩ := IssueAssetOperation.evaluate_ok h
    exact ⟨_, hrecorded⟩
  case withdrawContract op =>
    obtain ⟨_, -, -, -, -, -, -, -, hrecorded⟩ := WithdrawContractOperation.evaluate_ok h
    exact ⟨_, hrecorded⟩
  case depositContract op =>
    obtain ⟨_, _, -, -, -, -, -, -, -, hrecorded⟩ := DepositContractOperation.evaluate_ok h
    exact ⟨_, hrecorded⟩
  case balancesWithdraw op => exact BalancesWithdrawOperation.recorded h
  case onDestroy op => exact OnDestroyOperation.recorded h

end Leaves

/-! ## Balanced ledgers -/

/-- The balance is what was withdrawn less what was deposited, and the negated sum of the deltas. -/
def OpState.Balanced (s : OpState) : Prop :=
  ∀ a, s.balanceOf a = s.withdrawnOf a ∧ s.balanceOf a = -s.deltaSum a

/-- The amounts of the tally are the same; the operation index may differ. -/
structure SameBooks (s s' : OpState) : Prop where
  balance : ∀ a, amountAt s'.balance a = amountAt s.balance a
  withdraws : s'.withdraws = s.withdraws
  deposits : s'.deposits = s.deposits
  deltas : s'.deltas = s.deltas

section Books

variable {s s' s'' : OpState}

theorem SameBooks.refl (s : OpState) : SameBooks s s := ⟨fun _ => rfl, rfl, rfl, rfl⟩

theorem SameBooks.trans (h : SameBooks s s') (h' : SameBooks s' s'') : SameBooks s s'' where
  balance a := (h'.balance a).trans (h.balance a)
  withdraws := h'.withdraws.trans h.withdraws
  deposits := h'.deposits.trans h.deposits
  deltas := h'.deltas.trans h.deltas

theorem SameTally.sameBooks (h : SameTally s s') : SameBooks s s' where
  balance _ := by rw [h.balance]
  withdraws := h.withdraws
  deposits := h.deposits
  deltas := h.deltas

theorem SameBooks.balanceOf (h : SameBooks s s') (a : AssetIdType) :
    s'.balanceOf a = s.balanceOf a := by
  rw [OpState.balanceOf, h.balance]
  rfl

theorem SameBooks.deltaOf (h : SameBooks s s') (i : Nat) (a : AssetIdType) :
    s'.deltaOf i a = s.deltaOf i a := by
  rw [OpState.deltaOf, h.deltas]
  rfl

theorem OpState.Balanced.sameBooks (h : s.Balanced) (h' : SameBooks s s') : s'.Balanced := by
  intro a
  rw [h'.balanceOf, OpState.withdrawnOf, OpState.deltaSum, h'.withdraws, h'.deposits, h'.deltas]
  exact h a

theorem OpState.Balanced.recorded {m : Movement} (h : s.Balanced) (h' : Recorded m s s') :
    s'.Balanced := by
  intro a
  obtain ⟨hwithdrawn, hsum⟩ := h a
  rw [h'.balance, h'.withdrawn, h'.sum, ← hwithdrawn, hsum]
  exact ⟨rfl, by omega⟩

end Books

section Steps

variable {s s' : EvalState} {t r : SignedTransaction} {first : Operation}

theorem start_sameBooks (h : s.start P t = .ok s') : SameBooks s.st s'.st := by
  obtain ⟨-, keys, -, rfl⟩ := EvalState.start_ok h
  exact ⟨fun _ => rfl, rfl, rfl, rfl⟩

theorem nextOp_sameBooks (s : EvalState) : SameBooks s.st s.nextOp.st :=
  ⟨fun _ => rfl, rfl, rfl, rfl⟩

theorem afterFirst_sameBooks (h : s.afterFirst P t first = .ok s') : SameBooks s.st s'.st := by
  obtain ⟨-, rfl⟩ | ⟨-, -, rfl⟩ := EvalState.afterFirst_ok h <;> exact ⟨fun _ => rfl, rfl, rfl, rfl⟩

theorem endResult_sameBooks (s : EvalState) (t : SignedTransaction) (first : Operation) :
    SameBooks s.st (s.endResult P t first).1.st := by
  unfold EvalState.endResult
  split_ifs <;> exact ⟨fun _ => rfl, rfl, rfl, rfl⟩

theorem finish_sameBooks (h : s.finish P t r = .ok s') : SameBooks s.st s'.st := by
  obtain ⟨st, hst, rfl⟩ := EvalState.finish_ok h
  obtain ⟨fees, hfees⟩ := EvalState.chargeSignatures_eq t s.st
  rw [hfees] at hst
  obtain ⟨-, rfl⟩ | ⟨-, _, _, -, -, -, rfl⟩ := EvalState.settle_ok hst
  · exact ⟨fun _ => rfl, rfl, rfl, rfl⟩
  · exact ⟨fun _ => amountAt_insert_self, rfl, rfl, rfl⟩

/-- A relation that records keep and that does not see the operation index is kept by whole
evaluations. -/
theorem booksRel {Q : Operation → Prop} {R : OpState → OpState → Prop} (hrefl : ∀ s, R s s)
    (htrans : ∀ {s₁ s₂ s₃}, R s₁ s₂ → R s₂ s₃ → R s₁ s₃) (hsame : ∀ {s s'}, SameBooks s s' → R s s')
    (hleaf : ∀ {ctx s s' op}, Q op → Operation.evaluateLeaf P V ctx s op = .ok s' → R s s') :
    EvalRel P V Q (fun _ => (0 : ℕ)) fun _ s s' => R s.st s'.st where
  refl _ := hrefl _
  trans := htrans
  start h := hsame (start_sameBooks h)
  leaf hQ _ h := hleaf hQ h
  next s := hsame (nextOp_sameBooks s)
  after h := hsame (afterFirst_sameBooks h)
  ends s t first := hsame (endResult_sameBooks s t first)
  finish h := hsame (finish_sameBooks h)
  request _ _ _ := hsame ⟨fun _ => rfl, rfl, rfl, rfl⟩

/-- Every operation, wrapped transactions included, keeps the ledger balanced. -/
theorem balanced_evalRel :
    EvalRel P V (fun _ => True) (fun _ => (0 : ℕ)) fun _ s s' => s.st.Balanced → s'.st.Balanced :=
  booksRel (R := fun s s' => s.Balanced → s'.Balanced) (fun _ h => h) (fun h h' hs => h' (h hs))
    (fun hsame h => h.sameBooks hsame) fun _ hop h => by
      obtain ⟨m, hrecorded⟩ := Operation.evaluateLeaf_recorded hop
      exact h.recorded hrecorded

/-- Operations that move no shares leave the ledger as it is. -/
theorem sameBooks_evalRel :
    EvalRel P V (fun op => op.movesShares = false) (fun _ => (0 : ℕ))
      fun _ s s' => SameBooks s.st s'.st :=
  booksRel (R := SameBooks) .refl .trans (fun h => h) fun hop h =>
    (Operation.evaluateLeaf_sameTally hop h).sameBooks

end Steps

/-! ## Prefixes of an evaluation -/

/-- What an evaluation moves between two states. -/
def movementBetween (s s' : EvalState) : Movement := fun a => s.st.balanceOf a - s'.st.balanceOf a

/-- The evaluation of a transaction after some of its operations, with what each of them moved. -/
inductive Evaluated (P : Primitives) (V : Vm) (s₀ : EvalState) (t : SignedTransaction) :
    List Operation → List Movement → EvalState → Prop
  | start {s : EvalState} (h : s₀.start P t = .ok s) : Evaluated P V s₀ t [] [] s
  | first {s s' s'' : EvalState} {op : Operation} (h : Evaluated P V s₀ t [] [] s)
      (hop : evaluateOperation P V s op = .ok s') (hafter : s'.nextOp.afterFirst P t op = .ok s'') :
      Evaluated P V s₀ t [op] [movementBetween s s'] s''
  | next {s s' : EvalState} {op₀ op : Operation} {ops : List Operation} {ms : List Movement}
      (h : Evaluated P V s₀ t (op₀ :: ops) ms s) (hop : evaluateOperation P V s op = .ok s') :
      Evaluated P V s₀ t (op₀ :: (ops ++ [op])) (ms ++ [movementBetween s s']) s'.nextOp

section Runs

variable {s₀ s s' s'' : EvalState} {t : SignedTransaction} {ops rest : List Operation}
  {op op₀ : Operation} {ms : List Movement}

theorem Evaluated.operations : ∀ {rest ops : List Operation} {ms : List Movement}
    {s s' : EvalState}, Evaluated P V s₀ t (op₀ :: ops) ms s →
      evaluateOperations P V s rest = .ok s' →
        ∃ ms', Evaluated P V s₀ t (op₀ :: (ops ++ rest)) ms' s'
  | [], ops, ms, s, s', h, hrest => by
    rw [evaluateOperations_nil, ok_eq_ok] at hrest
    rw [List.append_nil, ← hrest]
    exact ⟨ms, h⟩
  | op :: rest, ops, ms, s, s', h, hrest => by
    rw [evaluateOperations_cons, bind_eq_ok] at hrest
    obtain ⟨s₁, h₁, h₂⟩ := hrest
    obtain ⟨ms', hms'⟩ := (h.next h₁).operations h₂
    rw [List.append_assoc] at hms'
    exact ⟨ms', hms'⟩

/-- A transaction that is accepted has passed through all its operations, and its end leaves the
ledger as it is. -/
theorem evaluate_evaluated (h : evaluate P V s₀ t = .ok s') :
    ∃ ms s, Evaluated P V s₀ t t.operations ms s ∧ SameBooks s.st s'.st := by
  cases hops : t.operations with
  | nil =>
    rw [evaluate_nil hops, bind_eq_ok] at h
    obtain ⟨s, hstart, hfinish⟩ := h
    exact ⟨[], s, .start hstart, finish_sameBooks hfinish⟩
  | cons first rest =>
    rw [evaluate_cons first rest hops] at h
    simp only [bind_eq_ok] at h
    obtain ⟨s₁, hstart, s₂, hfirst, s₃, hafter, s₄, hrest, hfinish⟩ := h
    obtain ⟨ms, hms⟩ := ((Evaluated.start hstart).first hfirst hafter).operations hrest
    exact ⟨ms, s₄, hms, (endResult_sameBooks s₄ t first).trans (finish_sameBooks hfinish)⟩

theorem init_balanced (p : PendingChainState) (skipSignatureCheck skipexec : Bool) :
    (EvalState.init p skipSignatureCheck skipexec).st.Balanced := by
  intro a
  refine ⟨rfl, ?_⟩
  unfold OpState.balanceOf OpState.deltaSum
  rw [show (EvalState.init p skipSignatureCheck skipexec).st.deltas.toFinmap = ∅ from rfl,
    total_empty]
  rfl

/-- The ledger is balanced after every prefix. -/
theorem Evaluated.balanced (h : Evaluated P V s₀ t ops ms s) (hs₀ : s₀.st.Balanced) :
    s.st.Balanced := by
  induction h with
  | start hstart => exact hs₀.sameBooks (start_sameBooks hstart)
  | first _ hop hafter ih =>
    have hmoved := balanced_evalRel.evaluateOperation _ (fun _ _ => trivial) hop ih
    exact hmoved.sameBooks ((nextOp_sameBooks _).trans (afterFirst_sameBooks hafter))
  | next _ hop ih =>
    have hmoved := balanced_evalRel.evaluateOperation _ (fun _ _ => trivial) hop ih
    exact hmoved.sameBooks (nextOp_sameBooks _)

/-! ## Deltas by operation -/

/-- The deltas under each index are the movement listed there, and the next index is the one after
the list. -/
structure Attributed (ms : List Movement) (s : OpState) : Prop where
  index : s.currentOpIndex = ms.length
  delta : ∀ i a, s.deltaOf i a = ms.getD i 0 a

theorem getD_append_singleton (ms : List Movement) (m : Movement) (i : Nat) (a : AssetIdType) :
    (ms ++ [m]).getD i 0 a = ms.getD i 0 a + if i = ms.length then m a else 0 := by
  rcases lt_trichotomy i ms.length with h | h | h
  · rw [List.getD_append _ _ _ _ h, if_neg h.ne, add_zero]
  · rw [h, List.getD_append_right _ _ _ _ le_rfl, List.getD_eq_default _ _ le_rfl, if_pos rfl]
    simp
  · rw [List.getD_eq_default _ _ (by simp; omega), List.getD_eq_default _ _ h.le, if_neg h.ne',
      add_zero]

/-- An operation that is not a wrapped transaction is recorded where it belongs. -/
theorem Attributed.operation {L : List Movement} (h : Attributed L s.st)
    (hop : op.isTransactionOp = false) (hrun : evaluateOperation P V s op = .ok s') :
    Attributed (L ++ [movementBetween s s']) s'.nextOp.st := by
  rw [evaluateOperation_leaf hop, bind_eq_ok] at hrun
  obtain ⟨st, hst, hs'⟩ := hrun
  obtain rfl := pure_eq_ok.1 hs'
  obtain ⟨m, hrecorded⟩ := Operation.evaluateLeaf_recorded hst
  have hm : movementBetween s { s with st := st } = m := by
    funext a
    unfold movementBetween
    rw [hrecorded.balance]
    omega
  rw [hm]
  constructor
  · rw [List.length_append, ← h.index, ← hrecorded.index]
    rfl
  · intro i a
    rw [getD_append_singleton, ← h.delta, ← h.index]
    exact hrecorded.delta i a

/-- Where no operation is a wrapped transaction, each is recorded where it belongs. -/
theorem Evaluated.attributed (h : Evaluated P V s₀ t ops ms s)
    (hs₀ : ∀ i a, s₀.st.deltaOf i a = 0) (hops : ∀ op ∈ ops, op.isTransactionOp = false) :
    Attributed ms s.st := by
  induction h with
  | start hstart =>
    have hbooks := start_sameBooks hstart
    obtain ⟨-, keys, -, rfl⟩ := EvalState.start_ok hstart
    exact ⟨rfl, fun i a => (hbooks.deltaOf i a).trans (hs₀ i a)⟩
  | @first s s' s'' op _ hrun hafter ih =>
    have hop := hops op (List.mem_singleton_self op)
    rw [EvalState.afterFirst_plain hop hafter]
    exact (ih fun _ hmem => (List.not_mem_nil hmem).elim).operation hop hrun
  | @next s s' op₀ op ops ms _ hrun ih =>
    refine (ih fun op' hmem => hops op' ?_).operation (hops op (by simp)) hrun
    exact List.mem_append_left [op] hmem

/-! ## Results -/

variable {origin : SignedTransaction}

theorem movementBetween_sameBooks (h : SameBooks s.st s'.st) : movementBetween s s' = 0 := by
  funext a
  rw [movementBetween, h.balanceOf, sub_self]
  rfl

/-- A wrapped contract operation moves nothing. -/
theorem wrapped_sameBooks (horigin : origin.operations = [op]) (hop : op.isContractOp = true)
    (hrun : evaluateOperation P V s (.transaction origin) = .ok s') : SameBooks s.st s'.st := by
  refine sameBooks_evalRel.evaluateOperation _ (fun op' hmem => ?_) hrun
  rw [Operation.leaves_transaction, leaves_origin horigin hop, List.mem_singleton] at hmem
  exact hmem ▸ Operation.movesShares_contractOp hop

/-- It starts the index again and leaves it at 1. -/
theorem wrapped_index (horigin : origin.operations = [op]) (hop : op.isContractOp = true)
    (hrun : evaluateOperation P V s (.transaction origin) = .ok s') :
    s'.st.currentOpIndex = 1 := by
  rw [evaluateOperation_transaction, bind_eq_ok] at hrun
  obtain ⟨s₁, hs₁, hs'⟩ := hrun
  obtain ⟨s₂, st, hstart, hst, rfl⟩ := evaluate_origin_ok horigin hop hs₁
  have hzero : s₂.st.currentOpIndex = 0 := by
    obtain ⟨-, keys, -, rfl⟩ := EvalState.start_ok hstart
    rfl
  have hkept := (Operation.evaluateLeaf_sameTally (Operation.movesShares_contractOp hop) hst)
  obtain ⟨fees, hfees⟩ := EvalState.chargeSignatures_eq origin
    { st with currentOpIndex := st.currentOpIndex + 1 }
  rw [← pure_eq_ok.1 hs', hfees]
  show st.currentOpIndex + 1 = 1
  rw [hkept.currentOpIndex, hzero]

/-- After the wrapped transaction of a result nothing is recorded and the index is one too high. -/
theorem Attributed.wrapped (h : Attributed [] s.st) (horigin : origin.operations = [op])
    (hop : op.isContractOp = true) (hrun : evaluateOperation P V s (.transaction origin) = .ok s')
    (hafter : s'.nextOp.afterFirst P t (.transaction origin) = .ok s'') :
    Attributed [0, 0] s''.st := by
  have hindex := wrapped_index horigin hop hrun
  have hbooks := (wrapped_sameBooks horigin hop hrun).trans
    ((nextOp_sameBooks s').trans (afterFirst_sameBooks hafter))
  constructor
  · obtain ⟨-, rfl⟩ | ⟨-, -, rfl⟩ := EvalState.afterFirst_ok hafter <;>
      exact congrArg (· + 1) hindex
  · intro i a
    rw [hbooks.deltaOf, h.delta]
    rcases i with _ | _ | i <;> rfl

/-- The operations a result carries are recorded one index late. -/
theorem Evaluated.attributed_late (h : Evaluated P V s₀ t (.transaction origin :: rest) ms s)
    (hs₀ : ∀ i a, s₀.st.deltaOf i a = 0) (horigin : origin.operations = [op])
    (hop : op.isContractOp = true) (hrest : ∀ op ∈ rest, op.isTransactionOp = false) :
    Attributed (0 :: ms) s.st := by
  generalize hops : Operation.transaction origin :: rest = ops at h
  induction h generalizing rest with
  | start => cases hops
  | first hbefore hrun hafter =>
    obtain ⟨rfl, rfl⟩ := List.cons.inj hops
    have hnothing := hbefore.attributed hs₀ fun _ hmem => (List.not_mem_nil hmem).elim
    rw [movementBetween_sameBooks (wrapped_sameBooks horigin hop hrun)]
    exact hnothing.wrapped horigin hop hrun hafter
  | @next s s' op₀ op' ops ms _ hrun ih =>
    obtain ⟨rfl, rfl⟩ := List.cons.inj hops
    refine (ih (fun op hmem => hrest op ?_) rfl).operation (hrest op' (by simp)) hrun
    exact List.mem_append_left [op'] hmem

theorem leavesOf_append (ops ops' : List Operation) :
    leavesOf (ops ++ ops') = leavesOf ops ++ leavesOf ops' := by
  induction ops with
  | nil => simp only [leavesOf, List.nil_append]
  | cons op ops ih => rw [List.cons_append, leavesOf_cons, leavesOf_cons, ih, List.append_assoc]

theorem leavesOf_singleton (op : Operation) : leavesOf [op] = op.leaves := by
  rw [leavesOf_cons, leavesOf, List.append_nil]

/-- A result none of whose operations moves shares records nothing. -/
theorem Evaluated.quiet (h : Evaluated P V s₀ t (.transaction origin :: rest) ms s)
    (horigin : origin.operations = [op]) (hop : op.isContractOp = true)
    (hrest : ∀ op ∈ leavesOf rest, op.movesShares = false) :
    SameBooks s₀.st s.st ∧ ∀ m ∈ ms, m = 0 := by
  generalize hops : Operation.transaction origin :: rest = ops at h
  induction h generalizing rest with
  | start => cases hops
  | first hbefore hrun hafter =>
    obtain ⟨rfl, rfl⟩ := List.cons.inj hops
    have hbooks := wrapped_sameBooks horigin hop hrun
    cases hbefore with
    | start hstart =>
      refine ⟨(start_sameBooks hstart).trans (hbooks.trans
        ((nextOp_sameBooks _).trans (afterFirst_sameBooks hafter))), ?_⟩
      intro m hm
      rw [List.mem_singleton.1 hm]
      exact movementBetween_sameBooks hbooks
  | @next s s' op₀ op' ops ms _ hrun ih =>
    obtain ⟨rfl, rfl⟩ := List.cons.inj hops
    rw [leavesOf_append, leavesOf_singleton] at hrest
    obtain ⟨hbooks, hms⟩ := ih (fun op hmem => hrest op (List.mem_append_left _ hmem)) rfl
    have hbooks' := sameBooks_evalRel.evaluateOperation op'
      (fun op hmem => hrest op (List.mem_append_right _ hmem)) hrun
    refine ⟨hbooks.trans (hbooks'.trans (nextOp_sameBooks s')), fun m hm => ?_⟩
    rcases List.mem_append.1 hm with hm | hm
    · exact hms m hm
    · rw [List.mem_singleton.1 hm]
      exact movementBetween_sameBooks hbooks'

end Runs

/-! ## Operations that take or give -/

/-- The operations that, where they are accepted, move an amount other than zero. A destruction
takes as much from the balance of the contract as it gives to its owner. -/
def Operation.takesOrGives : Operation → Bool
  | .withdraw _ | .deposit _ | .withdrawPay _ | .issueAsset _ | .withdrawContract _
  | .depositContract _ => true
  | .balancesWithdraw op => !(mapItems op.balances).isEmpty
  | _ => false

section Amounts

variable {ctx : OpContext} {s s' : OpState} {x : Asset}

theorem Recorded.balance_lt (h : Recorded x.movement s s') (hx : 0 < x.amount) :
    s'.balanceOf x.assetId < s.balanceOf x.assetId := by
  have hbalance := h.balance x.assetId
  rw [Int64.lt_iff_toInt_lt, Int64.toInt_zero] at hx
  rw [Asset.movement, if_pos rfl] at hbalance
  omega

theorem Recorded.lt_balance (h : Recorded (-x.movement) s s') (hx : 0 < x.amount) :
    s.balanceOf x.assetId < s'.balanceOf x.assetId := by
  have hbalance := h.balance x.assetId
  rw [Int64.lt_iff_toInt_lt, Int64.toInt_zero] at hx
  rw [Pi.neg_apply, Asset.movement, if_pos rfl] at hbalance
  omega

theorem WithdrawPayOperation.positive {op : WithdrawPayOperation}
    (h : op.evaluate P ctx s = .ok s') : 0 < op.amount := by
  simp only [evaluate, bind_eq_ok, ensure_eq_ok, decide_eq_true_eq, exists_const] at h
  exact h.1

theorem IssueAssetOperation.positive {op : IssueAssetOperation}
    (h : op.evaluate ctx s = .ok s') : 0 < op.amount.amount := by
  simp only [evaluate, bind_eq_ok, ensure_eq_ok, decide_eq_true_eq, exists_const] at h
  obtain ⟨_, -, -, -, hpos, -⟩ := h
  exact hpos

theorem BalancesWithdrawOperation.withdrawOne_lt {item : BalanceIdType × ShareType}
    (h : withdrawOne P ctx s item = .ok s') : s.balanceOf 0 < s'.balanceOf 0 := by
  obtain ⟨e, _, -, hpos, hzero, -, -, -, -, -, hrecorded⟩ := withdrawOne_ok h
  rw [hzero] at hrecorded
  exact hrecorded.lt_balance hpos

theorem BalancesWithdrawOperation.evaluate_lt {op : BalancesWithdrawOperation}
    (h : op.evaluate P ctx s = .ok s') (hne : (mapItems op.balances).isEmpty = false) :
    s.balanceOf 0 < s'.balanceOf 0 := by
  have hfold := (BalancesWithdrawOperation.evaluate_ok h).2
  cases hitems : mapItems op.balances with
  | nil => simp [hitems] at hne
  | cons item items =>
    rw [hitems, List.foldlM_cons, bind_eq_ok] at hfold
    obtain ⟨s₁, h₁, h₂⟩ := hfold
    have hrest : s₁.balanceOf 0 ≤ s'.balanceOf 0 :=
      foldlM_rel (R := fun s s' : OpState => s.balanceOf 0 ≤ s'.balanceOf 0) (fun _ => le_rfl)
        (fun _ _ _ => le_trans) (fun _ _ _ _ h => (withdrawOne_lt h).le) h₂
    exact (withdrawOne_lt h₁).trans_le hrest

theorem Operation.evaluateLeaf_balance_ne {op : Operation} (hop : op.takesOrGives = true)
    (h : op.evaluateLeaf P V ctx s = .ok s') : ∃ a, s'.balanceOf a ≠ s.balanceOf a := by
  cases op <;> simp only [takesOrGives, Bool.false_eq_true] at hop <;>
    simp only [evaluateLeaf] at h
  case withdraw op =>
    obtain ⟨e, _, -, hpos, -, -, -, -, hrecorded⟩ := WithdrawOperation.evaluate_ok h
    exact ⟨_, (hrecorded.lt_balance hpos).ne'⟩
  case deposit op =>
    obtain ⟨e, _, -, hpos, -, -, -, -, -, hrecorded⟩ := DepositOperation.evaluate_ok h
    exact ⟨_, (hrecorded.balance_lt hpos).ne⟩
  case withdrawPay op =>
    obtain ⟨_, _, -, -, -, -, -, hrecorded⟩ := WithdrawPayOperation.evaluate_ok h
    exact ⟨_, (hrecorded.lt_balance (WithdrawPayOperation.positive h)).ne'⟩
  case issueAsset op =>
    obtain ⟨_, _, -, -, -, -, -, -, -, -, -, -, hrecorded⟩ := IssueAssetOperation.evaluate_ok h
    exact ⟨_, (hrecorded.lt_balance (IssueAssetOperation.positive h)).ne'⟩
  case withdrawContract op =>
    obtain ⟨e, -, -, hpos, -, -, -, -, hrecorded⟩ := WithdrawContractOperation.evaluate_ok h
    exact ⟨_, (hrecorded.lt_balance hpos).ne'⟩
  case depositContract op =>
    obtain ⟨e, _, -, -, hpos, -, -, -, -, hrecorded⟩ := DepositContractOperation.evaluate_ok h
    exact ⟨_, (hrecorded.balance_lt hpos).ne⟩
  case balancesWithdraw op =>
    exact ⟨0, (BalancesWithdrawOperation.evaluate_lt h (by simpa using hop)).ne'⟩

end Amounts

section Results

variable {s₀ s s' : EvalState} {t origin : SignedTransaction} {ops rest : List Operation}
  {op op₀ : Operation} {ms : List Movement}

theorem movementBetween_ne (hop : op.takesOrGives = true)
    (hrun : evaluateOperation P V s op = .ok s') : movementBetween s s' ≠ 0 := by
  have hleaf : op.isTransactionOp = false := by
    cases op <;> first | rfl | cases hop
  rw [evaluateOperation_leaf hleaf, bind_eq_ok] at hrun
  obtain ⟨st, hst, hs'⟩ := hrun
  obtain rfl := pure_eq_ok.1 hs'
  obtain ⟨a, hne⟩ := Operation.evaluateLeaf_balance_ne hop hst
  intro hzero
  have ha := congrFun hzero a
  rw [movementBetween, Pi.zero_apply, sub_eq_zero] at ha
  exact hne ha.symm

/-- An operation after the first that takes or gives is seen in the movements after the first. -/
theorem Evaluated.exists_ne (h : Evaluated P V s₀ t (op₀ :: rest) ms s)
    (hop : ∃ op ∈ rest, op.takesOrGives = true) : ∃ m ∈ ms, m ≠ 0 := by
  generalize hops : op₀ :: rest = ops at h
  induction h generalizing rest with
  | start => cases hops
  | first hbefore hrun hafter =>
    obtain ⟨-, rfl⟩ := List.cons.inj hops
    obtain ⟨_, hmem, -⟩ := hop
    cases hmem
  | @next s s' op₁ op' ops ms _ hrun ih =>
    obtain ⟨rfl, rfl⟩ := List.cons.inj hops
    obtain ⟨op, hmem, hop⟩ := hop
    rcases List.mem_append.1 hmem with hmem | hmem
    · obtain ⟨m, hm, hne⟩ := ih ⟨op, hmem, hop⟩ rfl
      exact ⟨m, List.mem_append_left _ hm, hne⟩
    · obtain rfl := List.mem_singleton.1 hmem
      exact ⟨_, List.mem_append_right _ (List.mem_singleton_self _), movementBetween_ne hop hrun⟩

/-- A list that agrees with itself shifted by a leading zero is zero. -/
theorem eq_zero_of_getD_shifted {L : List Movement}
    (h : ∀ i a, (0 :: L).getD i 0 a = L.getD i 0 a) : ∀ m ∈ L, m = 0 := by
  have hzero : ∀ i, L.getD i 0 = 0 := by
    intro i
    induction i with
    | zero =>
      funext a
      rw [← h 0 a, List.getD_cons_zero]
    | succ i ih =>
      funext a
      rw [← h (i + 1) a, List.getD_cons_succ, ih]
  intro m hm
  obtain ⟨i, hi, rfl⟩ := List.getElem_of_mem hm
  rw [← hzero i, List.getD_eq_getElem _ _ hi]

/-- The deltas are the movements of the operations, each under the index of its operation. -/
def OpState.Follows (s : OpState) (ms : List Movement) : Prop :=
  ∀ i a, s.deltaOf i a = ms.getD i 0 a

/-- No wrapped transaction leads the operations, or none of those after it moves shares. -/
def LeadsQuietly : List Operation → Prop
  | .transaction _ :: rest => ∀ op ∈ leavesOf rest, op.movesShares = false
  | _ => True

theorem Evaluated.legal (h : Evaluated P V s₀ t ops ms s) : t.checkOperationsLegality = true := by
  induction h with
  | start hstart => exact start_legal hstart
  | first _ _ _ ih => exact ih
  | next _ _ ih => exact ih

/-- In a transaction that no wrapped transaction leads no operation is one. -/
theorem prefix_plain (hops : op₀ :: rest <+: t.operations)
    (hlegal : t.checkOperationsLegality = true) (hop₀ : op₀.isTransactionOp = false) :
    ∀ op ∈ op₀ :: rest, op.isTransactionOp = false := by
  obtain ⟨more, hmore⟩ := hops
  have hrest := legal_plain hmore.symm hop₀ hlegal
  intro op hmem
  rcases List.mem_cons.1 hmem with rfl | hmem
  · exact hop₀
  · exact hrest op (List.mem_append_left more hmem)

theorem prefix_wrapped (hops : .transaction origin :: rest <+: t.operations)
    (hlegal : t.checkOperationsLegality = true) :
    ∃ op, origin.operations = [op] ∧ op.isContractOp = true := by
  obtain ⟨more, hmore⟩ := hops
  exact legal_wrapped hmore.symm hlegal

theorem Evaluated.follows (h : Evaluated P V s₀ t ops ms s) (hops : ops <+: t.operations)
    (hs₀ : ∀ i a, s₀.st.deltaOf i a = 0) (hquiet : LeadsQuietly ops) : s.st.Follows ms := by
  cases ops with
  | nil => exact (h.attributed hs₀ fun _ hmem => (List.not_mem_nil hmem).elim).delta
  | cons op₀ rest =>
    cases hop₀ : op₀.isTransactionOp with
    | false => exact (h.attributed hs₀ (prefix_plain hops h.legal hop₀)).delta
    | true =>
      obtain ⟨origin, rfl⟩ : ∃ origin, op₀ = .transaction origin := by
        cases op₀ <;> simp_all [Operation.isTransactionOp]
      obtain ⟨op, horigin, hop⟩ := prefix_wrapped hops h.legal
      obtain ⟨hbooks, hms⟩ := h.quiet horigin hop hquiet
      intro i a
      rw [hbooks.deltaOf, hs₀]
      have hzero : ms.getD i 0 = 0 := by
        by_cases hi : i < ms.length
        · rw [List.getD_eq_getElem _ _ hi]
          exact hms _ (List.getElem_mem hi)
        · exact List.getD_eq_default _ _ (not_lt.1 hi)
      rw [hzero]
      rfl

/-- What a result moves by the operations it carries is not found under their indexes. -/
theorem Evaluated.not_follows (h : Evaluated P V s₀ t (.transaction origin :: rest) ms s)
    (hops : .transaction origin :: rest <+: t.operations) (hs₀ : ∀ i a, s₀.st.deltaOf i a = 0)
    (hrest : ∀ op ∈ rest, op.isTransactionOp = false)
    (hmoves : ∃ op ∈ rest, op.takesOrGives = true) : ¬s.st.Follows ms := by
  obtain ⟨op, horigin, hop⟩ := prefix_wrapped hops h.legal
  have hlate := h.attributed_late hs₀ horigin hop hrest
  intro hfollows
  obtain ⟨m, hm, hne⟩ := h.exists_ne hmoves
  exact hne (eq_zero_of_getD_shifted (fun i a => (hlate.delta i a).symm.trans (hfollows i a)) m hm)

theorem init_delta (p : PendingChainState) (skipSignatureCheck skipexec : Bool) (i : Nat)
    (a : AssetIdType) : (EvalState.init p skipSignatureCheck skipexec).st.deltaOf i a = 0 := rfl

/-- After every prefix of the operations the ledger of a transaction is balanced. Its deltas follow
the operations unless a wrapped transaction leads operations that move shares, and then they do not
once such an operation has taken or given something. -/
theorem ledger_follows_operations (P : Primitives) (V : Vm) (p : PendingChainState)
    (skipSignatureCheck skipexec : Bool) (t : SignedTransaction) (ops : List Operation)
    (ms : List Movement) (s : EvalState)
    (h : Evaluated P V (.init p skipSignatureCheck skipexec) t ops ms s)
    (hops : ops <+: t.operations) :
    s.st.Balanced ∧ (LeadsQuietly ops → s.st.Follows ms) ∧
      ∀ origin rest, ops = .transaction origin :: rest →
        (∀ op ∈ rest, op.isTransactionOp = false) → (∃ op ∈ rest, op.takesOrGives = true) →
          ¬s.st.Follows ms := by
  refine ⟨h.balanced (init_balanced p _ _), h.follows hops (init_delta p _ _), ?_⟩
  rintro origin rest rfl hrest hmoves
  exact h.not_follows hops (init_delta p _ _) hrest hmoves

/-- Key 1 pays 1500 of its shares to key 2, and leaves the rest as the fee. -/
def payment : SignedTransaction :=
  { SignedTransaction.empty with
    expiration := 100
    operations := [.withdraw ⟨3, 3000, []⟩, .deposit ⟨1500, ⟨0, 0, .common, .signature 2 none⟩⟩]
    signatures := [1] }

theorem ledger_follows_operations_of_payment : ∃ ms s,
    Evaluated .plain .idle (.init (.ofView theftView) false true) payment payment.operations ms s ∧
      s.st.Balanced ∧ s.st.Follows ms := by
  have hrun : returns (evaluate .plain .idle (.init (.ofView theftView) false true) payment)
      (fun _ => true) = true := by decide +kernel
  obtain ⟨s', hs', -⟩ := exists_of_returns hrun
  obtain ⟨ms, s, h, -⟩ := evaluate_evaluated hs'
  obtain ⟨hbalanced, hfollows, -⟩ :=
    ledger_follows_operations _ _ _ _ _ _ _ _ _ h (List.prefix_refl _)
  exact ⟨ms, s, h, hbalanced, hfollows trivial⟩

theorem theftResult_evaluated : ∃ ms s,
    Evaluated .plain .idle (.init (.ofView theftView) false true) (theftResult 3)
      (theftResult 3).operations ms s := by
  have hrun : returns (evaluate .plain .idle (.init (.ofView theftView) false true) (theftResult 3))
      (fun _ => true) = true := by decide +kernel
  obtain ⟨s', hs', -⟩ := exists_of_returns hrun
  obtain ⟨ms, s, h, -⟩ := evaluate_evaluated hs'
  exact ⟨ms, s, h⟩

/-- A result that withdraws from a contract and deposits to a key records both one index late. -/
theorem result_recorded_late : ∃ ms s,
    Evaluated .plain .idle (.init (.ofView theftView) false true) (theftResult 3)
      (theftResult 3).operations ms s ∧ ¬s.st.Follows ms := by
  obtain ⟨ms, s, h⟩ := theftResult_evaluated
  refine ⟨ms, s, h, h.not_follows (List.prefix_refl _) (init_delta _ _ _) ?_ ?_⟩
  · intro op hmem
    rcases List.mem_cons.1 hmem with rfl | hmem
    · rfl
    · rw [List.mem_singleton.1 hmem]
      rfl
  · exact ⟨_, List.mem_cons_self .., rfl⟩

end Results

end Achain
