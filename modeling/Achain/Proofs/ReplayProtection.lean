import Achain.Proofs.ContractNames
import Achain.Proofs.Withdrawals

/-!
# No transaction is executed twice

`extend_chain` forgets a transaction when it has expired, and executes none that has. So while the chain
grows block by block, a transaction is executed once at most, be it one of a block's own or a request that
a result wraps, however deep.
-/

namespace Achain

open Relation Table Result

variable {P : Primitives} {V : Vm} {N : Node}

mutual

/-- The transactions that are executed with one: those it wraps, at any depth, and the transaction. -/
def SignedTransaction.executed (t : SignedTransaction) : List SignedTransaction :=
  match t with
  | ⟨expiration, reserved, alpAccount, alpInportAsset, operations, type, id, signatures⟩ =>
    executedBy operations ++
      [⟨expiration, reserved, alpAccount, alpInportAsset, operations, type, id, signatures⟩]
termination_by structural t

def executedBy (ops : List Operation) : List SignedTransaction :=
  match ops with
  | [] => []
  | op :: ops => op.executed ++ executedBy ops
termination_by structural ops

def Operation.executed (op : Operation) : List SignedTransaction :=
  match op with
  | .transaction trx => trx.executed
  | _ => []
termination_by structural op

end

/-- The transactions that are executed with a block. -/
def FullBlock.executed (b : FullBlock) : List SignedTransaction :=
  b.userTransactions.flatMap SignedTransaction.executed

theorem SignedTransaction.executed_eq (t : SignedTransaction) :
    t.executed = executedBy t.operations ++ [t] := by
  cases t
  simp only [executed]

theorem executedBy_cons (op : Operation) (ops : List Operation) :
    executedBy (op :: ops) = op.executed ++ executedBy ops := by
  simp only [executedBy]

/-! ## What is stored of a transaction -/

/-- Transactions are stored one after the other. -/
def Stores (P : Primitives) : PendingTransactions → PendingTransactions → Prop :=
  ReflTransGen fun p p' => ∃ id e, p' = TransactionEntry.store P p id e

namespace Stores

variable {p p' : PendingTransactions}

theorem keeps {C : PendingTransactions → Prop} (h : Stores P p p')
    (hC : ∀ p id e, C p → C (TransactionEntry.store P p id e)) (hp : C p) : C p' := by
  induction h with
  | refl => exact hp
  | tail _ hstep ih =>
    obtain ⟨id, e, rfl⟩ := hstep
    exact hC _ id e ih

theorem prevKnown (h : Stores P p p') : p'.prevKnown = p.prevKnown :=
  h.keeps (C := fun q => q.prevKnown = p.prevKnown) (fun _ _ _ hq => hq) rfl

theorem mem_digests {d : DigestType} (h : Stores P p p') (hd : d ∈ p.digests) : d ∈ p'.digests :=
  h.keeps (C := fun q => d ∈ q.digests) (fun _ _ _ hq => List.mem_insert_of_mem hq) hd

theorem mem_stored {id : TransactionIdType} (h : Stores P p p') (hid : id ∈ p.table.stored) :
    id ∈ p'.table.stored :=
  h.keeps (C := fun q => id ∈ q.table.stored) (fun _ _ _ hq => (AList.mem_insert _).2 (.inr hq)) hid

theorem removed (h : Stores P p p') (hp : p.table.removed = []) : p'.table.removed = [] :=
  h.keeps (C := fun q => q.table.removed = []) (fun _ _ _ hq => List.filter_eq_nil_iff.2 (by simp [hq])) hp

theorem known {t : SignedTransaction} (h : Stores P p p') (ht : p.isKnownTransaction P t = true) :
    p'.isKnownTransaction P t = true := by
  unfold PendingTransactions.isKnownTransaction at ht ⊢
  rw [h.prevKnown]
  simp only [Bool.or_eq_true, decide_eq_true_eq] at ht ⊢
  exact ht.imp_left h.mem_digests

end Stores

theorem stores_evalRel : EvalRel P V (fun _ => True) (fun _ => (0 : ℕ)) fun _ s s' =>
    Stores P s.transactions s'.transactions where
  refl _ := .refl
  trans := .trans
  start h := by
    obtain ⟨-, keys, -, rfl⟩ := EvalState.start_ok h
    exact .refl
  leaf _ _ _ := .refl
  next _ := .refl
  after h := by
    obtain ⟨-, rfl⟩ | ⟨-, -, rfl⟩ := EvalState.afterFirst_ok h <;> exact .refl
  ends s t first := by
    unfold EvalState.endResult
    split_ifs
    · exact .single ⟨_, _, rfl⟩
    · exact .refl
    · exact .refl
  finish h := by
    obtain ⟨st, -, rfl⟩ := EvalState.finish_ok h
    exact .single ⟨_, _, rfl⟩
  request _ _ _ := .refl

/-- A pending state and a later one. -/
structure Continues (P : Primitives) (p p' : PendingChainState) : Prop where
  transactions : Stores P p.transactions p'.transactions
  prev : p'.ledger.prev = p.ledger.prev

/-- Between two pending states a transaction has been executed: it had not expired, was not known, and has
been stored. -/
structure TakenIn (P : Primitives) (p p' : PendingChainState) (t : SignedTransaction) : Prop where
  alive : p.ledger.prev.now < t.expiration
  unknown : ¬p.transactions.isKnownTransaction P t
  digest : P.digest t ∈ p'.transactions.digests
  stored : P.id t ∈ p'.transactions.table.stored

/-- Two transactions with one digest and expiration: the one has been executed as a part of the other. -/
def KeptApart (P : Primitives) (u u' : SignedTransaction) : Prop :=
  P.uniqueKey u = P.uniqueKey u' → u ∈ executedBy u'.operations

/-- Between two pending states transactions have been executed one after the other. -/
structure TakesIn (P : Primitives) (p p' : PendingChainState) (us : List SignedTransaction) : Prop where
  taken : ∀ u ∈ us, TakenIn P p p' u
  apart : us.Pairwise (KeptApart P)

section Taking

variable {p p₁ p₂ p' : PendingChainState} {s s₁ s₂ s' : EvalState} {t r : SignedTransaction}
  {us us' : List SignedTransaction}

theorem Continues.refl (p : PendingChainState) : Continues P p p := ⟨.refl, rfl⟩

theorem Continues.trans (h : Continues P p p₁) (h' : Continues P p₁ p') : Continues P p p' :=
  ⟨ReflTransGen.trans h.transactions h'.transactions, h'.prev.trans h.prev⟩

theorem TakenIn.widen (h : TakenIn P p₁ p₂ t) (hbefore : Continues P p p₁)
    (hafter : Stores P p₂.transactions p'.transactions) : TakenIn P p p' t where
  alive := hbefore.prev ▸ h.alive
  unknown hknown := h.unknown (hbefore.transactions.known hknown)
  digest := hafter.mem_digests h.digest
  stored := hafter.mem_stored h.stored

/-- What is executed later has another digest and expiration. -/
theorem TakenIn.key_ne {u : SignedTransaction} (h : TakenIn P p p₁ t) (h' : TakenIn P p₁ p' u) :
    P.uniqueKey t ≠ P.uniqueKey u := by
  intro heq
  have hdigest : P.digest t = P.digest u := congrArg UniqueTransactionKey.digest heq
  refine h'.unknown ?_
  simp [PendingTransactions.isKnownTransaction, ← hdigest, h.digest]

theorem TakesIn.nil : TakesIn P p p' [] := ⟨by simp, .nil⟩

theorem TakesIn.widen (h : TakesIn P p₁ p₂ us) (hbefore : Continues P p p₁)
    (hafter : Stores P p₂.transactions p'.transactions) : TakesIn P p p' us :=
  ⟨fun u hu => (h.taken u hu).widen hbefore hafter, h.apart⟩

theorem TakesIn.append (h : TakesIn P p p₁ us) (h' : TakesIn P p₁ p' us') (hbefore : Continues P p p₁)
    (hafter : Stores P p₁.transactions p'.transactions) : TakesIn P p p' (us ++ us') where
  taken := List.forall_mem_append.2 ⟨(h.widen (.refl p) hafter).taken, (h'.widen hbefore .refl).taken⟩
  apart := List.pairwise_append.2 ⟨h.apart, h'.apart, fun u hu u' hu' heq =>
    absurd heq ((h.taken u hu).key_ne (h'.taken u' hu'))⟩

/-- A transaction is checked before what it wraps is executed, and stored after it. -/
theorem TakesIn.wrap (h : TakesIn P p p' (executedBy t.operations)) (ht : TakenIn P p p' t) :
    TakesIn P p p' t.executed := by
  rw [SignedTransaction.executed_eq]
  refine ⟨List.forall_mem_append.2 ⟨h.taken, by simpa using ht⟩, ?_⟩
  refine List.pairwise_append.2 ⟨h.apart, List.pairwise_singleton _ _, fun u hu u' hu' _ => ?_⟩
  obtain rfl := List.mem_singleton.1 hu'
  exact hu

theorem continues_evaluateOperation {op : Operation} (h : evaluateOperation P V s op = .ok s') :
    Continues P s.pending s'.pending where
  transactions := stores_evalRel.evaluateOperation op (fun _ _ => trivial) h
  prev := (writes_ledgerRel.evalRel.evaluateOperation op (fun _ _ => trivial) h).prev

theorem continues_evaluateOperations {ops : List Operation} (h : evaluateOperations P V s ops = .ok s') :
    Continues P s.pending s'.pending where
  transactions := stores_evalRel.evaluateOperations ops (fun _ _ => trivial) h
  prev := (writes_ledgerRel.evalRel.evaluateOperations ops (fun _ _ => trivial) h).prev

theorem EvalState.start_pending (h : s.start P t = .ok s') : s'.pending = s.pending := by
  obtain ⟨-, keys, -, rfl⟩ := start_ok h
  rfl

theorem EvalState.afterFirst_pending {first : Operation} (h : s.afterFirst P t first = .ok s') :
    s'.pending = s.pending := by
  obtain ⟨-, rfl⟩ | ⟨-, -, rfl⟩ := afterFirst_ok h <;> rfl

/-- A transaction is stored when its operations have been evaluated, or in the end. -/
theorem EvalState.endResult_stores (s : EvalState) (t : SignedTransaction) (first : Operation) :
    (s.endResult P t first).2 = t ∨ P.digest t ∈ (s.endResult P t first).1.transactions.digests ∧
      P.id t ∈ (s.endResult P t first).1.transactions.table.stored := by
  unfold endResult
  split_ifs
  · exact .inr ⟨List.mem_insert_self, (AList.mem_insert _).2 (.inl rfl)⟩
  · exact .inl rfl
  · exact .inl rfl

theorem EvalState.takenIn_of_finish (hstart : s.start P t = .ok s₁) (hfinish : s₂.finish P t r = .ok s')
    (hr : r = t ∨ P.digest t ∈ s₂.transactions.digests ∧ P.id t ∈ s₂.transactions.table.stored) :
    TakenIn P s.pending s'.pending t := by
  have hcheck := (start_ok hstart).1
  simp only [checkTransaction, bind_eq_ok, ensure_eq_ok, decide_eq_true_eq, Bool.not_eq_true'] at hcheck
  obtain ⟨-, halive, -, -, -, -, -, hunknown, -⟩ := hcheck
  obtain ⟨st, -, rfl⟩ := finish_ok hfinish
  refine ⟨halive, Bool.eq_false_iff.1 hunknown, ?_, ?_⟩
  · obtain rfl | ⟨hdigest, -⟩ := hr
    · exact List.mem_insert_self
    · exact List.mem_insert_of_mem hdigest
  · obtain rfl | ⟨-, hstored⟩ := hr
    · exact (AList.mem_insert _).2 (.inl rfl)
    · exact (AList.mem_insert _).2 (.inr hstored)

end Taking

/-! ## Whole transactions -/

mutual

/-- Everything that is executed with a transaction is taken in. -/
theorem evaluate_takesIn : ∀ (t : SignedTransaction) {s s' : EvalState}, evaluate P V s t = .ok s' →
    TakesIn P s.pending s'.pending t.executed
  | ⟨e, r, aa, ai, [], ty, id, sg⟩, s, s', h => by
    rw [evaluate_nil rfl, bind_eq_ok] at h
    obtain ⟨s₁, hstart, hfinish⟩ := h
    exact TakesIn.wrap .nil (EvalState.takenIn_of_finish hstart hfinish (.inl rfl))
  | ⟨e, r, aa, ai, first :: rest, ty, id, sg⟩, s, s', h => by
    rw [evaluate_cons first rest rfl] at h
    simp only [bind_eq_ok] at h
    obtain ⟨s₁, hstart, s₂, hfirst, s₃, hafter, s₄, hrest, hfinish⟩ := h
    have hstarted := EvalState.start_pending hstart
    have hfollowed : s₃.pending = s₂.pending := EvalState.afterFirst_pending (s := s₂.nextOp) hafter
    have hend : Stores P s₄.transactions s'.transactions :=
      ReflTransGen.trans (stores_evalRel.ends (V := V) s₄ _ first) (stores_evalRel.finish (V := V) hfinish)
    have htakes := evaluateOperation_takesIn first hfirst
    have hcontinues := continues_evaluateOperation hfirst
    have htakes' := evaluateOperations_takesIn rest hrest
    have hcontinues' := continues_evaluateOperations hrest
    rw [hstarted] at htakes hcontinues
    rw [hfollowed] at htakes' hcontinues'
    have hwrapped := htakes.append htakes' hcontinues hcontinues'.transactions
    rw [← executedBy_cons] at hwrapped
    have hwidened : TakesIn P _ s'.pending _ := hwrapped.widen (.refl _) hend
    exact hwidened.wrap (EvalState.takenIn_of_finish hstart hfinish (EvalState.endResult_stores s₄ _ first))
termination_by structural t => t

theorem evaluateOperations_takesIn : ∀ (ops : List Operation) {s s' : EvalState},
    evaluateOperations P V s ops = .ok s' → TakesIn P s.pending s'.pending (executedBy ops)
  | [], s, s', _ => by
    rw [executedBy]
    exact .nil
  | op :: ops, s, s', h => by
    rw [evaluateOperations_cons, bind_eq_ok] at h
    obtain ⟨s₁, hop, hops⟩ := h
    have hlater : TakesIn P s₁.nextOp.pending s'.pending (executedBy ops) :=
      evaluateOperations_takesIn ops hops
    have hafter : Continues P s₁.nextOp.pending s'.pending := continues_evaluateOperations hops
    rw [executedBy_cons]
    exact (evaluateOperation_takesIn op hop).append hlater (continues_evaluateOperation hop)
      hafter.transactions
termination_by structural ops => ops

theorem evaluateOperation_takesIn (op : Operation) {s s' : EvalState}
    (h : evaluateOperation P V s op = .ok s') : TakesIn P s.pending s'.pending op.executed := by
  cases op with
  | transaction trx =>
    rw [evaluateOperation_transaction, bind_eq_ok] at h
    obtain ⟨s₁, htrx, hrequest⟩ := h
    obtain rfl := pure_eq_ok.1 hrequest
    rw [Operation.executed]
    exact (evaluate_takesIn trx htrx).widen (.refl _) .refl
  | _ =>
    simp only [Operation.executed]
    exact .nil
termination_by structural op

end

/-! ## Blocks -/

section Blocks

variable {c : ApplyConfig} {p p' : PendingChainState} {n : Nat} {t : SignedTransaction}
  {ts : List SignedTransaction} {acc acc' : PendingChainState × Bool}

theorem Applied.continues (h : Applied P V c p n t p') : Stores P h.s.transactions p'.transactions := by
  refine foldlM_rel (fun _ => .refl) (fun _ _ _ => ReflTransGen.trans) (fun id _ q q' hq => ?_) h.relocated
  simp only [relocate, bind_eq_ok, pure_eq_ok] at hq
  obtain ⟨e, -, rfl⟩ := hq
  exact .single ⟨_, _, rfl⟩

theorem Applied.takesIn (h : Applied P V c p n t p') : Continues P p p' ∧ TakesIn P p p' t.executed := by
  have hstored : Stores P p.transactions h.s.transactions :=
    stores_evalRel.evaluate t (fun _ _ => trivial) h.evaluated
  exact ⟨⟨ReflTransGen.trans hstored h.continues, h.writes.prev⟩,
    (evaluate_takesIn t h.evaluated).widen (.refl _) h.continues⟩

theorem applyTransactionsFrom_takesIn (h : applyTransactionsFrom P V c n ts acc = .ok acc') :
    Continues P acc.1 acc'.1 ∧ TakesIn P acc.1 acc'.1 (ts.flatMap SignedTransaction.executed) := by
  induction ts generalizing n acc with
  | nil =>
    rw [applyTransactionsFrom, ok_eq_ok] at h
    exact ⟨h ▸ .refl _, .nil⟩
  | cons t ts ih =>
    obtain ⟨q, ⟨happlied⟩, h⟩ := applyTransactionsFrom_cons h
    obtain ⟨hfirst, htakes⟩ := happlied.takesIn
    obtain ⟨hrest, hlater⟩ := ih h
    rw [List.flatMap_cons]
    exact ⟨hfirst.trans hrest, htakes.append hlater hfirst hrest.transactions⟩

end Blocks

/-! ## The transactions that are remembered -/

section Tables

variable {db db' : ChainDatabase} {clock : TimePointSec} {b : FullBlock} {p : PendingChainState}

theorem mem_uniqueTransactions_foldl {k : UniqueTransactionKey}
    (l : List (TransactionIdType × TransactionEntry)) (c : ChainTables) :
    k ∈ (l.foldl (fun c e => TransactionEntry.store P c e.1 e.2) c).uniqueTransactions ↔
      k ∈ c.uniqueTransactions ∨ ∃ e ∈ l, P.uniqueKey e.2.trx = k := by
  induction l generalizing c with
  | nil => simp
  | cons e l ih =>
    have hstore : (TransactionEntry.store P c e.1 e.2).uniqueTransactions =
        insert (P.uniqueKey e.2.trx) c.uniqueTransactions := rfl
    simp only [List.foldl_cons, ih, hstore, Finset.mem_insert, List.mem_cons, exists_eq_or_imp]
    rw [or_assoc, or_left_comm, eq_comm]

/-- A pending state that has removed no transaction adds those it has stored. -/
theorem mem_uniqueTransactions_applyChanges (c : ChainTables)
    (hremoved : p.transactions.table.removed = []) {k : UniqueTransactionKey} :
    k ∈ (c.applyChanges P p).uniqueTransactions ↔ k ∈ c.uniqueTransactions ∨
      ∃ id e, p.transactions.table.stored.lookup id = some e ∧ P.uniqueKey e.trx = k := by
  obtain ⟨c₀, hc, -, hc'⟩ := (ChainTables.written (P := P) c p).transaction
  have hbefore : c₀.uniqueTransactions = c.uniqueTransactions := congrArg Prod.snd hc
  have hafter : (c.applyChanges P p).uniqueTransactions = (applyEntries P (TransactionEntry.remove P)
      (TransactionEntry.store P) p.transactions.table.stored p.transactions.table.removed
      c₀).uniqueTransactions := congrArg Prod.snd hc'
  have hnil : P.order.order ([] : List TransactionIdType) = [] := (P.order.perm []).eq_nil
  rw [hafter, hremoved, applyEntries, hnil, List.foldl_nil, mem_uniqueTransactions_foldl, hbefore]
  refine or_congr_right ?_
  simp only [(P.order.perm _).mem_iff, Prod.exists, mem_mapItems]

/-- Every transaction that is executed with those of a block is found under its id. -/
def FullBlock.Recorded (P : Primitives) (b : FullBlock) (c : ChainTables) : Prop :=
  ∀ u ∈ b.executed, ∃ e ∈ c.transactionIdToEntry.lookup (P.id u), P.uniqueKey e.trx = P.uniqueKey u

instance (b : FullBlock) (c : ChainTables) : Decidable (b.Recorded P c) := by
  unfold FullBlock.Recorded
  infer_instance

/-- A block with a number above 1 comes after the head. -/
theorem Extended.later (h : Extended N db clock b p db') (hb : 1 < b.blockNum) :
    db.headBlockHeader.timestamp < b.timestamp := by
  obtain ⟨pay, ⟨hblock⟩⟩ := evaluateBlock_ok h.evaluated
  have hheader := hblock.header
  simp only [verifyHeader, bind_eq_ok, ensure_eq_ok, exists_const, Bool.or_eq_true,
    decide_eq_true_eq] at hheader
  exact hheader.2.2.2.1.resolve_left (Nat.not_le.2 hb)

theorem Extended.takesIn (h : Extended N db clock b p db') :
    p.transactions.table.removed = [] ∧ TakesIn N.P (db.pending clock) p b.executed := by
  obtain ⟨pay, ⟨hblock⟩⟩ := evaluateBlock_ok h.evaluated
  obtain ⟨passes, happlied⟩ := applyTransactions_ok hblock.transactions
  obtain ⟨hcontinues, htakes⟩ := applyTransactionsFrom_takesIn happlied
  have hproduced : Continues N.P (db.pending clock) { db.pending clock with ledger := hblock.produced } :=
    ⟨.refl, (updateDelegateProductionInfo_ok hblock.production).writes.prev⟩
  have hstores : Stores N.P hblock.applied.transactions p.transactions := hblock.pending ▸ .refl
  exact ⟨hblock.pending ▸ hcontinues.transactions.removed rfl, htakes.widen hproduced hstores⟩

/-- What the unique set holds after a block: what has not expired of what it held, and of what the block
has executed. -/
theorem Extended.remembers (h : Extended N db clock b p db') (hrecorded : b.Recorded N.P db'.tables)
    {k : UniqueTransactionKey} (hk : db'.now clock < k.expiration)
    (hor : k ∈ db.tables.uniqueTransactions ∨ ∃ u ∈ b.executed, N.P.uniqueKey u = k) :
    k ∈ db'.tables.uniqueTransactions := by
  obtain ⟨hremoved, htakes⟩ := h.takesIn
  rw [h.tables]
  refine Finset.mem_filter.2 ⟨(mem_uniqueTransactions_applyChanges _ hremoved).2 (hor.imp_right ?_), hk⟩
  rintro ⟨u, hu, rfl⟩
  obtain ⟨e, he, hkey⟩ := hrecorded u hu
  obtain ⟨e', he'⟩ := Option.isSome_iff_exists.1 (AList.lookup_isSome.2 (htakes.taken u hu).stored)
  have hread : (db.tables.applyChanges N.P p).transactionIdToEntry.lookup (N.P.id u) = some e' := by
    rw [(ChainTables.written db.tables p).lookupTransaction, Overlay.lookup, he']
  rw [h.tables] at he
  obtain rfl : e' = e := Option.some.inj (hread.symm.trans he)
  exact ⟨_, _, he', hkey⟩

end Tables

/-! ## A chain that grows -/

/-- Blocks that extend the chain one after the other, each with the next number, and whose transactions are
found under their ids. In between anything happens that leaves the chain alone. -/
inductive Extends (N : Node) (db₀ : ChainDatabase) : List FullBlock → ChainDatabase → Prop
  | start : Extends N db₀ [] db₀
  | block {bs : List FullBlock} {db db' : ChainDatabase} (clock : TimePointSec) (b : FullBlock) :
    Extends N db₀ bs db → extendChain N db clock b = .ok db' →
    b.blockNum = db.headBlockHeader.blockNum + 1 → b.Recorded N.P db'.tables →
    Extends N db₀ (bs ++ [b]) db'
  | other {bs : List FullBlock} {db db' : ChainDatabase} :
    Extends N db₀ bs db → SameChain db db' → Extends N db₀ bs db'

/-- The unique set holds what has been executed and not expired, and nothing has been executed twice. -/
structure Remembered (N : Node) (bs : List FullBlock) (db : ChainDatabase) : Prop where
  numbered : bs ≠ [] → 0 < db.headBlockHeader.blockNum
  known : ∀ b ∈ bs, ∀ u ∈ b.executed, db.headBlockHeader.timestamp < u.expiration →
    N.P.uniqueKey u ∈ db.tables.uniqueTransactions
  apart : (bs.flatMap FullBlock.executed).Pairwise (KeptApart N.P)

section Growing

variable {bs : List FullBlock} {db₀ db db' : ChainDatabase} {clock : TimePointSec} {b : FullBlock}

theorem Remembered.block (h : Remembered N bs db) (hext : extendChain N db clock b = .ok db')
    (hnumber : b.blockNum = db.headBlockHeader.blockNum + 1) (hrecorded : b.Recorded N.P db'.tables) :
    Remembered N (bs ++ [b]) db' := by
  obtain ⟨p, hp⟩ := extendChain_ok hext
  obtain ⟨-, htakes⟩ := hp.takesIn
  have hheader := hp.headBlockHeader
  have hnow : db'.now clock = b.timestamp := by
    rw [ChainDatabase.now, hheader, if_neg]
    show b.blockNum ≠ 0
    omega
  constructor
  · intro _
    rw [hheader]
    show 0 < b.blockNum
    omega
  · rw [hheader]
    intro b' hb' u hu hlive
    refine hp.remembers hrecorded (hnow ▸ hlive) ?_
    obtain hb' | hb' := List.mem_append.1 hb'
    · have hpositive := h.numbered (List.ne_nil_of_mem hb')
      exact .inl (h.known b' hb' u hu ((hp.later (by omega)).trans hlive))
    · obtain rfl := List.mem_singleton.1 hb'
      exact .inr ⟨u, hu, rfl⟩
  · rw [List.flatMap_append, List.flatMap_singleton, List.pairwise_append]
    refine ⟨h.apart, htakes.apart, fun u hu u' hu' heq => ?_⟩
    obtain ⟨b', hb', hu⟩ := List.mem_flatMap.1 hu
    have htaken' := htakes.taken u' hu'
    have hbefore : db.now clock = db.headBlockHeader.timestamp :=
      if_neg (h.numbered (List.ne_nil_of_mem hb')).ne'
    have halive : db.headBlockHeader.timestamp < u'.expiration := hbefore ▸ htaken'.alive
    have hexpiration : u.expiration = u'.expiration := congrArg UniqueTransactionKey.expiration heq
    have hknown := h.known b' hb' u hu (hexpiration ▸ halive)
    refine absurd ?_ htaken'.unknown
    simp [PendingTransactions.isKnownTransaction, ChainDatabase.pending, ← heq, hknown]

/-- While the chain grows block by block, nothing is executed twice, unless a transaction has the digest of
one that it wraps. -/
theorem executed_once (h : Extends N db₀ bs db) (hdigest : ∀ u ∈ bs.flatMap FullBlock.executed,
    ∀ v ∈ executedBy u.operations, N.P.digest v ≠ N.P.digest u) :
    ((bs.flatMap FullBlock.executed).map N.P.uniqueKey).Nodup := by
  have hremembered : Remembered N bs db := by
    induction h with
    | start => exact ⟨fun h => absurd rfl h, by simp, .nil⟩
    | block clock b _ hext hnumber hrecorded ih =>
      rw [List.flatMap_append, List.forall_mem_append] at hdigest
      exact (ih hdigest.1).block hext hnumber hrecorded
    | other _ hsame ih =>
      obtain ⟨htables, -, hheader, -⟩ := hsame
      have ih := ih hdigest
      exact ⟨hheader ▸ ih.numbered, by rw [hheader, htables]; exact ih.known, ih.apart⟩
  refine List.pairwise_map.2 (hremembered.apart.imp_of_mem fun hu hu' hkept heq => ?_)
  exact hdigest _ hu' _ (hkept heq) (congrArg UniqueTransactionKey.digest heq)

/-- A contract is registered in one block and upgraded in the next, each by a result that wraps the
request. -/
theorem executed_once_upgrade :
    (([registerBlock, upgradeBlock].flatMap FullBlock.executed).map Node.plain.P.uniqueKey).Nodup := by
  have hblocks : returns (initializeGenesis Node.plain.P richGenesis false) (fun db =>
      returns (extendChain .plain (db.learn 1010 registerBlock) 100 registerBlock) fun db₁ =>
        decide (registerBlock.Recorded Node.plain.P db₁.tables) &&
          decide (registerBlock.blockNum = db.headBlockHeader.blockNum + 1) &&
          returns (extendChain .plain (db₁.learn 1011020 upgradeBlock) 100 upgradeBlock) fun db₂ =>
            decide (upgradeBlock.Recorded Node.plain.P db₂.tables) &&
              decide (upgradeBlock.blockNum = db₁.headBlockHeader.blockNum + 1)) = true := by
    decide +kernel
  obtain ⟨db₀, h₀, hblocks⟩ := exists_of_returns hblocks
  obtain ⟨db₁, h₁, hblocks⟩ := exists_of_returns hblocks
  simp only [Bool.and_eq_true, decide_eq_true_eq] at hblocks
  obtain ⟨⟨hrecorded₁, hnumber₁⟩, hblocks⟩ := hblocks
  obtain ⟨db₂, h₂, hblocks⟩ := exists_of_returns hblocks
  simp only [Bool.and_eq_true, decide_eq_true_eq] at hblocks
  obtain ⟨hrecorded₂, hnumber₂⟩ := hblocks
  have hfirst : Extends .plain db₀ [registerBlock] db₁ :=
    .block 100 registerBlock (.other .start (db₀.learn_same _ _)) h₁ hnumber₁ hrecorded₁
  exact executed_once (.block 100 upgradeBlock (.other hfirst (db₁.learn_same _ _)) h₂ hnumber₂ hrecorded₂)
    (by decide)

end Growing

end Achain
