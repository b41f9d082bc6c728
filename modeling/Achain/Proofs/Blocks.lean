import Achain.Proofs.Writes
import Achain.Proofs.Tables

/-!
# What an accepted block does

The task that `apply_transactions` starts for a transaction looks at entries collected from an
evaluation that has not begun, so it never fails a block. What is left of `apply_transactions` is
the evaluation of the transactions in order, each on the pending state its predecessors lead to.
Before and after them the statistics of the delegates, the pay and a few properties are written.
-/

namespace Achain

open Table Result

variable {P : Primitives} {V : Vm} {c : ApplyConfig} {p p' : PendingChainState} {n : Nat}
  {t : SignedTransaction} {ts us : List SignedTransaction} {acc acc' : PendingChainState × Bool}

/-- Nothing is collected before the evaluation has begun. -/
theorem EvalState.transactionEntryAnaly_init (b d : Bool) :
    (EvalState.init p b d).transactionEntryAnaly t = .empty := rfl

theorem ApplyConfig.taskPasses_init (b d : Bool) :
    c.taskPasses P (EvalState.init p b d) t = true := by
  unfold taskPasses
  split_ifs
  · rw [EvalState.transactionEntryAnaly_init, transactionSignatureCheck]
    cases t.signatures.foldlM (EvalState.recoverInto P (P.digest t)) [] with
    | error e => rfl
    | ok keys => rfl
  · rfl

/-- What one transaction of a block does. -/
structure Applied (P : Primitives) (V : Vm) (c : ApplyConfig) (p : PendingChainState) (n : Nat)
    (t : SignedTransaction) (p' : PendingChainState) where
  skipexec : Bool
  ids : List TransactionIdType
  s : EvalState
  skipexec_eq : c.skipexec t = .ok skipexec
  evaluated : evaluate P V (.init p true skipexec) t = .ok s
  located : locatedIds P t = .ok ids
  relocated : ids.foldlM (relocate P ⟨c.blockNum, n⟩) s.transactions = .ok p'.transactions
  ledger : p'.ledger = s.st.ledger

theorem applyTransaction_ok (h : applyTransaction P V c p n t = .ok acc') :
    acc'.2 = true ∧ Nonempty (Applied P V c p n t acc'.1) := by
  simp only [applyTransaction, ApplyConfig.taskPasses_init, bind_eq_ok, ensure_eq_ok, pure_eq_ok,
    exists_const] at h
  obtain ⟨-, e, he, s, hs, ids, hids, tr, htr, rfl⟩ := h
  exact ⟨rfl, ⟨e, ids, s, he, hs, hids, htr, rfl⟩⟩

theorem applyTransactionsFrom_append : ∀ (ts us : List SignedTransaction) (n : Nat)
    (acc : PendingChainState × Bool), applyTransactionsFrom P V c n (ts ++ us) acc =
      (applyTransactionsFrom P V c n ts acc >>= applyTransactionsFrom P V c (n + ts.length) us)
  | [], us, n, acc => rfl
  | t :: ts, us, n, acc => by
    simp only [List.cons_append, applyTransactionsFrom, List.length_cons]
    cases applyTransaction P V c acc.1 n t with
    | error e => rfl
    | ok r =>
      rw [ok_bind, ok_bind, applyTransactionsFrom_append ts us, Nat.add_right_comm n 1,
        Nat.add_assoc]

theorem applyTransactionsFrom_cons (h : applyTransactionsFrom P V c n (t :: ts) acc = .ok acc') :
    ∃ q, Nonempty (Applied P V c acc.1 n t q) ∧
      applyTransactionsFrom P V c (n + 1) ts (q, acc.2) = .ok acc' := by
  rw [applyTransactionsFrom, bind_eq_ok] at h
  obtain ⟨⟨q, b⟩, hq, h⟩ := h
  obtain ⟨hb, happlied⟩ := applyTransaction_ok hq
  obtain rfl : b = true := hb
  simp only [Bool.and_true] at h
  exact ⟨q, happlied, h⟩

theorem applyTransactions_ok (h : applyTransactions P V c ts p = .ok p') :
    ∃ b, applyTransactionsFrom P V c 0 ts (p, true) = .ok (p', b) := by
  simp only [applyTransactions, bind_eq_ok, ensure_eq_ok, pure_eq_ok, exists_const] at h
  obtain ⟨⟨q, b⟩, hq, -, rfl⟩ := h
  exact ⟨b, hq⟩

/-- A relation between pending states that every transaction keeps is kept by a block's
transactions. -/
theorem applyTransactions_rel {R : PendingChainState → PendingChainState → Prop}
    (hrefl : ∀ p, R p p) (htrans : ∀ p q r, R p q → R q r → R p r)
    (hstep : ∀ t ∈ ts, ∀ n p p', Applied P V c p n t p' → R p p')
    (h : applyTransactions P V c ts p = .ok p') : R p p' := by
  obtain ⟨b, h⟩ := applyTransactions_ok h
  have hfrom : ∀ (us : List SignedTransaction), us ⊆ ts → ∀ n acc acc',
      applyTransactionsFrom P V c n us acc = .ok acc' → R acc.1 acc'.1 := by
    intro us
    induction us with
    | nil =>
      intro _ n acc acc' h
      obtain rfl := ok_eq_ok.1 h
      exact hrefl _
    | cons u us ih =>
      intro hsub n acc acc' h
      obtain ⟨q, ⟨happlied⟩, h⟩ := applyTransactionsFrom_cons h
      have hu : u ∈ ts := hsub (List.mem_cons_self ..)
      exact htrans _ _ _ (hstep u hu n _ _ happlied)
        (ih (fun v hv => hsub (List.mem_cons_of_mem _ hv)) (n + 1) _ _ h)
  exact hfrom ts (List.Subset.refl ts) 0 _ _ h

/-! ## The delegates -/

variable {N : Node} {db db' : ChainDatabase} {clock : TimePointSec} {b : FullBlock}
  {signee : PublicKeyType} {l l' : Ledger}

theorem Ledger.delegate_ok {id : AccountIdType} {r : AccountEntry × DelegateStats}
    (h : l.delegate id = .ok r) : l.getAccount id = some r.1 ∧ r.1.delegateInfo = some r.2 := by
  simp only [delegate, bind_eq_ok, orThrow_eq_ok, pure_eq_ok] at h
  obtain ⟨e, he, stats, hstats, rfl⟩ := h
  exact ⟨he, hstats⟩

/-- The account entries differ in the production statistics of the delegate alone. -/
structure AccountEntry.SameButStatistics (e e' : AccountEntry) : Prop where
  id : e'.id = e.id
  name : e'.name = e.name
  ownerKey : e'.ownerKey = e.ownerKey
  activeKeyHistory : e'.activeKeyHistory = e.activeKeyHistory
  signingKeyHistory : e'.delegateInfo.map DelegateStats.signingKeyHistory =
    e.delegateInfo.map DelegateStats.signingKeyHistory
  netVotes : e'.netVotes = e.netVotes
  payBalance : e'.payBalance = e.payBalance

theorem AccountEntry.sameButStatistics {e : AccountEntry} {stats stats' : DelegateStats}
    (hstats : e.delegateInfo = some stats)
    (hkeys : stats'.signingKeyHistory = stats.signingKeyHistory)
    (hvotes : stats'.votesFor = stats.votesFor) (hpay : stats'.payBalance = stats.payBalance) :
    e.SameButStatistics { e with delegateInfo := some stats' } := by
  refine ⟨rfl, rfl, rfl, rfl, ?_, ?_, ?_⟩
  · rw [hstats, Option.map_some, Option.map_some, hkeys]
  · simp only [netVotes, hstats, hvotes]
  · simp only [payBalance, hstats, hpay]

/-- The writes of the production statistics. -/
inductive StatisticsWrite (P : Primitives) (l : Ledger) : Ledger → Prop
  | account (k : AccountIdType) (e e' : AccountEntry) : l.getAccount k = some e →
      e.SameButStatistics e' → StatisticsWrite P l (l.storeAccount P e')
  | slot (e : SlotEntry) : StatisticsWrite P l (l.storeSlot e)
  | property (id : PropertyIdType) (v : PropertyValue) :
      StatisticsWrite P l (l.storeProperty id v)

abbrev StatisticsWrites (P : Primitives) : Ledger → Ledger → Prop :=
  Relation.ReflTransGen (StatisticsWrite P)

theorem StatisticsWrite.write (h : StatisticsWrite P l l') : Write P l l' := by
  cases h with
  | account _ _ e' _ _ => exact .account e'
  | slot e => exact .slot e
  | property id v => exact .property id v

theorem StatisticsWrites.writes (h : StatisticsWrites P l l') : Writes P l l' := by
  induction h with
  | refl => exact .refl
  | tail _ hw ih => exact ih.tail hw.write

/-- Storing the slot of a delegate, with statistics on. -/
theorem StatisticsWrites.slotIf {on : Bool} {l₁ : Ledger} (h : StatisticsWrites P l l₁)
    (e : SlotEntry) : StatisticsWrites P l (if on then l₁.storeSlot e else l₁) := by
  split_ifs
  · exact h.tail (.slot e)
  · exact h

theorem missSlot_ok {delegates : List AccountIdType} {timestamp : TimePointSec}
    (h : missSlot N db delegates l timestamp = .ok l') : StatisticsWrites N.P l l' := by
  simp only [missSlot, bind_eq_ok, pure_eq_ok, Prod.exists] at h
  obtain ⟨signee, _, -, e, stats, hdelegate, rfl⟩ := h
  obtain ⟨he, hstats⟩ := Ledger.delegate_ok hdelegate
  refine StatisticsWrites.slotIf ?_ _
  exact .single (.account _ e _ he (AccountEntry.sameButStatistics hstats rfl rfl rfl))

theorem updateDelegateProductionInfo_ok
    (h : updateDelegateProductionInfo N db b signee l = .ok l') : StatisticsWrites N.P l l' := by
  simp only [updateDelegateProductionInfo, bind_eq_ok, ensure_eq_ok, pure_eq_ok, exists_const,
    Prod.exists] at h
  obtain ⟨delegate, -, e, stats, hdelegate, -, _, -, l₁, hmissed, rfl⟩ := h
  obtain ⟨he, hstats⟩ := Ledger.delegate_ok hdelegate
  have hmissed' := foldlM_rel (R := StatisticsWrites N.P) (fun _ => .refl) (fun _ _ _ => .trans)
    (fun _ _ _ _ => missSlot_ok) hmissed
  refine .tail (.trans ?_ hmissed') (.property _ _)
  refine StatisticsWrites.slotIf ?_ _
  exact .single (.account _ e _ he (AccountEntry.sameButStatistics hstats rfl rfl rfl))

/-- What the payment of a delegate writes. -/
structure Payment (N : Node) (db : ChainDatabase) (signee : PublicKeyType) (l : Ledger)
    (pay : Paycheck) (l' : Ledger) where
  base : AssetEntry
  delegate : AccountEntry
  entry : AccountEntry
  stats : DelegateStats
  base_eq : l.getAsset 0 = some base
  delegate_eq : db.tables.accountLookupByAddress (N.P.address signee) = some delegate
  entry_eq : l.getAccount delegate.id = some entry
  stats_eq : entry.delegateInfo = some stats
  destroys : 0 ≤ pay.destroyed
  pay_eq : pay = paycheck db.headBlockHeader.blockNum stats.payRate base.collectedFees
  ledger : l' = (l.storeAccount N.P
    { entry with
      delegateInfo := some { stats with
        votesFor := stats.votesFor + pay.amount
        payBalance := stats.payBalance + pay.amount
        totalPaid := stats.totalPaid + pay.amount } }).storeAsset
    { base with
      currentShareSupply := base.currentShareSupply + pay.issued - pay.destroyed
      collectedFees := base.collectedFees - pay.collected }

theorem payDelegate_ok (h : payDelegate N db signee l = .ok l') :
    ∃ pay, Nonempty (Payment N db signee l pay l') := by
  simp only [payDelegate, bind_eq_ok, ensure_eq_ok, orThrow_eq_ok, pure_eq_ok, exists_const,
    Prod.exists] at h
  obtain ⟨base, hbase, delegate, haddress, e, stats, hdelegate, -, hpay, -, rfl⟩ := h
  obtain ⟨he, hstats⟩ := Ledger.delegate_ok hdelegate
  simp only [Bool.and_eq_true, decide_eq_true_eq] at hpay
  exact ⟨_, ⟨base, delegate, e, stats, hbase, haddress, he, hstats, hpay.2, rfl, rfl⟩⟩

/-- The payment is determined by the state it is made on. -/
theorem Payment.unique {pay pay' : Paycheck} {l₁ l₂ : Ledger} (h : Payment N db signee l pay l₁)
    (h' : Payment N db signee l pay' l₂) : pay = pay' := by
  have hbase : h.base = h'.base := Option.some.inj (h.base_eq.symm.trans h'.base_eq)
  have hdelegate : h.delegate = h'.delegate :=
    Option.some.inj (h.delegate_eq.symm.trans h'.delegate_eq)
  have hentry : h.entry = h'.entry := by
    have he := h.entry_eq
    rw [hdelegate, h'.entry_eq] at he
    exact (Option.some.inj he).symm
  have hstats : h.stats = h'.stats := by
    have hs := h.stats_eq
    rw [hentry, h'.stats_eq] at hs
    exact (Option.some.inj hs).symm
  rw [h.pay_eq, h'.pay_eq, hbase, hstats]

theorem Payment.writes {pay : Paycheck} (h : Payment N db signee l pay l') : Writes N.P l l' := by
  rw [h.ledger]
  exact (Writes.one (.account _)).tail (.asset _)

/-! ## The block -/

/-- The stages of the evaluation of a block. -/
structure BlockEvaluated (N : Node) (db : ChainDatabase) (clock : TimePointSec) (b : FullBlock)
    (pay : Paycheck) (p : PendingChainState) where
  signee : PublicKeyType
  produced : Ledger
  applied : PendingChainState
  paid : Ledger
  signee_eq : blockSignee N db b = .ok signee
  header : verifyHeader N db clock b signee = .ok ()
  production : updateDelegateProductionInfo N db b signee (db.pending clock).ledger = .ok produced
  transactions : applyTransactions N.P N.V (db.applyConfig b.blockNum) b.userTransactions
    { db.pending clock with ledger := produced } = .ok applied
  payment : Payment N db signee applied.ledger pay paid
  rest : StatisticsWrites N.P paid p.ledger
  pending : p.transactions = applied.transactions

/-- The writes after the payment are those of the list of delegates and of the seed. -/
theorem roundEnd_rel {R : Ledger → Ledger → Prop} (hrefl : ∀ l, R l l)
    (htrans : ∀ {l₁ l₂ l₃}, R l₁ l₂ → R l₂ l₃ → R l₁ l₃)
    (hlist : ∀ l v, R l (l.storeProperty .activeDelegateListId v))
    (hseed : ∀ l v, R l (l.storeProperty .lastRandomSeedId v)) (secret : DigestType) (n : Nat)
    (l : Ledger) : R l (updateRandomSeed N secret (updateActiveDelegateList N db n l)) := by
  refine htrans ?_ (hseed _ _)
  unfold updateActiveDelegateList
  split_ifs
  · exact hlist _ _
  · exact hrefl _

theorem evaluateBlock_ok {p : PendingChainState} (h : evaluateBlock N db clock b = .ok p) :
    ∃ pay, Nonempty (BlockEvaluated N db clock b pay p) := by
  simp only [evaluateBlock, bind_eq_ok, pure_eq_ok] at h
  obtain ⟨signee, hsignee, ⟨⟩, hheader, l₁, hproduced, p₂, happlied, l₃, hpaid, rfl⟩ := h
  obtain ⟨pay, ⟨hpayment⟩⟩ := payDelegate_ok hpaid
  refine ⟨pay, ⟨signee, l₁, p₂, l₃, hsignee, hheader, hproduced, happlied, hpayment, ?_, rfl⟩⟩
  exact roundEnd_rel (R := StatisticsWrites N.P) (fun _ => .refl) .trans
    (fun _ _ => .single (.property _ _)) (fun _ _ => .single (.property _ _)) _ _ _

theorem Applied.writes (h : Applied P V c p n t p') : Writes P p.ledger p'.ledger := by
  rw [h.ledger]
  exact evaluate_writes h.evaluated

theorem BlockEvaluated.writes {pay : Paycheck} {p : PendingChainState}
    (h : BlockEvaluated N db clock b pay p) :
    Writes N.P (.ofView (db.toView clock)) p.ledger := by
  have happlied : Writes N.P h.produced h.applied.ledger :=
    applyTransactions_rel (R := fun p p' => Writes N.P p.ledger p'.ledger) (fun _ => .refl)
      (fun _ _ _ => .trans) (fun _ _ _ _ _ => Applied.writes) h.transactions
  have hproduced := (updateDelegateProductionInfo_ok h.production).writes
  exact (hproduced.trans happlied).trans (h.payment.writes.trans h.rest.writes)

/-- The payment of a block, as `pay_delegate` computes it on the state after the transactions. -/
def PaidBy (N : Node) (db : ChainDatabase) (clock : TimePointSec) (b : FullBlock)
    (pay : Paycheck) : Prop :=
  ∃ p, Nonempty (BlockEvaluated N db clock b pay p)

theorem PaidBy.unique {pay pay' : Paycheck} (h : PaidBy N db clock b pay)
    (h' : PaidBy N db clock b pay') : pay = pay' := by
  obtain ⟨p, ⟨⟨signee, l₁, p₁, _, hsignee, -, hproduced, happlied, hpayment, -, -⟩⟩⟩ := h
  obtain ⟨p', ⟨⟨signee', l₂, p₂, _, hsignee', -, hproduced', happlied', hpayment', -, -⟩⟩⟩ := h'
  obtain rfl := ok_eq_ok.1 (hsignee.symm.trans hsignee')
  obtain rfl := ok_eq_ok.1 (hproduced.symm.trans hproduced')
  obtain rfl := ok_eq_ok.1 (happlied.symm.trans happlied')
  exact hpayment.unique hpayment'

/-- What `extend_chain` changes. -/
structure Extended (N : Node) (db : ChainDatabase) (clock : TimePointSec) (b : FullBlock)
    (p : PendingChainState) (db' : ChainDatabase) : Prop where
  evaluated : evaluateBlock N db clock b = .ok p
  undo : saveUndoState N db b p = .ok db'.blockIdToUndoState
  tables : db'.tables = (db.tables.applyChanges N.P p).purge (db'.now clock)
  headBlockId : db'.headBlockId = N.B.id b.toSignedBlockHeader
  headBlockHeader : db'.headBlockHeader = b.toSignedBlockHeader
  forkDb : markIncluded db db'.headBlockId true = .ok db'.forkDb

theorem extendChain_ok (h : extendChain N db clock b = .ok db') :
    ∃ p, Extended N db clock b p db' := by
  simp only [extendChain, bind_eq_ok, pure_eq_ok] at h
  obtain ⟨p, hp, undo, hundo, forkDb, hfork, rfl⟩ := h
  exact ⟨p, hp, hundo, rfl, rfl, rfl, hfork⟩

namespace Extended

variable {p : PendingChainState} (h : Extended N db clock b p db')

include h

theorem prev : p.ledger.prev = db.toView clock := by
  obtain ⟨pay, ⟨hblock⟩⟩ := evaluateBlock_ok h.evaluated
  exact hblock.writes.prev

/-! The tables after the block read as the pending state did. -/

theorem lookupAsset (k : AssetIdType) :
    db'.tables.assetIdToEntry.lookup k = p.ledger.getAsset k := by
  have hwritten := (ChainTables.written (P := N.P) db.tables p).lookupAsset k
  rw [h.tables, Ledger.getAsset, h.prev]
  exact hwritten

theorem lookupBalance (k : BalanceIdType) :
    db'.tables.balanceIdToEntry.lookup k = p.ledger.getBalance k := by
  have hwritten := (ChainTables.written (P := N.P) db.tables p).lookupBalance k
  rw [h.tables, Ledger.getBalance, h.prev]
  exact hwritten

theorem lookupAccount (k : AccountIdType) :
    db'.tables.accountIdToEntry.lookup k = p.ledger.getAccount k := by
  have hwritten := (ChainTables.written (P := N.P) db.tables p).lookupAccount k
  rw [h.tables, Ledger.getAccount, h.prev]
  exact hwritten

theorem lookupContract (k : ContractIdType) :
    db'.tables.contractIdToEntry.lookup k = p.ledger.getContract k := by
  have hwritten := (ChainTables.written (P := N.P) db.tables p).lookupContract k
  rw [h.tables, Ledger.getContract, h.prev]
  exact hwritten

theorem lookupProperty (k : PropertyIdType) :
    db'.tables.propertyIdToEntry.lookup k = p.ledger.getProperty k := by
  have hwritten := (ChainTables.written (P := N.P) db.tables p).lookupProperty k
  rw [h.tables, Ledger.getProperty, h.prev]
  exact hwritten

end Extended

end Achain
