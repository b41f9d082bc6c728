import Achain.Proofs.ContractNames
import Achain.Proofs.Moves

/-!
# The conservation of shares

The balances of an asset, for the base asset the pay of the delegates, and what is outstanding of it
sum to zero in every state of a run whose results are settled. So the supply of every asset is the
one that `calculate_supply` finds.
-/

namespace Achain

open Table Result

variable {P : Primitives} {V : Vm} {N : Node} {l l' l₁ : Ledger} {a : AssetIdType}
  {m m' : Map AssetIdType ShareType}

/-! ## Blocks -/

variable {db db' db₀ : ChainDatabase} {clock : TimePointSec} {b : FullBlock} {pay : Paycheck}
  {p p' : PendingChainState} {c : ApplyConfig} {ts : List SignedTransaction}

def FullBlock.Settled (b : FullBlock) : Prop := ∀ t ∈ b.userTransactions, t.Settled

/-- What a ledger accounts for is kept. -/
def Conserves (P : Primitives) (l l' : Ledger) : Prop :=
  l.InOrder P → l'.InOrder P ∧ ∀ a, l'.excess a = l.excess a

theorem Conserves.refl (l : Ledger) : Conserves P l l := fun h => ⟨h, fun _ => rfl⟩

theorem Conserves.trans (h : Conserves P l l₁) (h' : Conserves P l₁ l') : Conserves P l l' := by
  intro hl
  obtain ⟨hl₁, hexcess⟩ := h hl
  obtain ⟨hl', hexcess'⟩ := h' hl₁
  exact ⟨hl', fun a => (hexcess' a).trans (hexcess a)⟩

theorem Moves.conserves (h : Moves P l m l' m) : Conserves P l l' := by
  intro hl
  obtain ⟨hl', hworth⟩ := h hl
  exact ⟨hl', fun a => add_right_cancel (hworth a)⟩

theorem applyTransactions_conserves (hts : ∀ t ∈ ts, t.Settled)
    (h : applyTransactions P V c ts p = .ok p') : Conserves P p.ledger p'.ledger := by
  refine applyTransactions_rel (R := fun p p' => Conserves P p.ledger p'.ledger)
    (fun _ => .refl _) (fun _ _ _ => .trans) ?_ h
  intro t ht n p p' happlied
  have hevaluated : Conserves P (EvalState.init p true happlied.skipexec).st.ledger
      happlied.s.st.ledger :=
    fun hl => evaluate_excess happlied.evaluated (hts t ht) hl rfl
  rw [happlied.ledger]
  exact hevaluated

theorem Conserves.samePay {k : AccountIdType} {e e' : AccountEntry} (he : l.getAccount k = some e)
    (hsame : e.SameButStatistics e') : Conserves P l (l.storeAccount P e') :=
  (Moves.samePay (m := ∅) he hsame.id hsame.payBalance).conserves

theorem Conserves.property {id : PropertyIdType} (v : PropertyValue) (hid : id ≠ .lastAccountId) :
    Conserves P l (l.storeProperty id v) := by
  refine Moves.conserves (m := ∅) (.of_same (.one (.property _ _)) (.storeProperty _ _) ?_)
  exact (Ledger.getProperty_storeProperty _ _ _).trans (if_neg hid.symm)

theorem Conserves.slotIf (h : Conserves P l l₁) (on : Bool) (e : SlotEntry) :
    Conserves P l (if on then l₁.storeSlot e else l₁) := by
  split_ifs
  · exact h.trans (Moves.conserves (m := ∅) (.of_same (.one (.slot _)) ⟨by simp, by simp, by simp,
      by simp⟩ (by simp [Ledger.getProperty])))
  · exact h

theorem missSlot_conserves {delegates : List AccountIdType} {timestamp : TimePointSec}
    (h : missSlot N db delegates l timestamp = .ok l') : Conserves N.P l l' := by
  simp only [missSlot, bind_eq_ok, pure_eq_ok, Prod.exists] at h
  obtain ⟨signee, _, -, e, stats, hdelegate, rfl⟩ := h
  obtain ⟨he, hstats⟩ := Ledger.delegate_ok hdelegate
  refine Conserves.slotIf ?_ _ _
  exact .samePay he (AccountEntry.sameButStatistics hstats rfl rfl rfl)

theorem production_conserves {signee : PublicKeyType}
    (h : updateDelegateProductionInfo N db b signee l = .ok l') : Conserves N.P l l' := by
  simp only [updateDelegateProductionInfo, bind_eq_ok, ensure_eq_ok, pure_eq_ok, exists_const,
    Prod.exists] at h
  obtain ⟨delegate, -, e, stats, hdelegate, -, _, -, l₁, hmissed, rfl⟩ := h
  obtain ⟨he, hstats⟩ := Ledger.delegate_ok hdelegate
  have hmissed' := foldlM_rel (R := Conserves N.P) (fun _ => .refl _) (fun _ _ _ => .trans)
    (fun _ _ _ _ => missSlot_conserves) hmissed
  refine .trans (.trans ?_ hmissed') (.property _ nofun)
  refine Conserves.slotIf ?_ _ _
  exact .samePay he (AccountEntry.sameButStatistics hstats rfl rfl rfl)

/-- An account gets what is taken from what is outstanding of the base asset. -/
theorem Conserves.paid {k : AccountIdType} {e e' : AccountEntry} {base base' : AssetEntry}
    {x : ShareType} (he : l.getAccount k = some e) (hid : e'.id = e.id)
    (hpay : e'.payBalance = e.payBalance + x) (hbase : l.getAsset 0 = some base)
    (hid' : base'.id = base.id) (hout : base'.outstanding = base.outstanding - x) :
    Conserves P l ((l.storeAccount P e').storeAsset base') := by
  have hpaid : Moves P l ∅ (l.storeAccount P e') (tallyAdd ∅ 0 (-x)) :=
    .account he hid (hpay.trans (sub_neg_eq_add _ _).symm)
  have hbase' : (l.storeAccount P e').getAsset 0 = some base := by
    rw [← hbase, Ledger.getAsset, Ledger.storeAccount_asset, Ledger.storeAccount_prev,
      Ledger.getAsset]
  intro hl
  obtain ⟨hl', hworth⟩ := hpaid.trans (.asset (m := tallyAdd ∅ 0 (-x)) hbase' hid' hout) hl
  refine ⟨hl', fun a => ?_⟩
  have hzero : amountAt (tallyAdd (tallyAdd ∅ 0 (-x)) 0 x) a = amountAt ∅ a := by
    rw [amountAt_tallyAdd, amountAt_tallyAdd]
    split_ifs
    · rw [add_assoc, neg_add_cancel, add_zero]
    · rw [add_zero, add_zero]
  have hworth := hworth a
  rw [hzero] at hworth
  exact add_right_cancel hworth

/-- What is paid to the delegate is issued or taken from the fees, and the rest is destroyed. -/
theorem Payment.conserves {signee : PublicKeyType} (h : Payment N db signee l pay l') :
    Conserves N.P l l' := by
  obtain ⟨base, _, entry, stats, hbase, -, hentry, hstats, -, -, rfl⟩ := h
  refine .paid (x := pay.amount) hentry rfl ?_ hbase rfl ?_
  · rw [AccountEntry.payBalance, AccountEntry.payBalance, hstats]
  · simp only [AssetEntry.outstanding, Paycheck.destroyed, Paycheck.amount]
    abel

theorem evaluateBlock_conserves (h : evaluateBlock N db clock b = .ok p) (hb : b.Settled) :
    Conserves N.P (db.pending clock).ledger p.ledger := by
  simp only [evaluateBlock, bind_eq_ok, pure_eq_ok] at h
  obtain ⟨signee, -, ⟨⟩, -, l₁, hproduced, p₂, happlied, l₃, hpaid, rfl⟩ := h
  obtain ⟨pay, ⟨hpayment⟩⟩ := payDelegate_ok hpaid
  have htransactions :=
    (production_conserves hproduced).trans (applyTransactions_conserves hb happlied)
  refine (htransactions.trans hpayment.conserves).trans ?_
  exact roundEnd_rel .refl .trans (fun _ _ => .property _ nofun) (fun _ _ => .property _ nofun) _ _ _

namespace ChainDatabase

/-- The shares of an asset in the balances and the pay, and what is outstanding of it. -/
def excess (a : AssetIdType) (db : ChainDatabase) : ShareType :=
  total (BalanceEntry.shares a) db.tables.balanceIdToEntry +
    total (AccountEntry.payShares a) db.tables.accountIdToEntry +
    val AssetEntry.outstanding (db.tables.assetIdToEntry.lookup a)

structure InOrder (P : Primitives) (db : ChainDatabase) : Prop where
  keyed : db.Keyed P
  spendable : ∀ {k e}, db.tables.balanceIdToEntry.lookup k = some e → e.condition.data ≠ .null
  fresh : ∃ n, db.tables.propertyIdToEntry.lookup .lastAccountId = some (.id n) ∧
    ∀ {k e}, db.tables.accountIdToEntry.lookup k = some e → k ≤ n

theorem InOrder.pending (h : db.InOrder P) (clock : TimePointSec) :
    (db.pending clock).ledger.InOrder P :=
  ⟨h.keyed.tables.pending clock, h.spendable, h.fresh⟩

end ChainDatabase

theorem Extended.excess (h : Extended N db clock b p db') :
    db'.excess a + (db.pending clock).ledger.excess a = db.excess a + p.ledger.excess a := by
  have hbalances : total (BalanceEntry.shares a) db'.tables.balanceIdToEntry =
      total (BalanceEntry.shares a) db.tables.balanceIdToEntry +
        p.ledger.balance.delta (BalanceEntry.shares a) db.tables.balanceIdToEntry.lookup := by
    refine Overlay.total_of_lookup _ fun k => ?_
    rw [h.lookupBalance, Ledger.getBalance, h.prev]
    rfl
  have haccounts : total (AccountEntry.payShares a) db'.tables.accountIdToEntry =
      total (AccountEntry.payShares a) db.tables.accountIdToEntry +
        p.ledger.account.delta (AccountEntry.payShares a) db.tables.accountIdToEntry.lookup := by
    refine Overlay.total_of_lookup _ fun k => ?_
    rw [h.lookupAccount, Ledger.getAccount, h.prev]
    rfl
  have hpending : (db.pending clock).ledger.excess a =
      val AssetEntry.outstanding (db.tables.assetIdToEntry.lookup a) := by
    show 0 + 0 + val AssetEntry.outstanding (db.tables.assetIdToEntry.lookup a) = _
    rw [zero_add, zero_add]
  have hexcess : p.ledger.excess a =
      p.ledger.balance.delta (BalanceEntry.shares a) db.tables.balanceIdToEntry.lookup +
        p.ledger.account.delta (AccountEntry.payShares a) db.tables.accountIdToEntry.lookup +
        val AssetEntry.outstanding (p.ledger.getAsset a) := by
    rw [Ledger.excess, h.prev]
    rfl
  rw [hpending, hexcess, ChainDatabase.excess, ChainDatabase.excess, hbalances, haccounts,
    h.lookupAsset]
  abel

/-- A settled block conserves the shares of every asset. -/
theorem extendChain_excess (h : extendChain N db clock b = .ok db') (hb : b.Settled)
    (hdb : db.InOrder N.P) : db'.InOrder N.P ∧ ∀ a, db'.excess a = db.excess a := by
  obtain ⟨p, hp⟩ := extendChain_ok h
  obtain ⟨horder, hexcess⟩ := evaluateBlock_conserves hp.evaluated hb (hdb.pending clock)
  refine ⟨⟨hdb.keyed.extend h, fun {k e} he => ?_, ?_⟩, fun a => ?_⟩
  · rw [hp.lookupBalance] at he
    exact horder.spendable he
  · obtain ⟨n, hn, hfresh⟩ := horder.fresh
    refine ⟨n, ?_, fun {k e} he => ?_⟩
    · rw [hp.lookupProperty]
      exact hn
    · rw [hp.lookupAccount] at he
      exact hfresh he
  · have hblock := hp.excess (a := a)
    rw [hexcess] at hblock
    exact add_right_cancel hblock

/-! ## The genesis state -/

section Genesis

variable {g : GenesisState} {on : Bool}

/-- The delegates have the ids given, and no pay. -/
theorem genesisDelegates_accounts (timestamp : TimePointSec) : ∀ (ds : List GenesisDelegate)
    (c : ChainTables) (last : AccountIdType),
    (∀ k e, c.accountIdToEntry.lookup k = some e → k ≤ last ∧ e.payBalance = 0) →
    ∀ k e, (genesisDelegates P timestamp c last ds).1.accountIdToEntry.lookup k = some e →
      k ≤ (genesisDelegates P timestamp c last ds).2 ∧ e.payBalance = 0
  | [], _, _, hc => hc
  | d :: ds, c, last, hc => by
    refine genesisDelegates_accounts timestamp ds _ _ fun k e he => ?_
    rw [(ChainTables.accountHooks (P := P)).read_store c (last + 1)
      (d.entry (last + 1) timestamp) k] at he
    split_ifs at he with hk
    · exact ⟨hk.le, Option.some.inj he ▸ rfl⟩
    · obtain ⟨hle, hpay⟩ := hc k e he
      exact ⟨hle.trans (by simp), hpay⟩

theorem genesisBalance_total (timestamp : TimePointSec) {c : ChainTables} (b : GenesisBalance)
    (hc : ∀ k e, c.balanceIdToEntry.lookup k = some e → e.assetId = 0) :
    total (BalanceEntry.shares 0) (genesisBalance P timestamp c b).balanceIdToEntry =
      total (BalanceEntry.shares 0) c.balanceIdToEntry + b.balance := by
  have hstored : ∀ x, total (BalanceEntry.shares 0) (c.balanceIdToEntry.insert
      (P.conditionAddress b.condition) ⟨b.condition, x, 0, timestamp, none⟩) =
      total (BalanceEntry.shares 0) c.balanceIdToEntry + (x - val (BalanceEntry.shares 0)
        (c.balanceIdToEntry.lookup (P.conditionAddress b.condition))) :=
    fun x => total_insert _ _ _ _
  refine (hstored _).trans ?_
  cases hcur : c.balanceIdToEntry.lookup (P.conditionAddress b.condition) with
  | none =>
    dsimp only
    rw [val_none, sub_zero]
  | some cur =>
    dsimp only
    rw [val_some, BalanceEntry.shares, if_pos (hc _ _ hcur), add_sub_cancel_right]

/-- The balances are of the base asset, can be spent, and sum to the supply. -/
theorem genesisBalances_total (timestamp : TimePointSec) (bs : List GenesisBalance)
    (c : ChainTables)
    (hc : ∀ k e, c.balanceIdToEntry.lookup k = some e → e.assetId = 0 ∧ e.condition.data ≠ .null) :
    (∀ k e, (bs.foldl (genesisBalance P timestamp) c).balanceIdToEntry.lookup k = some e →
        e.assetId = 0 ∧ e.condition.data ≠ .null) ∧
      total (BalanceEntry.shares 0) (bs.foldl (genesisBalance P timestamp) c).balanceIdToEntry =
        bs.foldl (fun sum b => sum + b.balance)
          (total (BalanceEntry.shares 0) c.balanceIdToEntry) := by
  induction bs generalizing c with
  | nil => exact ⟨hc, rfl⟩
  | cons b bs ih =>
    have htotal := genesisBalance_total (P := P) timestamp b fun k e he => (hc k e he).1
    have hc' : ∀ k e, (genesisBalance P timestamp c b).balanceIdToEntry.lookup k = some e →
        e.assetId = 0 ∧ e.condition.data ≠ .null := by
      intro k e he
      rw [genesisBalance, ChainTables.balanceHooks.read_store] at he
      split_ifs at he
      · exact Option.some.inj he ▸ ⟨rfl, nofun⟩
      · exact hc k e he
    obtain ⟨hspendable, hsum⟩ := ih _ hc'
    exact ⟨hspendable, hsum.trans (congrArg (bs.foldl fun sum b => sum + b.balance) htotal)⟩

theorem genesisAssets_outstanding (timestamp : TimePointSec) : ∀ (as : List GenesisAsset)
    (c : ChainTables) (last : AssetIdType),
    (∀ k e, k ≠ 0 → c.assetIdToEntry.lookup k = some e → e.outstanding = 0) →
    ∀ k e, k ≠ 0 → (genesisAssets timestamp c last as).1.assetIdToEntry.lookup k = some e →
      e.outstanding = 0
  | [], _, _, hc => hc
  | asset :: as, c, last, hc => by
    refine genesisAssets_outstanding timestamp as _ _ fun k e hk he => ?_
    rw [ChainTables.assetHooks.read_store c (last + 1) (asset.entry (last + 1) timestamp) k] at he
    split_ifs at he
    · exact Option.some.inj he ▸ sub_self _
    · exact hc k e hk he

theorem genesisTables_lastAccountId (g : GenesisState) (on : Bool) :
    (genesisTables P g on).propertyIdToEntry.lookup .lastAccountId =
      some (.id (genesisDelegates P g.timestamp (.empty on) 0 g.delegates).2) := by
  have hinsert : ∀ (c : ChainTables) (id : PropertyIdType) (v : PropertyValue),
      (PropertyEntry.store c id v).propertyIdToEntry = c.propertyIdToEntry.insert id v :=
    fun _ _ _ => rfl
  simp only [genesisTables, hinsert]
  rw [Finmap.lookup_insert_of_ne _ (by decide), Finmap.lookup_insert_of_ne _ (by decide),
    Finmap.lookup_insert_of_ne _ (by decide), Finmap.lookup_insert]

/-- The genesis state accounts for its supply. -/
theorem genesis_excess (h₀ : initializeGenesis P g on = .ok db₀) :
    db₀.InOrder P ∧ ∀ a, db₀.excess a = 0 := by
  obtain ⟨htables, -⟩ := initializeGenesis_ok h₀
  have hkeyed := initializeGenesis_keyed h₀
  obtain ⟨x, hx⟩ := (genesisStages P g on).delegates_only
  obtain ⟨y, hy⟩ := (genesisStages P g on).balances_only
  obtain ⟨z, hz⟩ := (genesisStages P g on).assets_only
  obtain ⟨w, hw⟩ := (genesisStages P g on).properties_only
  have hbalances : db₀.tables.balanceIdToEntry =
      (genesisStages P g on).balances.balanceIdToEntry := by
    rw [htables, hw, hz]
    rfl
  have haccounts : db₀.tables.accountIdToEntry =
      (genesisStages P g on).delegates.accountIdToEntry := by
    rw [htables, hw, hz, hy]
    rfl
  have hassets : db₀.tables.assetIdToEntry = (genesisStages P g on).assets.assetIdToEntry := by
    rw [htables, hw]
    rfl
  have hempty : (genesisStages P g on).delegates.balanceIdToEntry = ∅ := by
    rw [hx]
    rfl
  have hnoAsset : (genesisStages P g on).balances.assetIdToEntry = ∅ := by
    rw [hy, hx]
    rfl
  have hdelegates := genesisDelegates_accounts (P := P) g.timestamp g.delegates (.empty on) 0
    (fun k e he => by simp [ChainTables.empty] at he)
  rw [← (genesisStages P g on).delegates_eq, ← haccounts] at hdelegates
  obtain ⟨hspendable, hsum⟩ := genesisBalances_total (P := P) g.timestamp g.initialBalances
    (genesisStages P g on).delegates (fun k e he => by simp [hempty] at he)
  rw [← (genesisStages P g on).balances_eq, ← hbalances] at hspendable hsum
  rw [hempty, total_empty] at hsum
  refine ⟨⟨hkeyed, fun he => (hspendable _ _ he).2, ?_⟩, fun a => ?_⟩
  · refine ⟨(genesisDelegates P g.timestamp (.empty on) 0 g.delegates).2, ?_,
      fun he => (hdelegates _ _ he).1⟩
    rw [htables]
    exact genesisTables_lastAccountId g on
  · have hpay : total (AccountEntry.payShares a) db₀.tables.accountIdToEntry = 0 := by
      refine total_eq_zero _ _ fun k e he => ?_
      rw [AccountEntry.payShares, (hdelegates k e he).2, ite_self]
    rw [ChainDatabase.excess, hpay, add_zero]
    by_cases ha : a = 0
    · subst ha
      have hbase : db₀.tables.assetIdToEntry.lookup 0 = some (baseAsset g.timestamp
          (g.initialBalances.foldl (fun sum b => sum + b.balance) 0)) := by
        rw [htables]
        exact genesisTables_base g on
      rw [hsum, hbase, val_some]
      show _ + (0 - _) = (0 : ShareType)
      rw [zero_sub]
      exact add_neg_cancel _
    · have hshares : total (BalanceEntry.shares a) db₀.tables.balanceIdToEntry = 0 := by
        refine total_eq_zero _ _ fun k e he => ?_
        rw [BalanceEntry.shares, (hspendable k e he).1, if_neg (Ne.symm ha)]
      have hmarket := genesisAssets_outstanding g.timestamp g.marketAssets
        (genesisStages P g on).base 0 (fun k e hk he => by
          rw [(genesisStages P g on).base_eq, ChainTables.assetHooks.read_store, if_neg hk] at he
          have hnone : (genesisStages P g on).balances.assetIdToEntry.lookup k = some e := he
          simp [hnoAsset] at hnone)
      rw [← (genesisStages P g on).assets_eq, ← hassets] at hmarket
      rw [hshares, zero_add]
      cases he : db₀.tables.assetIdToEntry.lookup a with
      | none => rfl
      | some e => exact hmarket a e ha he

end Genesis

/-! ## Runs -/

/-- A step of a run: a block whose results are settled is accepted, or something outside of the
chain changes. -/
inductive SettledStep (N : Node) (db : ChainDatabase) : ChainDatabase → Prop
  | extend {db' : ChainDatabase} (clock : TimePointSec) (b : FullBlock) :
      extendChain N db clock b = .ok db' → b.Settled → SettledStep N db db'
  | other {db' : ChainDatabase} : SameChain db db' → SettledStep N db db'

theorem SettledStep.excess (h : SettledStep N db db') (hdb : db.InOrder N.P) :
    db'.InOrder N.P ∧ ∀ a, db'.excess a = db.excess a := by
  cases h with
  | extend clock b h hb => exact extendChain_excess h hb hdb
  | other hsame =>
    refine ⟨⟨hdb.keyed.same hsame, fun {k e} he => ?_, ?_⟩, fun a => ?_⟩
    · rw [hsame.tables] at he
      exact hdb.spendable he
    · rw [hsame.tables]
      exact hdb.fresh
    · rw [ChainDatabase.excess, hsame.tables, ChainDatabase.excess]

theorem settledRun_excess (h : Relation.ReflTransGen (SettledStep N) db db')
    (hdb : db.InOrder N.P) : db'.InOrder N.P ∧ ∀ a, db'.excess a = db.excess a := by
  induction h with
  | refl => exact ⟨hdb, fun _ => rfl⟩
  | tail _ hstep ih =>
    obtain ⟨horder, hexcess⟩ := hstep.excess ih.1
    exact ⟨horder, fun a => (hexcess a).trans (ih.2 a)⟩

/-- What is outstanding of an asset is zero with its balances and the pay: its supply is that of
`calculate_supply`. -/
theorem calculateSupply_of_excess {e : AssetEntry} (he : db.tables.assetIdToEntry.lookup a = some e)
    (hexcess : db.excess a = 0) : db.calculateSupply a = .ok e.currentShareSupply := by
  have hpay : total (AccountEntry.payShares a) db.tables.accountIdToEntry =
      if a = 0 then total AccountEntry.payBalance db.tables.accountIdToEntry else 0 := by
    split_ifs with ha
    · subst ha
      rfl
    · exact total_eq_zero _ _ fun _ _ _ => if_neg ha
  rw [ChainDatabase.excess, he, val_some, AssetEntry.outstanding, hpay, ← add_sub_assoc,
    sub_eq_zero] at hexcess
  rw [ChainDatabase.calculateSupply, he]
  show Except.ok (e.collectedFees +
    total (BalanceEntry.shares a) db.tables.balanceIdToEntry + _) = _
  rw [← hexcess, ok_eq_ok]
  abel

/-- In every run of accepted blocks whose results are settled, the supply of every asset is its
collected fees, its balances and, for the base asset, the pay of the delegates. -/
theorem supply_conserved (N : Node) (g : GenesisState) (on : Bool) (db₀ db : ChainDatabase)
    (h₀ : initializeGenesis N.P g on = .ok db₀)
    (hrun : Relation.ReflTransGen (SettledStep N) db₀ db) (a : AssetIdType) (e : AssetEntry)
    (he : db.tables.assetIdToEntry.lookup a = some e) :
    db.calculateSupply a = .ok e.currentShareSupply := by
  obtain ⟨horder, hexcess⟩ := genesis_excess h₀
  refine calculateSupply_of_excess he ?_
  rw [(settledRun_excess hrun horder).2, hexcess]

theorem supply_conserved_after_registration :
    ∃ db₀ db e, initializeGenesis Node.plain.P richGenesis false = .ok db₀ ∧
      Relation.ReflTransGen (SettledStep .plain) db₀ db ∧
      db.tables.assetIdToEntry.lookup 0 = some e ∧ 0 < e.collectedFees ∧
      db.calculateSupply 0 = .ok e.currentShareSupply := by
  have hblock : returns (initializeGenesis Node.plain.P richGenesis false) (fun db =>
      returns (extendChain .plain (db.learn 1010 registerBlock) 100 registerBlock) fun db =>
        (db.tables.assetIdToEntry.lookup 0).any fun e => 0 < e.collectedFees) = true := by
    decide +kernel
  obtain ⟨db₀, h₀, hblock⟩ := exists_of_returns hblock
  obtain ⟨db, hext, hfees⟩ := exists_of_returns hblock
  obtain ⟨e, he, hfees⟩ := Option.any_eq_true .. |>.1 hfees
  have hsettled : registerBlock.Settled := by
    intro t ht
    obtain rfl := List.mem_singleton.1 ht
    exact ⟨by decide, nofun⟩
  have hrun : Relation.ReflTransGen (SettledStep .plain) db₀ db :=
    .tail (.single (.other (db₀.learn_same 1010 registerBlock))) (.extend 100 _ hext hsettled)
  exact ⟨db₀, db, e, h₀, hrun, he, by simpa using hfees,
    supply_conserved .plain richGenesis false db₀ db h₀ hrun 0 e he⟩

/-- An incomplete result of the registration of a contract that carries a deposit of its own. -/
def mintingResult : SignedTransaction :=
  let origin : SignedTransaction :=
    { SignedTransaction.empty with
      expiration := 200
      operations := [.registerContract
        ⟨emptyCode, ⟨1000, 0⟩, ⟨100000, 0⟩, fromKey1 5000000, 1, 0⟩] }
  { resultOf 200 [.transaction origin, .deposit ⟨500, ⟨0, 0, .common, .signature 3 none⟩⟩] with
    resultTrxType := .incomplete }

/-- A result of the registration that carries a second transaction. -/
def carryingResult : SignedTransaction :=
  let carried : SignedTransaction :=
    { SignedTransaction.empty with
      expiration := 150
      operations := [.withdraw ⟨3, 100000, []⟩] }
  { registerResult with operations := registerResult.operations ++ [.transaction carried] }

/-- The supply that a first block with one transaction leaves, and how much more there is. -/
theorem pushed_surplus {t : SignedTransaction} {surplus : ShareType}
    (h : returns (initializeGenesis Node.plain.P richGenesis false) (fun db =>
      let db := Stateful.final (pushBlock .plain 100 (.plain 1 0 10 [t])) db
      db.headBlockHeader.blockNum == 1 &&
        (db.tables.assetIdToEntry.lookup 0).any fun e =>
          returns (db.calculateSupply 0) fun supply => supply == e.currentShareSupply + surplus) =
      true) :
    ∃ db₀ db e, initializeGenesis Node.plain.P richGenesis false = .ok db₀ ∧
      Pushed .plain (fun _ => True) db₀ db ∧ db.headBlockHeader.blockNum = 1 ∧
      db.tables.assetIdToEntry.lookup 0 = some e ∧
      db.calculateSupply 0 = .ok (e.currentShareSupply + surplus) := by
  obtain ⟨db₀, h₀, hend⟩ := exists_of_returns h
  obtain ⟨hnum, hend⟩ := Bool.and_eq_true_iff.1 hend
  obtain ⟨e, he, hend⟩ := Option.any_eq_true .. |>.1 hend
  obtain ⟨supply, hsupply, hsurplus⟩ := exists_of_returns hend
  obtain rfl := beq_iff_eq.1 hsurplus
  exact ⟨db₀, _, e, h₀, .push 100 (.plain 1 0 10 [t]) .start trivial, beq_iff_eq.1 hnum, he,
    hsupply⟩

/-- A block can mint shares that the supply does not count. -/
theorem mintingResult_accepted :
    ∃ db₀ db e, initializeGenesis Node.plain.P richGenesis false = .ok db₀ ∧
      Pushed .plain (fun _ => True) db₀ db ∧ db.headBlockHeader.blockNum = 1 ∧
      db.tables.assetIdToEntry.lookup 0 = some e ∧
      db.calculateSupply 0 = .ok (e.currentShareSupply + 500) :=
  pushed_surplus (t := mintingResult) (by decide +kernel)

/-- The tally collected by a transaction that a result carries is collected again at its end. -/
theorem carryingResult_accepted :
    ∃ db₀ db e, initializeGenesis Node.plain.P richGenesis false = .ok db₀ ∧
      Pushed .plain (fun _ => True) db₀ db ∧ db.headBlockHeader.blockNum = 1 ∧
      db.tables.assetIdToEntry.lookup 0 = some e ∧
      db.calculateSupply 0 = .ok (e.currentShareSupply + 210101) :=
  pushed_surplus (t := carryingResult) (by decide +kernel)

end Achain
