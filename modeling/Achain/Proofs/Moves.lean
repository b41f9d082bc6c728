import Achain.Proofs.Results
import Achain.Proofs.Settle

/-!
# Shares on the move

An operation moves shares between the balances, the pay of the delegates, what is outstanding of an
asset (its collected fees less its supply) and the tally of its transaction. The end of the
transaction collects the tally. Two kinds of results escape this: one that is incomplete, whose
operations are evaluated though the tally is not collected, and one that carries a second
transaction, which collects the tally of the result before its end.
-/

namespace Achain

open Table Result

variable {P : Primitives} {V : Vm} {l l' l₁ : Ledger} {a : AssetIdType}
  {ctx : OpContext} {s s' : OpState}

/-! ## What a ledger accounts for -/

/-- The shares of an asset in a balance. -/
def BalanceEntry.shares (a : AssetIdType) (b : BalanceEntry) : ShareType :=
  if b.assetId = a then b.balance else 0

/-- The shares of an asset in the pay of an account. -/
def AccountEntry.payShares (a : AssetIdType) (e : AccountEntry) : ShareType :=
  if a = 0 then e.payBalance else 0

def AssetEntry.outstanding (e : AssetEntry) : ShareType := e.collectedFees - e.currentShareSupply

namespace Ledger

/-- What a pending state adds to the balances and the pay below it, and what is outstanding. -/
def excess (a : AssetIdType) (l : Ledger) : ShareType :=
  l.balance.delta (BalanceEntry.shares a) l.prev.balance +
    l.account.delta (AccountEntry.payShares a) l.prev.accountById +
    val AssetEntry.outstanding (l.getAsset a)

theorem excess_storeBalance (e : BalanceEntry) :
    (l.storeBalance P e).excess a =
      l.excess a + (e.shares a - val (BalanceEntry.shares a) (l.getBalance (P.balanceId e))) := by
  have hdelta : (l.balance.insert (P.balanceId e) e).delta (BalanceEntry.shares a) l.prev.balance =
      l.balance.delta (BalanceEntry.shares a) l.prev.balance + (e.shares a -
        val (BalanceEntry.shares a) (l.balance.lookup l.prev.balance (P.balanceId e))) :=
    Overlay.delta_insert _
  unfold excess getAsset getBalance
  rw [storeBalance_balance, storeBalance_account, storeBalance_asset, storeBalance_prev, hdelta]
  abel

theorem excess_storeAccount (e : AccountEntry) :
    (l.storeAccount P e).excess a =
      l.excess a + (e.payShares a - val (AccountEntry.payShares a) (l.getAccount e.id)) := by
  have hdelta : (l.account.insert e.id e).delta (AccountEntry.payShares a) l.prev.accountById =
      l.account.delta (AccountEntry.payShares a) l.prev.accountById + (e.payShares a -
        val (AccountEntry.payShares a) (l.account.lookup l.prev.accountById e.id)) :=
    Overlay.delta_insert _
  unfold excess getAsset getAccount
  rw [storeAccount_balance, storeAccount_account, storeAccount_asset, storeAccount_prev, hdelta]
  abel

theorem excess_storeAsset (e : AssetEntry) :
    (l.storeAsset e).excess a = l.excess a + if a = e.id then
      e.outstanding - val AssetEntry.outstanding (l.getAsset e.id) else 0 := by
  unfold excess
  rw [getAsset_storeAsset, storeAsset_balance, storeAsset_account, storeAsset_prev]
  split_ifs with h
  · rw [h, val_some]
    abel
  · rw [add_zero]

end Ledger

/-- The ledgers have the same balances, accounts and assets over the same chain. -/
structure SameHoldings (l l' : Ledger) : Prop where
  prev : l'.prev = l.prev
  balance : l'.balance = l.balance
  account : l'.account = l.account
  asset : l'.asset = l.asset

namespace SameHoldings

theorem refl (l : Ledger) : SameHoldings l l := ⟨rfl, rfl, rfl, rfl⟩

theorem trans (h : SameHoldings l l₁) (h' : SameHoldings l₁ l') : SameHoldings l l' :=
  ⟨h'.prev.trans h.prev, h'.balance.trans h.balance, h'.account.trans h.account,
    h'.asset.trans h.asset⟩

theorem excess (h : SameHoldings l l') : l'.excess a = l.excess a := by
  unfold Ledger.excess Ledger.getAsset
  rw [h.prev, h.balance, h.account, h.asset]

theorem storeProperty (id : PropertyIdType) (v : PropertyValue) :
    SameHoldings l (l.storeProperty id v) := ⟨rfl, rfl, rfl, rfl⟩

theorem storeContract (e : ContractEntry) : SameHoldings l (l.storeContract e) :=
  ⟨by simp, by simp, by simp, by simp⟩

theorem removeContract (id : ContractIdType) : SameHoldings l (ContractEntry.remove l id) := by
  rcases Ledger.removeContract_eq (l := l) id with h | h <;> rw [h]
  · exact refl _
  · exact ⟨rfl, rfl, rfl, rfl⟩

end SameHoldings

/-! ## Ledgers in order -/

/-- The tables are keyed, every balance can be spent, and the accounts have the ids given so far. -/
structure Ledger.InOrder (P : Primitives) (l : Ledger) : Prop where
  keyed : l.WellKeyed P
  spendable : ∀ {k e}, l.getBalance k = some e → e.condition.data ≠ .null
  fresh : ∃ n, l.getProperty .lastAccountId = some (.id n) ∧
    ∀ {k e}, l.getAccount k = some e → k ≤ n

namespace Ledger.InOrder

theorem storeBalance (h : l.InOrder P) {e : BalanceEntry} (he : e.condition.data ≠ .null) :
    (l.storeBalance P e).InOrder P where
  keyed := h.keyed.write (.balance e)
  spendable {k e'} he' := by
    rw [getBalance_storeBalance] at he'
    split_ifs at he' with hk
    · exact Option.some.inj he' ▸ he
    · exact h.spendable he'
  fresh := h.fresh

theorem storeAsset (h : l.InOrder P) (e : AssetEntry) : (l.storeAsset e).InOrder P where
  keyed := h.keyed.write (.asset e)
  spendable he := h.spendable (by simpa [getBalance] using he)
  fresh := by
    obtain ⟨n, hn, hfresh⟩ := h.fresh
    exact ⟨n, by simpa [getProperty] using hn, fun he => hfresh (by simpa [getAccount] using he)⟩

/-- An account that is there is stored again. -/
theorem storeAccount (h : l.InOrder P) {k : AccountIdType} {e₀ e : AccountEntry}
    (he₀ : l.getAccount k = some e₀) (hid : e.id = k) : (l.storeAccount P e).InOrder P where
  keyed := h.keyed.write (.account e)
  spendable he := h.spendable (by simpa [getBalance] using he)
  fresh := by
    obtain ⟨n, hn, hfresh⟩ := h.fresh
    refine ⟨n, by simpa [getProperty] using hn, fun {k' e'} he' => ?_⟩
    rw [getAccount_storeAccount] at he'
    split_ifs at he' with hk
    · exact hk.trans hid ▸ hfresh he₀
    · exact hfresh he'

theorem of_same (h : l.InOrder P) (hw : Writes P l l') (hsame : SameHoldings l l')
    (hproperty : l'.getProperty .lastAccountId = l.getProperty .lastAccountId) : l'.InOrder P where
  keyed := h.keyed.writes hw
  spendable he := by
    rw [getBalance, hsame.balance, hsame.prev] at he
    exact h.spendable he
  fresh := by
    obtain ⟨n, hn, hfresh⟩ := h.fresh
    refine ⟨n, hproperty.trans hn, fun {k e} he => ?_⟩
    rw [getAccount, hsame.account, hsame.prev] at he
    exact hfresh he

theorem le_last (h : l.InOrder P) {n : AccountIdType}
    (hn : l.getProperty .lastAccountId = some (.id n)) {k : AccountIdType} {e : AccountEntry}
    (he : l.getAccount k = some e) : k ≤ n := by
  obtain ⟨n', hn', hfresh⟩ := h.fresh
  rw [hn, Option.some.injEq, PropertyValue.id.injEq] at hn'
  exact hn' ▸ hfresh he

theorem next_free (h : l.InOrder P) {n : AccountIdType}
    (hn : l.getProperty .lastAccountId = some (.id n)) : l.getAccount (n + 1) = none := by
  cases he : l.getAccount (n + 1) with
  | none => rfl
  | some e => exact absurd (h.le_last hn he) (by simp)

end Ledger.InOrder

/-! ## Operations -/

variable {m m' m₁ : Map AssetIdType ShareType}

/-- What leaves the ledger enters the tally. -/
def Moves (P : Primitives) (l : Ledger) (m : Map AssetIdType ShareType) (l' : Ledger)
    (m' : Map AssetIdType ShareType) : Prop :=
  l.InOrder P →
    l'.InOrder P ∧ ∀ a, l'.excess a + amountAt m' a = l.excess a + amountAt m a

/-- A balance as the ledger has it, or a new one. -/
structure Ledger.Has (P : Primitives) (l : Ledger) (e : BalanceEntry) : Prop where
  read : l.getBalance (P.balanceId e) = some e ∨
    l.getBalance (P.balanceId e) = none ∧ e.balance = 0
  spendable : e.condition.data ≠ .null

theorem Ledger.Has.shares {e : BalanceEntry} (h : l.Has P e) :
    val (BalanceEntry.shares a) (l.getBalance (P.balanceId e)) = e.shares a := by
  rcases h.read with hread | ⟨hread, hzero⟩ <;> rw [hread]
  · rfl
  · rw [val_none, BalanceEntry.shares, hzero, ite_self]

theorem Ledger.InOrder.has (h : l.InOrder P) {k : BalanceIdType} {e : BalanceEntry}
    (he : l.getBalance k = some e) : l.Has P e :=
  ⟨.inl (by rw [h.keyed.balance he, he]), h.spendable he⟩

theorem Ledger.InOrder.has_depositEntry (h : l.InOrder P) {c : WithdrawCondition}
    {fresh : BalanceEntry} (hc : c.data ≠ .null) (hfresh : fresh.condition = c)
    (hzero : fresh.balance = 0) : l.Has P (depositEntry P l c fresh) := by
  unfold depositEntry
  cases he : l.getBalance (P.conditionAddress c) with
  | some e => exact h.has he
  | none =>
    refine ⟨.inr ⟨?_, hzero⟩, ?_⟩
    · rw [Option.getD_none, Primitives.balanceId, hfresh, he]
    · rw [Option.getD_none, hfresh]
      exact hc

namespace Moves

theorem refl (l : Ledger) (m : Map AssetIdType ShareType) : Moves P l m l m :=
  fun h => ⟨h, fun _ => rfl⟩

theorem trans (h : Moves P l m l₁ m₁) (h' : Moves P l₁ m₁ l' m') : Moves P l m l' m' := by
  intro hl
  obtain ⟨hl₁, hworth⟩ := h hl
  obtain ⟨hl', hworth'⟩ := h' hl₁
  exact ⟨hl', fun a => (hworth' a).trans (hworth a)⟩

theorem of_same (hw : Writes P l l') (hsame : SameHoldings l l')
    (hproperty : l'.getProperty .lastAccountId = l.getProperty .lastAccountId) :
    Moves P l m l' m := by
  refine fun hl => ⟨hl.of_same hw hsame hproperty, fun a => ?_⟩
  rw [hsame.excess]

/-- The balance loses what the tally gets. -/
theorem balance {e e' : BalanceEntry} {x : ShareType} (he : l.InOrder P → l.Has P e)
    (hcondition : e'.condition = e.condition) (hx : e'.balance = e.balance - x) :
    Moves P l m (l.storeBalance P e') (tallyAdd m e.assetId x) := by
  intro hl
  have hhas := he hl
  have hid : P.balanceId e' = P.balanceId e := by rw [Primitives.balanceId, hcondition]; rfl
  have hasset : e'.assetId = e.assetId := congrArg WithdrawCondition.assetId hcondition
  refine ⟨hl.storeBalance (hcondition ▸ hhas.spendable), fun a => ?_⟩
  rw [Ledger.excess_storeBalance, hid, hhas.shares, amountAt_tallyAdd, BalanceEntry.shares,
    BalanceEntry.shares, hasset, hx]
  by_cases ha : e.assetId = a
  · rw [if_pos ha, if_pos ha, if_pos ha.symm]
    abel
  · rw [if_neg ha, if_neg ha, if_neg (Ne.symm ha)]
    abel

theorem debited {e : BalanceEntry} {x : ShareType} {now : TimePointSec}
    (he : l.InOrder P → l.Has P e) :
    Moves P l m (l.storeBalance P (e.debited x now)) (tallyAdd m e.assetId x) :=
  .balance he rfl rfl

theorem credited {e : BalanceEntry} {x : ShareType} {date now : TimePointSec}
    (he : l.InOrder P → l.Has P e) :
    Moves P l m (l.storeBalance P (e.credited x date now)) (tallyAdd m e.assetId (-x)) :=
  .balance he rfl (sub_neg_eq_add _ _).symm

/-- The account loses what the tally gets. -/
theorem account {k : AccountIdType} {e e' : AccountEntry} {x : ShareType}
    (he : l.getAccount k = some e) (hid : e'.id = e.id) (hx : e'.payBalance = e.payBalance - x) :
    Moves P l m (l.storeAccount P e') (tallyAdd m 0 x) := by
  intro hl
  have hk : e'.id = k := hid.trans (hl.keyed.account he)
  refine ⟨hl.storeAccount he hk, fun a => ?_⟩
  rw [Ledger.excess_storeAccount, hk, he, val_some, amountAt_tallyAdd, AccountEntry.payShares,
    AccountEntry.payShares, hx]
  by_cases ha : a = 0
  · rw [if_pos ha, if_pos ha, if_pos ha]
    abel
  · rw [if_neg ha, if_neg ha, if_neg ha]
    abel

theorem samePay {k : AccountIdType} {e e' : AccountEntry} (he : l.getAccount k = some e)
    (hid : e'.id = e.id) (hpay : e'.payBalance = e.payBalance) :
    Moves P l m (l.storeAccount P e') m := by
  intro hl
  have hk : e'.id = k := hid.trans (hl.keyed.account he)
  refine ⟨hl.storeAccount he hk, fun a => ?_⟩
  rw [Ledger.excess_storeAccount, hk, he, val_some, AccountEntry.payShares,
    AccountEntry.payShares, hpay, sub_self, add_zero]

/-- What is outstanding of the asset falls by what the tally gets. -/
theorem asset {k : AssetIdType} {e e' : AssetEntry} {x : ShareType} (he : l.getAsset k = some e)
    (hid : e'.id = e.id) (hx : e'.outstanding = e.outstanding - x) :
    Moves P l m (l.storeAsset e') (tallyAdd m k x) := by
  intro hl
  have hk : e'.id = k := hid.trans (hl.keyed.asset he)
  refine ⟨hl.storeAsset e', fun a => ?_⟩
  rw [Ledger.excess_storeAsset, hk, he, val_some, amountAt_tallyAdd, hx]
  by_cases ha : a = k
  · rw [if_pos ha, if_pos ha]
    abel
  · rw [if_neg ha, if_neg ha, add_zero, add_zero]

theorem sameOutstanding {k : AssetIdType} {e e' : AssetEntry} (he : l.getAsset k = some e)
    (hsame : e.SameShares e') : Moves P l m (l.storeAsset e') m := by
  intro hl
  have hk : e'.id = k := hsame.id.trans (hl.keyed.asset he)
  refine ⟨hl.storeAsset e', fun a => ?_⟩
  have hout : e'.outstanding = e.outstanding := by
    rw [AssetEntry.outstanding, hsame.fees, hsame.supply]
    rfl
  rw [Ledger.excess_storeAsset, hk, he, val_some, hout, sub_self, ite_self, add_zero]

/-- A balance stored as it was. -/
theorem restored {e : BalanceEntry} (he : l.InOrder P → l.Has P e) :
    Moves P l m (l.storeBalance P e) m := by
  intro hl
  refine ⟨hl.storeBalance (he hl).spendable, fun a => ?_⟩
  rw [Ledger.excess_storeBalance, (he hl).shares, sub_self, add_zero]

end Moves

theorem OriginLedger.moves (h : OriginLedger P l l') : Moves P l m l' m := by
  have hw := h.writes
  cases h with
  | same => exact .refl _ _
  | registered e _ _ =>
    refine .of_same hw ((SameHoldings.storeContract e).trans (.removeContract _)) ?_
    rcases Ledger.removeContract_eq (l := l.storeContract e) e.id with hremove | hremove <;>
      rw [hremove] <;> simp [Ledger.getProperty]
  | restored op _ =>
    exact .restored fun hl => hl.has_depositEntry (c := op.deposit.condition) nofun rfl rfl

theorem OriginEvaluated.moves (h : OriginEvaluated P ctx s s') :
    Moves P s.ledger s.balance s'.ledger s'.balance := by
  rw [h.sameTally.balance]
  exact h.ledger.moves

theorem DepositOperation.spendable {op : DepositOperation} (h : op.evaluate P s = .ok s') :
    op.condition.data ≠ .null := by
  simp only [evaluate, bind_eq_ok, ensure_eq_ok, exists_const] at h
  simpa using h.2.2.1

theorem DepositContractOperation.spendable {op : DepositContractOperation}
    (h : op.evaluate P ctx s = .ok s') : op.condition.data ≠ .null := by
  simp only [evaluate, bind_eq_ok, ensure_eq_ok, exists_const] at h
  simpa using h.2.2.1

theorem WithdrawContractOperation.has_target {op : WithdrawContractOperation} {e : BalanceEntry}
    (h : op.target P l = .ok e) (hl : l.InOrder P) : l.Has P e := by
  obtain he | ⟨hnone, hid, rfl⟩ := target_ok h
  · exact hl.has he
  · rw [hid] at hnone
    exact ⟨.inr ⟨hnone, rfl⟩, nofun⟩

theorem BalancesWithdrawOperation.moves {op : BalancesWithdrawOperation}
    (h : op.evaluate P ctx s = .ok s') : Moves P s.ledger s.balance s'.ledger s'.balance := by
  refine foldlM_rel (R := fun s s' : OpState => Moves P s.ledger s.balance s'.ledger s'.balance)
    (fun _ => .refl _ _) (fun _ _ _ => .trans) ?_ (BalancesWithdrawOperation.evaluate_ok h).2
  intro item _ s s' h
  obtain ⟨e, asset, he, -, -, -, -, hl, hm, -⟩ := withdrawOne_ok h
  rw [hl, hm]
  exact .debited fun hl => hl.has he

/-- A new account has the first id that is not given, and no pay. -/
theorem RegisterAccountOperation.moves {op : RegisterAccountOperation}
    (h : op.evaluate P s = .ok s') : Moves P s.ledger s.balance s'.ledger s'.balance := by
  obtain ⟨n, hn, -, -, -, hl', hm⟩ := RegisterAccountOperation.evaluate_ok h
  rw [hl', hm.balance]
  intro hl
  have hwrites : Writes P s.ledger ((s.ledger.storeProperty .lastAccountId
      (.id (n + 1))).storeAccount P (op.entry (n + 1) s.ledger.prev)) :=
    (Writes.one (.property _ _)).tail (.account _)
  refine ⟨⟨hl.keyed.writes hwrites, fun {k e} he => ?_, ?_⟩, fun a => ?_⟩
  · have he' : s.ledger.getBalance k = some e := by simpa [Ledger.getBalance] using he
    exact hl.spendable he'
  · refine ⟨n + 1, ?_, fun {k e} he => ?_⟩
    · rw [Ledger.getProperty, Ledger.storeAccount_property, Ledger.storeAccount_prev]
      exact Overlay.lookup_insert_self
    · rw [Ledger.getAccount_storeAccount] at he
      split_ifs at he with hk
      · exact hk.le
      · exact (hl.le_last hn he).trans (by simp)
  · have hpay : (op.entry (n + 1) s.ledger.prev).payBalance = 0 := by
      simp only [entry, AccountEntry.payBalance]
      split_ifs <;> rfl
    have hread : (s.ledger.storeProperty .lastAccountId (.id (n + 1))).getAccount (n + 1) =
        none := hl.next_free hn
    rw [Ledger.excess_storeAccount, (SameHoldings.storeProperty _ _).excess,
      AccountEntry.payShares, hpay]
    show _ + ((if a = 0 then 0 else 0) - val _ (Ledger.getAccount _ (n + 1))) + _ = _
    rw [hread, val_none, ite_self, sub_zero, add_zero]

theorem UpdateAccountOperation.withKey_same (op : UpdateAccountOperation) (e : AccountEntry)
    (now : TimePointSec) :
    (op.withKey e now).id = e.id ∧ (op.withKey e now).payBalance = e.payBalance := by
  unfold withKey
  split
  · exact ⟨rfl, rfl⟩
  · split_ifs <;> exact ⟨rfl, rfl⟩

theorem CreateAssetOperation.moves {op : CreateAssetOperation} (h : op.evaluate P s = .ok s') :
    Moves P s.ledger s.balance s'.ledger s'.balance := by
  obtain ⟨n, issuer, -, hfree, -, hl', hm⟩ := CreateAssetOperation.evaluate_ok h
  rw [hl', hm.balance]
  intro hl
  refine ⟨Ledger.InOrder.storeAsset ?_ _, fun a => ?_⟩
  · refine hl.of_same (.one (.property _ _)) (.storeProperty _ _) ?_
    exact (Ledger.getProperty_storeProperty _ _ _).trans (if_neg (by decide))
  · have hread : (s.ledger.storeProperty .lastAssetId (.id (n + 1))).getAsset (n + 1) = none := by
      rw [← hfree]
      rfl
    have hout : (op.entry P (n + 1) issuer s.ledger.prev.now).outstanding = 0 := sub_self _
    have hid : (op.entry P (n + 1) issuer s.ledger.prev.now).id = n + 1 := rfl
    rw [Ledger.excess_storeAsset, (SameHoldings.storeProperty _ _).excess, hout, hid, hread,
      val_none, sub_zero, ite_self, add_zero]

/-- The balance of a destroyed contract goes to its owner. -/
theorem OnDestroyOperation.moves {op : OnDestroyOperation} (h : op.evaluate P ctx s = .ok s') :
    Moves P s.ledger s.balance s'.ledger s'.balance := by
  obtain ⟨-, entry, s₁, -, hmove, rfl⟩ := OnDestroyOperation.evaluate_ok h
  have hmoved : Moves P s.ledger s.balance s₁.ledger s₁.balance := by
    obtain ⟨-, rfl⟩ | ⟨b, dest, date, l₁, hb, hzero, -, rfl, rfl, -, hl, hm, -⟩ := move_ok hmove
    · exact .refl _ _
    · rw [hl, hm]
      intro horder
      have hamount : b.getSpendableBalance.amount = b.balance := by
        have hspendable := horder.spendable hb
        unfold BalanceEntry.getSpendableBalance
        cases hdata : b.condition.data <;> simp_all
      rw [hamount, ← hzero]
      have htaken : Moves P s.ledger s.balance (s.ledger.storeBalance P { b with balance := 0 })
          (tallyAdd s.balance b.assetId b.balance) :=
        .balance (fun hl => hl.has hb) rfl (sub_self _).symm
      exact htaken.trans (.credited fun hl => hl.has_depositEntry nofun rfl rfl) horder
  refine hmoved.trans (.of_same (.one (.contract _)) (.storeContract _) ?_)
  simp [Ledger.getProperty]

/-- An operation that is not a wrapped transaction moves shares between the ledger and the tally. -/
theorem Operation.evaluateLeaf_moves {op : Operation} (h : op.evaluateLeaf P V ctx s = .ok s') :
    Moves P s.ledger s.balance s'.ledger s'.balance := by
  cases op <;> simp only [evaluateLeaf] at h
  case withdraw op =>
    obtain ⟨e, _, he, -, -, -, hl, hm, -⟩ := WithdrawOperation.evaluate_ok h
    rw [hl, hm]
    exact .debited fun hl => hl.has he
  case deposit op =>
    have hdata := DepositOperation.spendable h
    obtain ⟨_, _, rfl, -, -, hl, hm, -⟩ := DepositOperation.evaluate_ok h
    rw [hl, hm]
    exact .credited fun hl => hl.has_depositEntry hdata rfl rfl
  case registerAccount op => exact RegisterAccountOperation.moves h
  case updateAccount op =>
    obtain ⟨e, info, _, he, -, -, hinfo, hl, hm⟩ := UpdateAccountOperation.evaluate_ok h
    obtain ⟨hid, hpay⟩ := op.withKey_same e s.ledger.prev.now
    rw [hl, hm.balance]
    exact .samePay he hid ((UpdateAccountOperation.payBalance_delegateInfo hinfo).trans hpay)
  case withdrawPay op =>
    obtain ⟨e, stats, he, hstats, -, hl, hm, -⟩ := WithdrawPayOperation.evaluate_ok h
    rw [hl, hm]
    refine .account he rfl ?_
    rw [AccountEntry.payBalance, AccountEntry.payBalance, hstats]
  case createAsset op => exact CreateAssetOperation.moves h
  case updateAsset op =>
    obtain ⟨_, _, he, -, hsame, -, hl, hm⟩ := UpdateAssetOperation.evaluate_ok h
    rw [hl, hm.balance]
    exact .sameOutstanding he hsame
  case updateAssetExt op =>
    obtain ⟨_, _, he, -, hsame, -, hl, hm⟩ := UpdateAssetExtOperation.evaluate_ok h
    rw [hl, hm.balance]
    exact .sameOutstanding he hsame
  case issueAsset op =>
    obtain ⟨e, e', he, -, -, hid, -, hsupply, hfees, -, hl, hm, -⟩ := IssueAssetOperation.evaluate_ok h
    rw [hl, hm]
    refine .asset he hid ?_
    rw [AssetEntry.outstanding, AssetEntry.outstanding, hfees, hsupply, sub_add_eq_sub_sub]
  case defineSlate op =>
    obtain rfl | rfl := DefineSlateOperation.evaluate_ok h
    · exact .refl _ _
    · exact .of_same (.one (.slate _)) ⟨rfl, rfl, rfl, rfl⟩ rfl
  case updateSigningKey op => simp [UpdateSigningKeyOperation.evaluate] at h
  case updateBalanceVote op => exact ok_eq_ok.1 h ▸ .refl _ _
  case onCallSuccess => exact ok_eq_ok.1 h ▸ .refl _ _
  case imessageMemo op =>
    obtain ⟨hl, hm⟩ := ImessageMemoOperation.evaluate_ok h
    exact hl ▸ hm.balance ▸ .refl _ _
  case event op =>
    obtain ⟨hl, hm⟩ := EventOperation.evaluate_ok h
    exact hl ▸ hm.balance ▸ .refl _ _
  case storage op =>
    obtain ⟨-, _, rfl⟩ := StorageOperation.evaluate_ok h
    exact .of_same (.one (.storage _)) ⟨rfl, rfl, rfl, rfl⟩ rfl
  case contractInfo op =>
    obtain ⟨-, -, e, -, -, -, rfl⟩ := ContractInfoOperation.evaluate_ok h
    have hstored : Moves P s.ledger s.balance (s.ledger.storeContract e) s.balance :=
      .of_same (.one (.contract _)) (.storeContract _) (by simp [Ledger.getProperty])
    exact hstored.trans (.of_same ((Writes.one (.contractId _ _)).tail (.trxId _ _))
      ⟨rfl, rfl, rfl, rfl⟩ rfl)
  case registerContract op => exact (RegisterContractOperation.evaluate_ok h).moves
  case upgradeContract op => exact (UpgradeContractOperation.evaluate_ok h).moves
  case destroyContract op => exact (DestroyContractOperation.evaluate_ok h).moves
  case callContract op => exact (CallContractOperation.evaluate_ok h).moves
  case transferContract op => exact (TransferContractOperation.evaluate_ok h).moves
  case withdrawContract op =>
    obtain ⟨e, he, -, -, -, -, hl, hm, -⟩ := WithdrawContractOperation.evaluate_ok h
    rw [hl, hm]
    exact .debited (WithdrawContractOperation.has_target he)
  case depositContract op =>
    have hdata := DepositContractOperation.spendable h
    obtain ⟨_, _, rfl, -, -, -, hl, hm, -⟩ := DepositContractOperation.evaluate_ok h
    obtain ⟨hcondition, hzero⟩ := op.fresh_condition (P := P) ctx.trx
    rw [hl, hm]
    exact .credited fun hl => hl.has_depositEntry hdata hcondition hzero
  case balancesWithdraw op => exact BalancesWithdrawOperation.moves h
  case onDestroy op => exact OnDestroyOperation.moves h
  case onUpgrade op =>
    obtain ⟨-, e, -, rfl⟩ := OnUpgradeOperation.evaluate_ok h
    exact .of_same (.one (.contract _)) (.storeContract _) (by simp [Ledger.getProperty])
  case transaction trx => simp at h

/-- The operations that take shares from the ledger or give some to it. -/
def Operation.movesShares : Operation → Bool
  | .withdraw _ | .deposit _ | .withdrawPay _ | .issueAsset _ | .withdrawContract _
  | .depositContract _ | .balancesWithdraw _ | .onDestroy _ => true
  | _ => false

theorem Operation.evaluateLeaf_sameTally {op : Operation} (hop : op.movesShares = false)
    (h : op.evaluateLeaf P V ctx s = .ok s') : SameTally s s' := by
  cases op <;> simp only [movesShares, Bool.true_eq_false] at hop <;> simp only [evaluateLeaf] at h
  case registerAccount op =>
    obtain ⟨_, -, -, -, -, -, hm⟩ := RegisterAccountOperation.evaluate_ok h
    exact hm
  case updateAccount op =>
    obtain ⟨_, _, _, -, -, -, -, -, hm⟩ := UpdateAccountOperation.evaluate_ok h
    exact hm
  case createAsset op =>
    obtain ⟨_, _, -, -, -, -, hm⟩ := CreateAssetOperation.evaluate_ok h
    exact hm
  case updateAsset op =>
    obtain ⟨_, _, -, -, -, -, -, hm⟩ := UpdateAssetOperation.evaluate_ok h
    exact hm
  case updateAssetExt op =>
    obtain ⟨_, _, -, -, -, -, -, hm⟩ := UpdateAssetExtOperation.evaluate_ok h
    exact hm
  case defineSlate op =>
    obtain rfl | rfl := DefineSlateOperation.evaluate_ok h
    · exact ⟨rfl, rfl, rfl, rfl, rfl⟩
    · exact ⟨rfl, rfl, rfl, rfl, rfl⟩
  case updateSigningKey op => simp [UpdateSigningKeyOperation.evaluate] at h
  case updateBalanceVote op => exact ok_eq_ok.1 h ▸ ⟨rfl, rfl, rfl, rfl, rfl⟩
  case onCallSuccess => exact ok_eq_ok.1 h ▸ ⟨rfl, rfl, rfl, rfl, rfl⟩
  case imessageMemo op => exact (ImessageMemoOperation.evaluate_ok h).2
  case event op => exact (EventOperation.evaluate_ok h).2
  case storage op =>
    obtain ⟨-, _, rfl⟩ := StorageOperation.evaluate_ok h
    exact ⟨rfl, rfl, rfl, rfl, rfl⟩
  case contractInfo op =>
    obtain ⟨-, -, _, -, -, -, rfl⟩ := ContractInfoOperation.evaluate_ok h
    exact ⟨rfl, rfl, rfl, rfl, rfl⟩
  case registerContract op => exact (RegisterContractOperation.evaluate_ok h).sameTally
  case upgradeContract op => exact (UpgradeContractOperation.evaluate_ok h).sameTally
  case destroyContract op => exact (DestroyContractOperation.evaluate_ok h).sameTally
  case callContract op => exact (CallContractOperation.evaluate_ok h).sameTally
  case transferContract op => exact (TransferContractOperation.evaluate_ok h).sameTally
  case onUpgrade op =>
    obtain ⟨-, _, -, rfl⟩ := OnUpgradeOperation.evaluate_ok h
    exact ⟨rfl, rfl, rfl, rfl, rfl⟩
  case transaction trx => simp at h

/-! ## The end of a transaction -/

theorem collectFee_excess {item : AssetIdType × ShareType} (hl : l.InOrder P)
    (h : EvalState.collectFee l item = .ok l') :
    l'.InOrder P ∧
      ∀ a, l'.excess a = l.excess a + if item.1 = a ∧ 0 < item.2 then item.2 else 0 := by
  obtain ⟨hneg, rfl⟩ | ⟨hpos, e, he, rfl⟩ := EvalState.collectFee_ok h
  · refine ⟨hl, fun a => ?_⟩
    rw [if_neg fun h => hneg h.2, add_zero]
  · have hcollected : Moves P l ∅
        (l.storeAsset { e with collectedFees := e.collectedFees + item.2 })
        (tallyAdd ∅ item.1 (-item.2)) := by
      refine .asset he rfl ?_
      simp only [AssetEntry.outstanding]
      abel
    obtain ⟨hl', hworth⟩ := hcollected hl
    refine ⟨hl', fun a => ?_⟩
    have hworth := hworth a
    rw [amountAt_tallyAdd, ← add_assoc, add_right_comm, add_left_inj] at hworth
    rw [← hworth]
    by_cases ha : item.1 = a
    · rw [if_pos ha.symm, if_pos ⟨ha, hpos⟩, neg_add_cancel_right]
    · rw [if_neg (Ne.symm ha), if_neg fun h => ha h.1, add_zero, add_zero]

theorem collectFees_excess : ∀ (items : List (AssetIdType × ShareType)) {l l' : Ledger},
    l.InOrder P → items.foldlM EvalState.collectFee l = .ok l' →
      l'.InOrder P ∧ ∀ a, l'.excess a = l.excess a + feeOf a items
  | [], l, l', hl, h => by
    obtain rfl := pure_eq_ok.1 h
    exact ⟨hl, fun a => (add_zero _).symm⟩
  | item :: items, l, l', hl, h => by
    rw [List.foldlM_cons, bind_eq_ok] at h
    obtain ⟨l₁, h₁, h₂⟩ := h
    obtain ⟨hl₁, hexcess₁⟩ := collectFee_excess hl h₁
    obtain ⟨hl', hexcess⟩ := collectFees_excess items hl₁ h₂
    refine ⟨hl', fun a => ?_⟩
    rw [hexcess, hexcess₁, feeOf, add_assoc]

/-- No tally that is collected is negative. -/
theorem amountAt_nonneg {st : OpState} (h : EvalState.checkTallies st = .ok ()) (a : AssetIdType) :
    0 ≤ amountAt st.balance a := by
  simp only [EvalState.checkTallies, bind_eq_ok, ensure_eq_ok, exists_const] at h
  obtain ⟨-, hall, -⟩ := h
  rw [List.all_eq_true] at hall
  unfold amountAt
  cases hx : st.balance.lookup a with
  | none => exact Int64.le_refl 0
  | some x =>
    have hmem : (a, x) ∈ mapItems st.balance :=
      List.mem_map.2 ⟨⟨a, x⟩, AList.mem_lookup_iff.1 hx, rfl⟩
    simpa using hall _ hmem

/-- The tally of a transaction goes to the collected fees. -/
theorem settle_excess {t : SignedTransaction} {st st' : OpState} (hl : st.ledger.InOrder P)
    (ht : t.ignoresRequiredFee = false) (h : EvalState.settle P t st = .ok st') :
    st'.ledger.InOrder P ∧
      ∀ a, st'.ledger.excess a = st.ledger.excess a + amountAt st.balance a := by
  obtain ⟨htrue, -⟩ | ⟨-, l₁, l₂, hcheck, h₁, h₂, rfl⟩ := EvalState.settle_ok h
  · rw [ht] at htrue
    cases htrue
  · obtain ⟨hl₁, hexcess₁⟩ := collectFees_excess _ hl h₁
    have hvotes : Moves P l₁ ∅ l₂ ∅ := by
      refine foldlM_rel (R := fun l l' => Moves P l ∅ l' ∅) (fun _ => .refl _ _)
        (fun _ _ _ => .trans) (fun item _ l l' h => ?_) h₂
      obtain ⟨e, stats, he, hstats, rfl⟩ := EvalState.updateVotes_ok h
      refine .samePay he rfl ?_
      rw [AccountEntry.payBalance, AccountEntry.payBalance, hstats]
    obtain ⟨hl₂, hexcess₂⟩ := hvotes hl₁
    refine ⟨hl₂, fun a => ?_⟩
    have hnonneg := amountAt_nonneg hcheck a
    have hexcess := hexcess₁ a
    rw [feeOf_mapItems, amountAt_insert_self] at hexcess
    rw [amountAt_insert_self] at hnonneg
    have hfee : (if 0 < amountAt st.balance a then amountAt st.balance a else 0) =
        amountAt st.balance a := by
      split_ifs with hpos
      · rfl
      · exact Int64.le_antisymm hnonneg (Int64.not_lt.1 hpos)
    rw [hfee] at hexcess
    rw [← hexcess]
    exact add_right_cancel (hexcess₂ a)

/-! ## Transactions -/

section Transactions

variable {s s' : EvalState} {t r origin : SignedTransaction} {op first : Operation}
  {ops rest : List Operation}

/-- What an evaluation moves between the ledger and the tally. -/
def Moved (P : Primitives) (s s' : EvalState) : Prop :=
  Moves P s.st.ledger s.st.balance s'.st.ledger s'.st.balance

theorem Moved.of_eq (hledger : s'.st.ledger = s.st.ledger)
    (hbalance : s'.st.balance = s.st.balance) : Moved P s s' := by
  unfold Moved
  rw [hledger, hbalance]
  exact .refl _ _

theorem start_moved (h : s.start P t = .ok s') : Moved P s s' := by
  obtain ⟨-, keys, -, rfl⟩ := EvalState.start_ok h
  exact .of_eq rfl rfl

theorem evaluateOperation_moved (hop : op.isTransactionOp = false)
    (h : evaluateOperation P V s op = .ok s') : Moved P s s' := by
  rw [evaluateOperation_leaf hop, bind_eq_ok] at h
  obtain ⟨st, hst, h⟩ := h
  obtain rfl := pure_eq_ok.1 h
  exact Operation.evaluateLeaf_moves hst

theorem evaluateOperations_moved : ∀ (ops : List Operation) {s s' : EvalState},
    (∀ op ∈ ops, op.isTransactionOp = false) → evaluateOperations P V s ops = .ok s' → Moved P s s'
  | [], s, s', _, h => by
    rw [evaluateOperations_nil, ok_eq_ok] at h
    exact .of_eq (h ▸ rfl) (h ▸ rfl)
  | op :: ops, s, s', hops, h => by
    rw [evaluateOperations_cons, bind_eq_ok] at h
    obtain ⟨s₁, h₁, h₂⟩ := h
    have hfirst := evaluateOperation_moved (hops op (List.mem_cons_self ..)) h₁
    have hrest := evaluateOperations_moved ops (fun op h => hops op (List.mem_cons_of_mem _ h)) h₂
    exact hfirst.trans hrest

theorem evaluate_origin_moved (horigin : origin.operations = [op]) (hop : op.isContractOp = true)
    (h : evaluate P V s origin = .ok s') : Moved P s s' := by
  obtain ⟨s₀, st, h₀, hst, rfl⟩ := evaluate_origin_ok horigin hop h
  obtain ⟨fees, hfees⟩ := EvalState.chargeSignatures_eq origin
    { st with currentOpIndex := st.currentOpIndex + 1 }
  have hmoves := Operation.evaluateLeaf_moves hst
  refine Moves.trans (start_moved h₀) ?_
  rw [hfees]
  exact hmoves

theorem finish_settle (h : s.finish P t r = .ok s') :
    ∃ st, st.ledger = s.st.ledger ∧ st.balance = s.st.balance ∧
      EvalState.settle P t st = .ok s'.st := by
  obtain ⟨st, hst, rfl⟩ := EvalState.finish_ok h
  obtain ⟨fees, hfees⟩ := EvalState.chargeSignatures_eq t s.st
  rw [hfees] at hst
  exact ⟨{ s.st with requiredFees := fees }, rfl, rfl, hst⟩

/-- A result carries no further transaction, and if it is incomplete no operation that moves
shares. -/
def SignedTransaction.Settled (t : SignedTransaction) : Prop :=
  match t.operations with
  | .transaction _ :: rest => (∀ op ∈ rest, op.isTransactionOp = false) ∧
      (t.resultTrxType = .incomplete → ∀ op ∈ rest, op.movesShares = false)
  | _ => True

theorem SignedTransaction.Settled.result (h : t.Settled)
    (ht : t.operations = .transaction origin :: rest) :
    (∀ op ∈ rest, op.isTransactionOp = false) ∧
      (t.resultTrxType = .incomplete → ∀ op ∈ rest, op.movesShares = false) := by
  unfold Settled at h
  rw [ht] at h
  exact h

/-- In a legal transaction that is no result no operation is a transaction. -/
theorem legal_plain (ht : t.operations = first :: rest) (hfirst : first.isTransactionOp = false)
    (h : t.checkOperationsLegality = true) : ∀ op ∈ rest, op.isTransactionOp = false := by
  rw [SignedTransaction.checkOperationsLegality, ht] at h
  dsimp only at h
  split_ifs at h
  cases first <;> simp_all [Operation.isTransactionOp]

theorem legal_contractOp (ht : t.checkOperationsLegality = true) (hmem : op ∈ t.operations)
    (hop : op.isContractOp = true) : t.operations = [op] := by
  unfold SignedTransaction.checkOperationsLegality at ht
  split at ht
  · cases ht
  · rename_i first rest hops
    have hany : t.operations.any Operation.isContractOp = true := List.any_eq_true.2 ⟨op, hmem, hop⟩
    rw [hany] at ht
    split_ifs at ht with hlength
    have hrest : rest = [] := by simpa [hops] using hlength
    rw [hops, hrest] at hmem ⊢
    rw [List.mem_singleton.1 hmem]

theorem evaluate_legal (h : evaluate P V s t = .ok s') : t.checkOperationsLegality = true := by
  cases hops : t.operations with
  | nil =>
    rw [evaluate_nil hops, bind_eq_ok] at h
    obtain ⟨s₀, h₀, -⟩ := h
    exact start_legal h₀
  | cons first rest =>
    rw [evaluate_cons first rest hops, bind_eq_ok] at h
    obtain ⟨s₀, h₀, -⟩ := h
    exact start_legal h₀

/-- The operations of a transaction move shares before its tally is collected. -/
theorem evaluate_settle (h : evaluate P V s t = .ok s') (ht : t.Settled) :
    ∃ st, Moves P s.st.ledger s.st.balance st.ledger st.balance ∧
      EvalState.settle P t st = .ok s'.st := by
  have hlegal := evaluate_legal h
  cases hops : t.operations with
  | nil => simp [SignedTransaction.checkOperationsLegality, hops] at hlegal
  | cons first rest =>
    cases hfirst : first.isTransactionOp with
    | true =>
      obtain ⟨origin, rfl⟩ : ∃ origin, first = .transaction origin := by
        cases first <;> simp_all [Operation.isTransactionOp]
      obtain ⟨op, horigin, hop⟩ := legal_wrapped hops hlegal
      obtain ⟨s₀, s₁, s₂, h₀, h₁, -, h₂, h₃⟩ := evaluate_result_ok hops h
      obtain ⟨st, hledger, hbalance, hst⟩ := finish_settle h₃
      rw [EvalState.endResult_ledger] at hledger
      rw [EvalState.endResult_st hfirst] at hbalance
      have horiginated : Moved P s s₁ :=
        (start_moved h₀).trans (evaluate_origin_moved horigin hop h₁)
      have hrequested : Moved P s₁ (s₁.carried P t origin) :=
        .of_same ((Writes.one (.resultId _ _)).tail (.requestId _ _)) ⟨rfl, rfl, rfl, rfl⟩ rfl
      have hrest : Moved P (s₁.carried P t origin) s₂ :=
        evaluateOperations_moved rest (ht.result hops).1 h₂
      refine ⟨st, ?_, hst⟩
      rw [hledger, hbalance]
      exact (horiginated.trans hrequested).trans hrest
    | false =>
      rw [evaluate_cons first rest hops] at h
      simp only [bind_eq_ok] at h
      obtain ⟨s₀, h₀, s₁, h₁, s₂, h₂, s₃, h₃, h₄⟩ := h
      obtain ⟨-, rfl⟩ | ⟨htrue, -⟩ := EvalState.afterFirst_ok h₂
      · obtain ⟨st, hledger, hbalance, hst⟩ := finish_settle h₄
        have hend : (s₃.endResult P t first).1 = s₃ := by
          unfold EvalState.endResult
          rw [if_neg (by simp [hfirst])]
        rw [hend] at hledger hbalance
        have hrest : Moved P s₁.nextOp s₃ :=
          evaluateOperations_moved rest (legal_plain hops hfirst hlegal) h₃
        refine ⟨st, ?_, hst⟩
        rw [hledger, hbalance]
        exact ((start_moved h₀).trans (evaluateOperation_moved hfirst h₁)).trans hrest
      · rw [hfirst] at htrue
        cases htrue

/-! ## Transactions without a settlement -/

/-- Operations that move no shares leave the tally as it is. -/
theorem tally_evalRel : EvalRel P V (fun op => op.movesShares = false) (fun _ => (0 : ℕ))
    fun _ s s' => ∀ a, amountAt s'.st.balance a = amountAt s.st.balance a where
  refl _ _ := rfl
  trans h h' a := (h' a).trans (h a)
  start h := by
    obtain ⟨-, keys, -, rfl⟩ := EvalState.start_ok h
    exact fun _ => rfl
  leaf hop _ h := by
    have hbalance := (Operation.evaluateLeaf_sameTally hop h).balance
    intro a
    rw [← hbalance]
  next _ _ := rfl
  after h := by
    obtain ⟨-, rfl⟩ | ⟨-, -, rfl⟩ := EvalState.afterFirst_ok h <;> exact fun _ => rfl
  ends s t first a := by
    unfold EvalState.endResult
    split_ifs <;> rfl
  finish h a := by
    obtain ⟨st, -, hbalance, hst⟩ := finish_settle h
    obtain ⟨-, rfl⟩ | ⟨-, _, _, -, -, -, heq⟩ := EvalState.settle_ok hst
    · rw [hbalance]
    · rw [heq, ← hbalance]
      exact amountAt_insert_self
  request _ _ _ _ := rfl

theorem leavesOf_of_leaves (hops : ∀ op ∈ ops, op.isTransactionOp = false) :
    leavesOf ops = ops := by
  induction ops with
  | nil => simp only [leavesOf]
  | cons op ops ih =>
    rw [leavesOf_cons, Operation.leaves_leaf (hops op (List.mem_cons_self ..)),
      ih fun op h => hops op (List.mem_cons_of_mem _ h), List.singleton_append]

theorem Operation.movesShares_contractOp (hop : op.isContractOp = true) :
    op.movesShares = false := by
  cases op <;> simp_all [isContractOp, movesShares]

theorem leaves_origin (horigin : origin.operations = [op]) (hop : op.isContractOp = true) :
    origin.leaves = [op] := by
  rw [SignedTransaction.leaves_eq, horigin]
  refine leavesOf_of_leaves fun op' hmem => ?_
  rw [List.mem_singleton.1 hmem]
  exact Operation.isTransactionOp_of_isContractOp hop

/-- No operation of a transaction whose tally is not collected moves shares. -/
theorem SignedTransaction.Settled.ignored (h : t.Settled)
    (hlegal : t.checkOperationsLegality = true) (hignore : t.ignoresRequiredFee = true) :
    ∀ op ∈ t.leaves, op.movesShares = false := by
  unfold ignoresRequiredFee at hignore
  obtain ⟨op, hmem, hop⟩ := List.any_eq_true.1 hignore
  rcases Bool.or_eq_true_iff.1 hop with hcontract | hresult
  · intro op' hop'
    rw [leaves_origin (legal_contractOp hlegal hmem hcontract) hcontract,
      List.mem_singleton] at hop'
    exact hop' ▸ Operation.movesShares_contractOp hcontract
  · obtain ⟨htransaction, hincomplete⟩ := Bool.and_eq_true_iff.1 hresult
    obtain ⟨first, rest, hops⟩ : ∃ first rest, t.operations = first :: rest := by
      cases hops : t.operations with
      | nil => simp [hops] at hmem
      | cons first rest => exact ⟨first, rest, rfl⟩
    rw [hops, List.mem_cons] at hmem
    have hfirst : first.isTransactionOp = true := by
      by_contra hplain
      have hplain : first.isTransactionOp = false := by simpa using hplain
      rcases hmem with rfl | hrest
      · simp [hplain] at htransaction
      · rw [legal_plain hops hplain hlegal op hrest] at htransaction
        cases htransaction
    obtain ⟨origin, rfl⟩ : ∃ origin, first = .transaction origin := by
      cases first <;> simp_all [Operation.isTransactionOp]
    obtain ⟨contractOp, horigin, hcontract⟩ := legal_wrapped hops hlegal
    obtain ⟨hleaves, hspare⟩ := h.result hops
    intro op' hop'
    rw [leaves_eq, hops, leavesOf_cons, Operation.leaves_transaction,
      leaves_origin horigin hcontract, leavesOf_of_leaves hleaves] at hop'
    rcases List.mem_cons.1 hop' with rfl | hrest
    · exact Operation.movesShares_contractOp hcontract
    · exact hspare (by simpa using hincomplete) op' hrest

/-- A settled transaction conserves the shares of every asset. -/
theorem evaluate_excess (h : evaluate P V s t = .ok s') (ht : t.Settled)
    (hl : s.st.ledger.InOrder P) (hs : s.st.balance = ∅) :
    s'.st.ledger.InOrder P ∧ ∀ a, s'.st.ledger.excess a = s.st.ledger.excess a := by
  have hzero : ∀ a, amountAt s.st.balance a = 0 := fun a => by rw [hs]; rfl
  obtain ⟨st, hmoves, hsettle⟩ := evaluate_settle h ht
  obtain ⟨hst, hworth⟩ := hmoves hl
  cases hignore : t.ignoresRequiredFee with
  | false =>
    obtain ⟨hl', hexcess⟩ := settle_excess hst hignore hsettle
    refine ⟨hl', fun a => ?_⟩
    rw [hexcess, hworth, hzero, add_zero]
  | true =>
    obtain ⟨-, heq⟩ | ⟨hfalse, -⟩ := EvalState.settle_ok hsettle
    · have htally := tally_evalRel.evaluate t (ht.ignored (evaluate_legal h) hignore) h
      rw [heq] at htally ⊢
      refine ⟨hst, fun a => ?_⟩
      have hworth := hworth a
      rw [htally a] at hworth
      exact add_right_cancel hworth
    · rw [hignore] at hfalse
      cases hfalse

end Transactions

end Achain
