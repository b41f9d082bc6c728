import Achain.Proofs.Writes
import Mathlib.Algebra.Order.Group.Nat

/-!
# Who a result can take shares from

A result carries operations that nobody signed, and nothing in the code makes them spare the
balances of others: a `WithdrawContractOperation` names any balance it likes. What an evaluation
makes of a balance is read off the operations: each lists the balances it takes from and gives to,
and only a destruction looks at the ledger for them. A balance that no contract answers for is
worth at least as much after the result as before exactly where these lists take no more than they
give.
-/

namespace Achain

open Table Result

variable {P : Primitives} {V : Vm}

/-- What the operations before a destruction settle about it: who owns each contract, and which
balances there are. -/
structure Estate where
  owner : ContractIdType → Option PublicKeyType
  has : BalanceIdType → Bool

namespace Estate

/-- The estate a ledger starts with. -/
def ofLedger (l : Ledger) : Estate where
  owner id := (l.getContract id).map ContractEntry.owner
  has id := (l.getBalance id).isSome

/-- The balance is there from now on. -/
def opens (estate : Estate) (id : BalanceIdType) : Estate :=
  { estate with has := fun i => i == id || estate.has i }

/-- The balances are there from now on. -/
def openAll (estate : Estate) (shifts : List (BalanceIdType × ShareType)) : Estate :=
  shifts.foldl (fun estate shift => estate.opens shift.1) estate

theorem openAll_owner (estate : Estate) (shifts : List (BalanceIdType × ShareType)) :
    (estate.openAll shifts).owner = estate.owner := by
  induction shifts generalizing estate with
  | nil => rfl
  | cons shift shifts ih => exact ih (estate.opens shift.1)

end Estate

/-- The balances an operation changes and by how much. A destruction moves the amount it states
from the contract to its owner, where the contract has a balance. -/
def Operation.shifts (P : Primitives) (estate : Estate) :
    Operation → List (BalanceIdType × ShareType)
  | .withdraw op => [(op.balanceId, -op.amount)]
  | .withdrawContract op => [(op.balanceId, -op.amount)]
  | .balancesWithdraw op => (mapItems op.balances).map fun item => (item.1, -item.2)
  | .deposit op => [(P.conditionAddress op.condition, op.amount)]
  | .depositContract op => [(P.conditionAddress op.condition, op.amount)]
  | .onDestroy op =>
    match estate.owner op.id with
    | some key =>
      if estate.has (P.getBalanceId op.id .contract) then
        [(P.getBalanceId op.id .contract, -op.amount.amount),
          (P.getBalanceId (P.address key) .common, op.amount.amount)]
      else []
    | none => []
  | _ => []

/-- The estate after an operation: what it changes is there, and a `ContractInfoOperation` gives
its contract an owner. -/
def Estate.after (P : Primitives) (estate : Estate) (op : Operation) : Estate :=
  match op with
  | .contractInfo info =>
    { estate with owner := Function.update estate.owner info.contractId (some info.owner) }
  | op => estate.openAll (op.shifts P estate)

/-- What operations, one after the other, change. -/
def Estate.shifts (P : Primitives) : Estate → List Operation → List (BalanceIdType × ShareType)
  | _, [] => []
  | estate, op :: ops => op.shifts P estate ++ (estate.after P op).shifts P ops

/-- What a balance gains by the changes, in the 64 bits of a balance. -/
def gain (id : BalanceIdType) (shifts : List (BalanceIdType × ShareType)) : ShareType :=
  (shifts.map fun shift => if shift.1 = id then shift.2 else 0).sum

theorem gain_append (id : BalanceIdType) (shifts shifts' : List (BalanceIdType × ShareType)) :
    gain id (shifts ++ shifts') = gain id shifts + gain id shifts' := by
  simp [gain]

theorem Estate.shifts_append (estate : Estate) (ops ops' : List Operation) :
    estate.shifts P (ops ++ ops') =
      estate.shifts P ops ++ (ops.foldl (Estate.after P) estate).shifts P ops' := by
  induction ops generalizing estate with
  | nil => rfl
  | cons op ops ih =>
    rw [List.cons_append, Estate.shifts, Estate.shifts, ih, List.append_assoc, List.foldl_cons]

/-! ## One store -/

/-- The estate is that of the ledger, up to balances of nothing, and the balance, which has a
condition, is worth `x`. -/
structure Tracked (P : Primitives) (id : BalanceIdType) (estate : Estate) (x : ShareType)
    (l : Ledger) : Prop where
  keyed : l.WellKeyed P
  owner : ∀ c e, l.getContract c = some e → estate.owner c = some e.owner
  has : ∀ i, estate.has i = true → (l.getBalance i).isSome
  zero : ∀ i e, estate.has i = false → l.getBalance i = some e → e.balance = 0
  entry : ∃ e, l.getBalance id = some e ∧ e.balance = x ∧ e.condition.data ≠ .null

/-- The entry a change of a balance starts from. -/
structure Found (P : Primitives) (l : Ledger) (k : BalanceIdType) (e : BalanceEntry) : Prop where
  key : P.balanceId e = k
  entry : l.getBalance k = some e ∨ l.getBalance k = none ∧ e.balance = 0

theorem Found.of_get {l : Ledger} {k : BalanceIdType} {e : BalanceEntry} (hl : l.WellKeyed P)
    (he : l.getBalance k = some e) : Found P l k e :=
  ⟨hl.balance he, .inl he⟩

/-- A deposit goes to the balance of its condition. -/
theorem Found.deposit {l : Ledger} {cond : WithdrawCondition} {fresh : BalanceEntry}
    (hl : l.WellKeyed P) (hfresh : fresh.condition = cond) (hzero : fresh.balance = 0) :
    Found P l (P.conditionAddress cond) (depositEntry P l cond fresh) := by
  unfold depositEntry
  cases h : l.getBalance (P.conditionAddress cond) with
  | some e => exact .of_get hl h
  | none =>
    refine ⟨?_, .inr ⟨h, hzero⟩⟩
    rw [Option.getD_none, Primitives.balanceId, hfresh]

section Tracked

variable {id k : BalanceIdType} {estate : Estate} {x amount : ShareType} {l l' : Ledger}
  {e e' : BalanceEntry} {ctx : OpContext} {s s' : OpState}

namespace Tracked

theorem congr (h : Tracked P id estate x l) (hl' : l'.WellKeyed P)
    (hbalance : l'.balance = l.balance) (hcontract : l'.contract = l.contract)
    (hprev : l'.prev = l.prev) : Tracked P id estate x l' := by
  have hb : l'.getBalance = l.getBalance := by
    funext i
    rw [Ledger.getBalance, hbalance, hprev, Ledger.getBalance]
  have hc : l'.getContract = l.getContract := by
    funext c
    rw [Ledger.getContract, hcontract, hprev, Ledger.getContract]
  exact ⟨hl', hc ▸ h.owner, hb ▸ h.has, hb ▸ h.zero, hb ▸ h.entry⟩

theorem storeContract {c : ContractEntry} (h : Tracked P id estate x l)
    (hc : estate.owner c.id = some c.owner) : Tracked P id estate x (l.storeContract c) := by
  have hb : (l.storeContract c).getBalance = l.getBalance := by
    funext i
    simp [Ledger.getBalance]
  refine ⟨.write (.contract c) h.keyed, fun i e he => ?_, hb ▸ h.has, hb ▸ h.zero, hb ▸ h.entry⟩
  rw [Ledger.getContract_storeContract] at he
  split_ifs at he with hi
  · rw [hi, hc, Option.some.inj he]
  · exact h.owner i e he

theorem found_eq (h : Tracked P id estate x l) (he : Found P l id e) :
    l.getBalance id = some e := by
  obtain he | ⟨hnone, -⟩ := he.entry
  · exact he
  · obtain ⟨e₀, he₀, -⟩ := h.entry
    rw [he₀] at hnone
    exact absurd hnone (by simp)

/-- A changed entry is put back where it was found. -/
theorem put {estate' : Estate} {x' : ShareType} (h : Tracked P id estate x l)
    (he : Found P l k e) (hcond : e'.condition = e.condition)
    (howner : estate'.owner = estate.owner) (hhas : ∀ i, i ≠ k → estate'.has i = estate.has i)
    (hzero : estate'.has k = false → e'.balance = 0)
    (hx : if k = id then e'.balance = x' else x = x') :
    Tracked P id estate' x' (l.storeBalance P e') := by
  have hkey : P.balanceId e' = k := by
    rw [Primitives.balanceId, hcond]
    exact he.key
  have hget : ∀ i, (l.storeBalance P e').getBalance i =
      if i = k then some e' else l.getBalance i := fun i => by
    rw [Ledger.getBalance_storeBalance, hkey]
  refine ⟨.write (.balance e') h.keyed, howner ▸ h.owner, fun i hi => ?_, fun i e₁ hi he₁ => ?_, ?_⟩
  · rw [hget]
    split_ifs with hik
    · rfl
    · exact h.has i (hhas i hik ▸ hi)
  · rw [hget] at he₁
    split_ifs at he₁ with hik
    · rw [← Option.some.inj he₁]
      exact hzero (hik ▸ hi)
    · exact h.zero i e₁ (hhas i hik ▸ hi) he₁
  · obtain ⟨e₀, he₀, hx₀, hnull⟩ := h.entry
    rw [hget]
    by_cases hk : k = id
    · rw [if_pos hk] at hx
      subst hk
      rw [h.found_eq he] at he₀
      exact ⟨e', if_pos rfl, hx, hcond ▸ Option.some.inj he₀ ▸ hnull⟩
    · rw [if_neg hk] at hx
      exact ⟨e₀, by rw [if_neg (Ne.symm hk), he₀], hx₀.trans hx, hnull⟩

/-- An entry changed by an amount. -/
theorem shift (h : Tracked P id estate x l) (he : Found P l k e)
    (hcond : e'.condition = e.condition) (hamount : k = id → e'.balance = e.balance + amount) :
    Tracked P id (estate.opens k) (x + gain id [(k, amount)]) (l.storeBalance P e') := by
  refine h.put he hcond rfl (fun i hi => ?_) (fun hfalse => ?_) ?_
  · simp [Estate.opens, hi]
  · simp [Estate.opens] at hfalse
  · split_ifs with hk
    · obtain ⟨e₀, he₀, hx₀, -⟩ := h.entry
      subst hk
      rw [h.found_eq he] at he₀
      rw [hamount rfl, ← hx₀, Option.some.inj he₀]
      simp [gain]
    · simp [gain, hk]

/-- An entry whose amount stays. -/
theorem touch (h : Tracked P id estate x l) (he : Found P l k e)
    (hcond : e'.condition = e.condition) (hamount : e'.balance = e.balance) :
    Tracked P id estate x (l.storeBalance P e') := by
  refine h.put he hcond rfl (fun _ _ => rfl) (fun hfalse => ?_) ?_
  · rw [hamount]
    obtain he | ⟨-, hzero⟩ := he.entry
    · exact h.zero k e hfalse he
    · exact hzero
  · split_ifs with hk
    · obtain ⟨e₀, he₀, hx₀, -⟩ := h.entry
      subst hk
      rw [h.found_eq he] at he₀
      rw [hamount, ← hx₀, Option.some.inj he₀]
    · rfl

end Tracked

/-! ## One operation -/

theorem BalancesWithdrawOperation.withdrawAll_tracked {items : List (BalanceIdType × ShareType)}
    (hrun : items.foldlM (withdrawOne P ctx) s = .ok s') (h : Tracked P id estate x s.ledger) :
    Tracked P id (estate.openAll (items.map fun item => (item.1, -item.2)))
      (x + gain id (items.map fun item => (item.1, -item.2))) s'.ledger := by
  induction items generalizing s estate x with
  | nil =>
    obtain rfl := ok_eq_ok.1 hrun
    exact (add_zero x).symm ▸ h
  | cons item items ih =>
    rw [List.foldlM_cons, bind_eq_ok] at hrun
    obtain ⟨s₁, h₁, hrun⟩ := hrun
    obtain ⟨e, _, he, -, -, -, -, hledger, -⟩ := withdrawOne_ok h₁
    have hone : Tracked P id (estate.opens item.1) (x + gain id [(item.1, -item.2)]) s₁.ledger := by
      rw [hledger]
      refine h.shift (.of_get h.keyed he) rfl fun _ => ?_
      exact sub_eq_add_neg e.balance item.2
    rw [List.map_cons, ← List.singleton_append, gain_append, ← add_assoc]
    exact ih hrun hone

theorem OriginLedger.tracked (hl : OriginLedger P l l') (h : Tracked P id estate x l) :
    Tracked P id estate x l' := by
  cases hl with
  | same => exact h
  | registered e hfree hname =>
    have hb : (ContractEntry.remove (l.storeContract e) e.id).getBalance = l.getBalance := by
      funext i
      obtain h | h := Ledger.removeContract_eq (l := l.storeContract e) e.id <;>
        simp [h, Ledger.getBalance]
    refine ⟨h.keyed.writes (OriginLedger.registered e hfree hname).writes, fun i e' he' => ?_,
      hb ▸ h.has, hb ▸ h.zero, hb ▸ h.entry⟩
    rw [Ledger.getContract_remove] at he'
    split_ifs at he' with hid
    rw [Ledger.getContract_storeContract, if_neg hid] at he'
    exact h.owner i e' he'
  | restored op _ =>
    have hfound : Found P l (P.conditionAddress op.deposit.condition) (op.balanceEntry P l) :=
      .deposit h.keyed rfl rfl
    exact h.touch hfound rfl rfl

/-- A destruction moves what it states where the contract has a balance; otherwise nothing. -/
theorem OnDestroyOperation.move_tracked {op : OnDestroyOperation} {entry : ContractEntry}
    (hmove : op.move P entry s = .ok s') (hid : entry.id = op.id)
    (howner : estate.owner op.id = some entry.owner) (h : Tracked P id estate x s.ledger) :
    Tracked P id (estate.openAll ((Operation.onDestroy op).shifts P estate))
      (x + gain id ((Operation.onDestroy op).shifts P estate)) s'.ledger := by
  simp only [Operation.shifts, howner]
  obtain ⟨hnone, rfl⟩ | ⟨b, dest, date, l₁, hb, -, hamount, hl₁, hdest, -, hl, -⟩ := move_ok hmove
  · rw [hid] at hnone
    have hhas : ¬estate.has (P.getBalanceId op.id .contract) = true := fun hhas => by
      have hsome := h.has _ hhas
      simp [hnone] at hsome
    rw [if_neg hhas]
    exact (add_zero x).symm ▸ h
  rw [hid] at hb
  have hfound : Found P s.ledger (P.getBalanceId op.id .contract) b := .of_get h.keyed hb
  have hgiven : Found P l₁ (P.getBalanceId (P.address entry.owner) .common) dest := by
    rw [hdest]
    exact .deposit (hl₁ ▸ .write (.balance _) h.keyed) rfl rfl
  rw [hl, hamount]
  split_ifs with hhas
  · have htaken : Tracked P id (estate.opens (P.getBalanceId op.id .contract))
        (x + gain id [(P.getBalanceId op.id .contract, -op.amount.amount)]) l₁ := by
      rw [hl₁]
      refine h.shift hfound rfl fun hk => ?_
      -- the balance has a condition, so all of it is spendable
      obtain ⟨e, he, -, hnull⟩ := h.entry
      rw [← hk, hb] at he
      have hspendable : b.balance = op.amount.amount := by
        rw [← hamount, BalanceEntry.getSpendableBalance]
        split
        · exact absurd ‹_› (Option.some.inj he ▸ hnull)
        · rfl
      rw [hspendable]
      exact (add_neg_cancel op.amount.amount).symm
    rw [← List.singleton_append, gain_append, ← add_assoc]
    exact htaken.shift hgiven rfl fun _ => rfl
  · -- a balance that no operation accounts for has nothing to move
    have hzero : b.balance = 0 := h.zero _ b (by simpa using hhas) hb
    have hnothing : op.amount.amount = 0 := by
      rw [← hamount, BalanceEntry.getSpendableBalance]
      split
      · rfl
      · exact hzero
    have htaken : Tracked P id estate x l₁ := by
      rw [hl₁]
      exact h.touch hfound rfl hzero.symm
    rw [hnothing]
    exact (add_zero x).symm ▸ htaken.touch hgiven rfl (add_zero dest.balance)

theorem OnDestroyOperation.tracked {op : OnDestroyOperation}
    (hrun : op.evaluate P ctx s = .ok s') (h : Tracked P id estate x s.ledger) :
    Tracked P id (estate.openAll ((Operation.onDestroy op).shifts P estate))
      (x + gain id ((Operation.onDestroy op).shifts P estate)) s'.ledger := by
  obtain ⟨-, e, s₁, he, hmove, rfl⟩ := evaluate_ok hrun
  have hid : e.id = op.id := h.keyed.contract he
  have howner : estate.owner op.id = some e.owner := h.owner op.id e he
  refine (move_tracked hmove hid howner h).storeContract ?_
  show (estate.openAll _).owner e.id = some e.owner
  rw [Estate.openAll_owner, hid, howner]

theorem Operation.shifts_spares {op : Operation} (h : op.sparesBalances = true) :
    op.shifts P estate = [] ∧ estate.after P op = estate := by
  cases op <;> first | exact ⟨rfl, rfl⟩ | cases h

/-- An operation changes a balance by what it lists. -/
theorem Operation.evaluateLeaf_tracked {op : Operation}
    (hrun : op.evaluateLeaf P V ctx s = .ok s') (h : Tracked P id estate x s.ledger) :
    Tracked P id (estate.after P op) (x + gain id (op.shifts P estate)) s'.ledger := by
  have hkeyed := h.keyed.writes (evaluateLeaf_writes hrun)
  by_cases hspares : op.sparesBalances = true
  · have hsame := evaluateLeaf_spares hspares hrun
    obtain ⟨hshifts, hafter⟩ : op.shifts P estate = [] ∧ _ := shifts_spares hspares
    rw [hshifts, hafter]
    exact (add_zero x).symm ▸ h.congr hkeyed hsame.balance hsame.contract hsame.prev
  cases op <;> simp only [evaluateLeaf] at hrun
  case withdraw op =>
    obtain ⟨e, _, he, -, -, -, hledger, -⟩ := WithdrawOperation.evaluate_ok hrun
    rw [hledger]
    exact h.shift (.of_get h.keyed he) rfl fun _ => sub_eq_add_neg e.balance op.amount
  case withdrawContract op =>
    obtain ⟨e, he, -, -, -, -, hledger, -⟩ := WithdrawContractOperation.evaluate_ok hrun
    have hfound : Found P s.ledger op.balanceId e := by
      obtain he | ⟨hnone, hid, rfl⟩ := WithdrawContractOperation.target_ok he
      · exact .of_get h.keyed he
      · exact ⟨hid.symm, .inr ⟨hnone, rfl⟩⟩
    rw [hledger]
    exact h.shift hfound rfl fun _ => sub_eq_add_neg e.balance op.amount
  case balancesWithdraw op =>
    exact BalancesWithdrawOperation.withdrawAll_tracked
      (BalancesWithdrawOperation.evaluate_ok hrun).2 h
  case onDestroy op => exact OnDestroyOperation.tracked hrun h
  case deposit op =>
    obtain ⟨_, _, rfl, -, -, hledger, -⟩ := DepositOperation.evaluate_ok hrun
    rw [hledger]
    exact h.shift (.deposit h.keyed rfl rfl) rfl fun _ => rfl
  case depositContract op =>
    obtain ⟨_, _, rfl, -, -, -, hledger, -⟩ := DepositContractOperation.evaluate_ok hrun
    obtain ⟨hcond, hzero⟩ := op.fresh_condition ctx.trx
    rw [hledger]
    exact h.shift (.deposit h.keyed hcond hzero) rfl fun _ => rfl
  case registerContract op =>
    exact (add_zero x).symm ▸ (RegisterContractOperation.evaluate_ok hrun).ledger.tracked h
  case upgradeContract op =>
    exact (add_zero x).symm ▸ (UpgradeContractOperation.evaluate_ok hrun).ledger.tracked h
  case destroyContract op =>
    exact (add_zero x).symm ▸ (DestroyContractOperation.evaluate_ok hrun).ledger.tracked h
  case callContract op =>
    exact (add_zero x).symm ▸ (CallContractOperation.evaluate_ok hrun).ledger.tracked h
  case transferContract op =>
    exact (add_zero x).symm ▸ (TransferContractOperation.evaluate_ok hrun).ledger.tracked h
  case contractInfo op =>
    obtain ⟨-, -, e, -, hid, howner, rfl⟩ := ContractInfoOperation.evaluate_ok hrun
    have hupdate : Tracked P id (estate.after P (.contractInfo op)) x (s.ledger.storeContract e) := by
      have hb : (s.ledger.storeContract e).getBalance = s.ledger.getBalance := by
        funext i
        simp [Ledger.getBalance]
      refine ⟨.write (.contract e) h.keyed, fun c e' he' => ?_, hb ▸ h.has, hb ▸ h.zero, hb ▸ h.entry⟩
      show Function.update estate.owner op.contractId (some op.owner) c = some e'.owner
      rw [Ledger.getContract_storeContract, hid] at he'
      rw [Function.update_apply]
      split_ifs at he' ⊢ with hc
      · rw [← howner, Option.some.inj he']
      · exact h.owner c e' he'
    exact (add_zero x).symm ▸ hupdate.congr hkeyed rfl rfl rfl
  case onUpgrade op =>
    obtain ⟨-, e, he, rfl⟩ := OnUpgradeOperation.evaluate_ok hrun
    refine (add_zero x).symm ▸ h.storeContract ?_
    show estate.owner e.id = some e.owner
    rw [h.keyed.contract he]
    exact h.owner op.id e he
  case transaction trx => simp at hrun
  all_goals simp [sparesBalances] at hspares

/-! ## A whole evaluation -/

/-- A balance follows the changes the operations list. -/
def Follows (P : Primitives) (id : BalanceIdType) (ops : FreeAddMonoid Operation)
    (l l' : Ledger) : Prop :=
  ∀ estate x, Tracked P id estate x l →
    Tracked P id (ops.toList.foldl (Estate.after P) estate)
      (x + gain id (estate.shifts P ops.toList)) l'

theorem Follows.of_tracked (h : ∀ estate x, Tracked P id estate x l → Tracked P id estate x l') :
    Follows P id 0 l l' := by
  intro estate x hl
  exact (add_zero x).symm ▸ h estate x hl

theorem follows_ledgerRel :
    LedgerRel P V (fun _ => True) FreeAddMonoid.of (Follows P id) where
  refl l := .of_tracked fun _ _ h => h
  trans := by
    intro a b l₁ l₂ l₃ h₁ h₂ estate x hl
    rw [FreeAddMonoid.toList_add, Estate.shifts_append, gain_append, ← add_assoc, List.foldl_append]
    exact h₂ _ _ (h₁ estate x hl)
  leaf := by
    intro ctx s s' op _ hrun estate x hl
    rw [FreeAddMonoid.toList_of, Estate.shifts, Estate.shifts, List.append_nil]
    exact Operation.evaluateLeaf_tracked hrun hl
  fee h := by
    obtain ⟨-, rfl⟩ | ⟨-, a, -, rfl⟩ := EvalState.collectFee_ok h
    · exact .of_tracked fun _ _ h => h
    · exact .of_tracked fun _ _ h => h.congr (.write (.asset _) h.keyed) (by simp) (by simp) (by simp)
  votes h := by
    obtain ⟨a, stats, -, -, rfl⟩ := EvalState.updateVotes_ok h
    exact .of_tracked fun _ _ h => h.congr (.write (.account _) h.keyed) (by simp) (by simp) (by simp)
  request s rid trx := by
    refine .of_tracked fun _ _ h => h.congr (h.keyed.writes ?_) rfl rfl rfl
    exact (Writes.one (.resultId _ _)).tail (.requestId _ _)

end Tracked

/-! ## Results -/

/-- The operator a contract operation records. -/
def Operation.operator (l : Ledger) : Operation → Option PublicKeyType
  | .registerContract op => some op.owner
  | .callContract op => some op.caller
  | .transferContract op => some op.from'
  | .upgradeContract op => (l.getContract op.id).map ContractEntry.owner
  | .destroyContract op => (l.getContract op.id).map ContractEntry.owner
  | _ => none

/-- A balance a result is not meant to take from: it is withdrawn from with the signature of an
owner other than the operator, and is no contract's contract or margin balance. -/
structure Protected (P : Primitives) (l : Ledger) (wrapped : Operation) (id : BalanceIdType)
    (e : BalanceEntry) : Prop where
  entry : l.getBalance id = some e
  owner : ∃ owner memo, e.condition.data = .signature owner memo ∧
    ∀ key ∈ wrapped.operator l, owner ≠ P.address key
  notContract : ∀ c, (l.getContract c).isSome →
    id ≠ P.getBalanceId c .contract ∧ id ≠ P.getBalanceId c .margin

theorem tracked_ofLedger {l : Ledger} {id : BalanceIdType} {e : BalanceEntry}
    (hl : l.WellKeyed P) (he : l.getBalance id = some e) (hnull : e.condition.data ≠ .null) :
    Tracked P id (.ofLedger l) e.balance l where
  keyed := hl
  owner c e hc := congrArg (Option.map ContractEntry.owner) hc
  has _ h := h
  zero i e hi he := by
    have hnone : (l.getBalance i).isSome = false := hi
    simp [he] at hnone
  entry := ⟨e, he, rfl, hnull⟩

/-- A result leaves every protected balance at least what it had exactly where the operations it
carries, at any depth, take no more from it than they give, in the 64 bits of a balance. -/
theorem protected_balances_kept (P : Primitives) (V : Vm) (p : PendingChainState)
    (hp : p.ledger.WellKeyed P) (skipSignatureCheck skipexec : Bool)
    (t origin : SignedTransaction) (wrapped : Operation) (rest : List Operation)
    (_ht : t.operations = .transaction origin :: rest) (_horigin : origin.operations = [wrapped])
    (s' : EvalState) (h : evaluate P V (.init p skipSignatureCheck skipexec) t = .ok s') :
    (∀ id e, Protected P p.ledger wrapped id e →
      ∃ e', s'.st.ledger.getBalance id = some e' ∧ e.balance ≤ e'.balance) ↔
    ∀ id e, Protected P p.ledger wrapped id e →
      e.balance ≤ e.balance + gain id ((Estate.ofLedger p.ledger).shifts P t.leaves) := by
  refine forall_congr' fun id => forall_congr' fun e => forall_congr' fun he => ?_
  obtain ⟨owner, memo, hdata, -⟩ := he.owner
  have hstart : Tracked P id (.ofLedger p.ledger) e.balance p.ledger :=
    tracked_ofLedger hp he.entry (by simp [hdata])
  have hend := follows_ledgerRel.evaluate (fun _ _ => trivial) h _ _ hstart
  rw [weight_of] at hend
  obtain ⟨e', he', hbalance, -⟩ := hend.entry
  rw [← hbalance]
  constructor
  · rintro ⟨e'', he'', hle⟩
    rw [he'] at he''
    exact Option.some.inj he'' ▸ hle
  · exact fun hle => ⟨e', he', hle⟩

/-- The chain of the examples below: key 1 owns contract 7, and keys 1 and 2 have a balance of
5000 each. -/
def theftView : LedgerView :=
  { LedgerView.empty with
    assetById := fun id => if id = 0 then some { (default : AssetEntry) with id := 0 } else none
    balance := fun id =>
      if id = 3 then some ⟨⟨0, 0, .common, .signature 1 none⟩, 5000, 0, 0, none⟩
      else if id = 6 then some ⟨⟨0, 0, .common, .signature 2 none⟩, 5000, 0, 0, none⟩
      else none
    contractById := fun id =>
      if id = 7 then some { (default : ContractEntry) with
        id := 7
        owner := 1
        code := { (default : Code) with abi := [['g', 'o']] } }
      else none
    now := 50 }

/-- A call of the contract by key 1. -/
def theftCall : CallContractOperation where
  caller := 1
  balances := AList.insert 3 1200 ∅
  contract := 7
  costlimit := ⟨100, 0⟩
  transactionFee := ⟨1000, 0⟩
  method := ['g', 'o']
  args := []

def theftOrigin : SignedTransaction :=
  { SignedTransaction.empty with
    expiration := 100
    operations := [.callContract theftCall]
    signatures := [1] }

/-- A result of the call that pays key 1 from the balance of some key. -/
def theftResult (id : BalanceIdType) : SignedTransaction :=
  { SignedTransaction.empty with
    expiration := 100
    operations := [.transaction theftOrigin, .withdrawContract ⟨id, 3000, 0⟩,
      .deposit ⟨1500, ⟨0, 0, .common, .signature 1 none⟩⟩]
    resultTrxType := .complete }

theorem theftView_wellKeyed : (Ledger.ofView theftView).WellKeyed .plain := by
  constructor <;> intro k e he
  · change (if k = 3 then some _ else if k = 6 then some _ else none) = some e at he
    split_ifs at he with h₁ h₂ <;> obtain rfl := Option.some.inj he
    · exact h₁.symm
    · exact h₂.symm
  · exact absurd he (by simp [Ledger.getAccount, Ledger.ofView, theftView, LedgerView.empty])
  · change (if k = 0 then some _ else none) = some e at he
    split_ifs at he with h
    obtain rfl := Option.some.inj he
    exact h.symm
  · change (if k = 7 then some _ else none) = some e at he
    split_ifs at he with h
    obtain rfl := Option.some.inj he
    exact h.symm

/-- The only balance protected from a result of the call is that of key 2. -/
theorem theftView_protected {id : BalanceIdType} {e : BalanceEntry}
    (h : Protected .plain (.ofView theftView) (.callContract theftCall) id e) : id = 6 := by
  have he := h.entry
  change (if id = 3 then some _ else if id = 6 then some _ else none) = some e at he
  split_ifs at he with h₁ h₂
  · obtain rfl := Option.some.inj he
    obtain ⟨owner, memo, hdata, hne⟩ := h.owner
    obtain ⟨rfl, -⟩ := WithdrawData.signature.inj hdata
    exact absurd rfl (hne 1 rfl)
  · exact h₂

theorem protected_balances_kept_at_call :
    ∃ s', evaluate .plain .idle (.init (.ofView theftView) false true) (theftResult 3) = .ok s' ∧
      ∀ id e, Protected .plain (.ofView theftView) (.callContract theftCall) id e →
        ∃ e', s'.st.ledger.getBalance id = some e' ∧ e.balance ≤ e'.balance := by
  have hrun : returns (evaluate .plain .idle (.init (.ofView theftView) false true) (theftResult 3))
      (fun _ => true) = true := by decide +kernel
  obtain ⟨s', hs', -⟩ := exists_of_returns hrun
  refine ⟨s', hs', ?_⟩
  refine (protected_balances_kept .plain .idle (.ofView theftView) theftView_wellKeyed false true
    (theftResult 3) theftOrigin _ _ rfl rfl s' hs').2 ?_
  intro id e he
  obtain rfl := theftView_protected he
  obtain rfl := Option.some.inj he.entry
  decide +kernel

/-- A result of a call that key 2 has nothing to do with takes most of its balance. -/
theorem result_debits_protected_balance :
    ∃ s' e, evaluate .plain .idle (.init (.ofView theftView) false true) (theftResult 6) = .ok s' ∧
      Protected .plain (.ofView theftView) (.callContract theftCall) 6 e ∧
      ¬∃ e', s'.st.ledger.getBalance 6 = some e' ∧ e.balance ≤ e'.balance := by
  have hrun : returns (evaluate .plain .idle (.init (.ofView theftView) false true) (theftResult 6))
      (fun s => (s.st.ledger.getBalance 6).any (·.balance == 2000)) = true := by decide +kernel
  obtain ⟨s', hs', hafter⟩ := exists_of_returns hrun
  refine ⟨s', _, hs', ⟨rfl, ⟨2, none, rfl, ?_⟩, ?_⟩, ?_⟩
  · intro key hkey
    obtain rfl := Option.some.inj hkey
    decide
  · intro c hc
    change (if c = 7 then some _ else none).isSome at hc
    split_ifs at hc with h
    · rw [h]
      decide
    · simp at hc
  · rintro ⟨e', he', hle⟩
    rw [he'] at hafter
    have hbalance : e'.balance = 2000 := by simpa using hafter
    rw [hbalance] at hle
    exact absurd hle (by decide)

end Achain
