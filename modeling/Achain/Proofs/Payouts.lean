import Achain.Vm
import Achain.Proofs.ContractSpecs

/-!
# What a run pays out of its contracts

A payout makes a withdrawal from the balance of its contract, or raises the one already there, and
appends a deposit of the same amount. The sum of the two withdrawals is compared with what the
balance can spend, but not with 64 bits: where it wraps it is negative and passes. In a run in
which no sum wraps, each balance paid from has one withdrawal of all that was paid, which it can
spend, and the deposits make up the same total. A payout that throws has written nothing, since its
amount is positive.
-/

namespace Achain

open Table Result

variable {P : Primitives} {l : Ledger}

/-! ## Withdrawals and deposits of a result -/

/-- The amount an operation of a result withdraws from a contract balance. -/
def Operation.withdrawalFrom (id : BalanceIdType) : Operation → Option ShareType
  | .withdrawContract op => if op.balanceId = id then some op.amount else none
  | _ => none

def withdrawalsFrom (id : BalanceIdType) (ops : List Operation) : List ShareType :=
  ops.filterMap (Operation.withdrawalFrom id)

/-- The amount an operation withdraws from any contract balance. -/
def Operation.withdrawn : Operation → ℤ
  | .withdrawContract op => op.amount.toInt
  | _ => 0

def withdrawTotal (ops : List Operation) : ℤ := (ops.map Operation.withdrawn).sum

def Operation.isDeposit : Operation → Bool
  | .deposit _ => true
  | _ => false

def deposits (ops : List Operation) : List Operation := ops.filter Operation.isDeposit

@[simp] theorem withdrawalsFrom_append {id : BalanceIdType} {ops ops' : List Operation} :
    withdrawalsFrom id (ops ++ ops') = withdrawalsFrom id ops ++ withdrawalsFrom id ops' :=
  List.filterMap_append

@[simp] theorem withdrawTotal_append {ops ops' : List Operation} :
    withdrawTotal (ops ++ ops') = withdrawTotal ops + withdrawTotal ops' := by
  simp [withdrawTotal]

@[simp] theorem deposits_append {ops ops' : List Operation} :
    deposits (ops ++ ops') = deposits ops ++ deposits ops' :=
  List.filter_append ..

theorem withdrawalsFrom_cons_withdrawContract {id : BalanceIdType} {op : WithdrawContractOperation}
    {ops : List Operation} : withdrawalsFrom id (.withdrawContract op :: ops) =
      if op.balanceId = id then op.amount :: withdrawalsFrom id ops else withdrawalsFrom id ops := by
  unfold withdrawalsFrom
  rw [List.filterMap_cons]
  simp only [Operation.withdrawalFrom]
  split_ifs <;> rfl

theorem withdrawTotal_cons {op : Operation} {ops : List Operation} :
    withdrawTotal (op :: ops) = op.withdrawn + withdrawTotal ops := by
  simp [withdrawTotal]

/-- The amount used is that of the first withdrawal. -/
theorem usedAmount_eq {id : BalanceIdType} : ∀ ops : List Operation,
    usedAmount id ops = (withdrawalsFrom id ops).head?
  | [] => rfl
  | op :: ops => by
    have ih : usedAmount id ops = (withdrawalsFrom id ops).head? := usedAmount_eq ops
    cases op with
    | withdrawContract op =>
      rw [withdrawalsFrom_cons_withdrawContract, usedAmount]
      split_ifs
      · rfl
      · exact ih
    | _ => exact ih

/-- Where an amount is used, the first withdrawal is the one replaced. -/
theorem setUsedAmount_eq {id : BalanceIdType} {u : ShareType} (v : ShareType) :
    ∀ {ops : List Operation}, usedAmount id ops = some u →
      ∃ pre op post, ops = pre ++ .withdrawContract op :: post ∧ op.balanceId = id ∧
        op.amount = u ∧ withdrawalsFrom id pre = [] ∧
        setUsedAmount id v ops = pre ++ .withdrawContract { op with amount := v } :: post
  | [], h => nomatch h
  | op :: ops, h => by
    have htail : usedAmount id ops = some u →
        (∀ pre, withdrawalsFrom id (op :: pre) = withdrawalsFrom id pre) →
        setUsedAmount id v (op :: ops) = op :: setUsedAmount id v ops →
        ∃ pre op' post, op :: ops = pre ++ .withdrawContract op' :: post ∧ op'.balanceId = id ∧
          op'.amount = u ∧ withdrawalsFrom id pre = [] ∧ setUsedAmount id v (op :: ops) =
            pre ++ .withdrawContract { op' with amount := v } :: post := by
      intro hused hcons hset
      obtain ⟨pre, op', post, rfl, hid, hamount, hpre, hset'⟩ := setUsedAmount_eq v hused
      exact ⟨op :: pre, op', post, rfl, hid, hamount, (hcons pre).trans hpre, by rw [hset, hset']; rfl⟩
    cases op with
    | withdrawContract op =>
      rw [usedAmount] at h
      split_ifs at h with hid
      · obtain rfl := Option.some.inj h
        exact ⟨[], op, ops, rfl, hid, rfl, rfl, by rw [setUsedAmount, if_pos hid]; rfl⟩
      · refine htail h (fun pre => ?_) (by rw [setUsedAmount, if_neg hid])
        rw [withdrawalsFrom_cons_withdrawContract, if_neg hid]
    | _ => exact htail h (fun _ => rfl) rfl

section SetUsed

variable {id : BalanceIdType} {u v : ShareType} {ops : List Operation}

theorem withdrawalsFrom_setUsedAmount_self (h : withdrawalsFrom id ops = [u]) :
    withdrawalsFrom id (setUsedAmount id v ops) = [v] := by
  obtain ⟨pre, op, post, rfl, hid, -, hpre, hset⟩ :=
    setUsedAmount_eq v (by rw [usedAmount_eq, h]; rfl : usedAmount id ops = some u)
  rw [withdrawalsFrom_append, withdrawalsFrom_cons_withdrawContract, if_pos hid, hpre,
    List.nil_append, List.cons.injEq] at h
  rw [hset, withdrawalsFrom_append, withdrawalsFrom_cons_withdrawContract, if_pos hid, hpre, h.2]
  rfl

theorem withdrawalsFrom_setUsedAmount_ne {id' : BalanceIdType} (hne : id' ≠ id)
    (h : usedAmount id ops = some u) :
    withdrawalsFrom id' (setUsedAmount id v ops) = withdrawalsFrom id' ops := by
  obtain ⟨pre, op, post, rfl, hid, -, -, hset⟩ := setUsedAmount_eq v h
  have hop : op.balanceId ≠ id' := fun h' => hne (h'.symm.trans hid)
  simp only [hset, withdrawalsFrom_append, withdrawalsFrom_cons_withdrawContract, if_neg hop]

theorem withdrawTotal_setUsedAmount (h : usedAmount id ops = some u) :
    withdrawTotal (setUsedAmount id v ops) = withdrawTotal ops + (v.toInt - u.toInt) := by
  obtain ⟨pre, op, post, rfl, -, rfl, -, hset⟩ := setUsedAmount_eq v h
  simp only [hset, withdrawTotal_append, withdrawTotal_cons, Operation.withdrawn]
  omega

theorem deposits_setUsedAmount (h : usedAmount id ops = some u) :
    deposits (setUsedAmount id v ops) = deposits ops := by
  obtain ⟨pre, op, post, rfl, -, -, -, hset⟩ := setUsedAmount_eq v h
  rw [hset, deposits_append, deposits_append]
  rfl

end SetUsed

/-! ## One payout -/

section Payout

variable {amount : ShareType} {symbol : Str} {contract : ContractIdType} {toAddress : Address}
  {ops ops' : List Operation}

/-- The outcome of a computation that changes the operations where it returns. -/
def onOperations (ops : List Operation) (x : Except Exn (List Operation)) :
    EStateM.Result Exn (List Operation) Unit :=
  match x with
  | .ok ops' => .ok () ops'
  | .error e => .error e ops

theorem throwing_bind {α : Type} {x : Except Exn α} {f : α → ResultM Unit}
    {g : α → Except Exn (List Operation)} (h : ∀ a, f a ops = onOperations ops (g a)) :
    (ResultM.throwing x >>= f) ops = onOperations ops (x >>= g) := by
  cases x with
  | ok a => exact h a
  | error e => rfl

theorem withdrawFromContractSteps_eq :
    withdrawFromContractSteps P l amount contract ops =
      onOperations ops (withdrawFromContract P l amount contract ops) := by
  unfold withdrawFromContractSteps withdrawFromContract
  refine throwing_bind fun entry => ?_
  rw [Stateful.get_bind]
  refine throwing_bind fun _ => ?_
  cases usedAmount (P.getBalanceId contract .contract) ops with
  | none => exact throwing_bind fun _ => rfl
  | some u => rfl

/-- A payout of a positive amount throws before it writes. -/
theorem transferAssetFromContractSteps_eq (hpos : 0 < amount) :
    transferAssetFromContractSteps P l amount symbol contract toAddress ops =
      onOperations ops (transferAssetFromContract P l amount symbol contract toAddress ops) := by
  unfold transferAssetFromContractSteps transferAssetFromContract
  refine throwing_bind fun asset => throwing_bind fun _ => ?_
  have hwithdraw : withdrawFromContractSteps P l amount contract ops = _ := withdrawFromContractSteps_eq
  have hdec : decide (0 < amount) = true := decide_eq_true hpos
  cases hpure : withdrawFromContract P l amount contract ops with
  | error e =>
    rw [hpure] at hwithdraw
    exact Stateful.bind_of_error hwithdraw
  | ok ops' =>
    rw [hpure] at hwithdraw
    rw [Stateful.bind_of_ok hwithdraw, hdec]
    rfl

/-- The operations after a payout that returns. -/
def payoutOps (P : Primitives) (amount : ShareType) (contract : ContractIdType)
    (toAddress : Address) (ops : List Operation) : List Operation :=
  let id := P.getBalanceId contract .contract
  (match usedAmount id ops with
    | none => ops ++ [.withdrawContract ⟨id, amount, contract⟩]
    | some u => setUsedAmount id (amount + u) ops) ++ [payoutDeposit amount toAddress]

/-- The symbol names the base asset. -/
def Ledger.IsBaseSymbol (l : Ledger) (symbol : Str) : Prop :=
  ∃ asset, l.getAssetBySymbol symbol = some asset ∧ asset.id = 0

theorem transferAssetFromContract_eq_ok (hpos : 0 < amount) :
    transferAssetFromContract P l amount symbol contract toAddress ops = .ok ops' ↔
      l.IsBaseSymbol symbol ∧
        (∃ entry, l.getBalance (P.getBalanceId contract .contract) = some entry ∧
          amount + (usedAmount (P.getBalanceId contract .contract) ops).getD 0 ≤
            entry.getSpendableBalance.amount) ∧
        ops' = payoutOps P amount contract toAddress ops := by
  unfold payoutOps Ledger.IsBaseSymbol
  simp only [transferAssetFromContract, withdrawFromContract, bind_eq_ok, ensure_eq_ok,
    orThrow_eq_ok, pure_eq_ok, exists_const, decide_eq_true_eq, beq_iff_eq]
  cases usedAmount (P.getBalanceId contract .contract) ops with
  | none =>
    simp only [bind_eq_ok, ensure_eq_ok, pure_eq_ok, exists_const, decide_eq_true_eq]
    constructor
    · rintro ⟨asset, hasset, hzero, _, ⟨entry, hentry, hle, -, rfl⟩, -, rfl⟩
      exact ⟨⟨asset, hasset, hzero⟩, ⟨entry, hentry, hle⟩, rfl⟩
    · rintro ⟨⟨asset, hasset, hzero⟩, ⟨entry, hentry, hle⟩, rfl⟩
      exact ⟨asset, hasset, hzero, _, ⟨entry, hentry, hle, hpos, rfl⟩, hpos, rfl⟩
  | some u =>
    simp only [pure_eq_ok]
    constructor
    · rintro ⟨asset, hasset, hzero, _, ⟨entry, hentry, hle, rfl⟩, -, rfl⟩
      exact ⟨⟨asset, hasset, hzero⟩, ⟨entry, hentry, hle⟩, rfl⟩
    · rintro ⟨⟨asset, hasset, hzero⟩, ⟨entry, hentry, hle⟩, rfl⟩
      exact ⟨asset, hasset, hzero, _, ⟨entry, hentry, hle, rfl⟩, hpos, rfl⟩

theorem payoutOps_of_none (h : usedAmount (P.getBalanceId contract .contract) ops = none) :
    payoutOps P amount contract toAddress ops =
      ops ++ [.withdrawContract ⟨P.getBalanceId contract .contract, amount, contract⟩] ++
        [payoutDeposit amount toAddress] := by
  simp only [payoutOps, h]

theorem payoutOps_of_some {u : ShareType}
    (h : usedAmount (P.getBalanceId contract .contract) ops = some u) :
    payoutOps P amount contract toAddress ops =
      setUsedAmount (P.getBalanceId contract .contract) (amount + u) ops ++
        [payoutDeposit amount toAddress] := by
  simp only [payoutOps, h]

@[simp] theorem withdrawalsFrom_payoutDeposit {id : BalanceIdType} :
    withdrawalsFrom id [payoutDeposit amount toAddress] = [] := rfl

theorem withdrawalsFrom_payoutOps_self
    (h : withdrawalsFrom (P.getBalanceId contract .contract) ops =
      (usedAmount (P.getBalanceId contract .contract) ops).toList) :
    withdrawalsFrom (P.getBalanceId contract .contract)
      (payoutOps P amount contract toAddress ops) =
        [amount + (usedAmount (P.getBalanceId contract .contract) ops).getD 0] := by
  cases hu : usedAmount (P.getBalanceId contract .contract) ops with
  | none =>
    rw [hu] at h
    have hnew : withdrawalsFrom (P.getBalanceId contract .contract)
        [.withdrawContract ⟨P.getBalanceId contract .contract, amount, contract⟩] = [amount] := by
      rw [withdrawalsFrom_cons_withdrawContract, if_pos rfl]
      rfl
    rw [payoutOps_of_none hu, withdrawalsFrom_append, withdrawalsFrom_append, h, hnew,
      withdrawalsFrom_payoutDeposit, Option.getD_none, add_zero]
    rfl
  | some u =>
    rw [hu] at h
    rw [payoutOps_of_some hu, withdrawalsFrom_append, withdrawalsFrom_setUsedAmount_self h]
    rfl

theorem withdrawalsFrom_payoutOps_ne {id : BalanceIdType}
    (h : P.getBalanceId contract .contract ≠ id) :
    withdrawalsFrom id (payoutOps P amount contract toAddress ops) = withdrawalsFrom id ops := by
  cases hu : usedAmount (P.getBalanceId contract .contract) ops with
  | none =>
    have hnew : withdrawalsFrom id
        [.withdrawContract ⟨P.getBalanceId contract .contract, amount, contract⟩] = [] := by
      rw [withdrawalsFrom_cons_withdrawContract, if_neg h]
      rfl
    rw [payoutOps_of_none hu, withdrawalsFrom_append, withdrawalsFrom_append, hnew,
      withdrawalsFrom_payoutDeposit, List.append_nil, List.append_nil]
  | some u =>
    rw [payoutOps_of_some hu, withdrawalsFrom_append, withdrawalsFrom_setUsedAmount_ne h.symm hu,
      withdrawalsFrom_payoutDeposit, List.append_nil]

theorem withdrawTotal_payoutOps :
    withdrawTotal (payoutOps P amount contract toAddress ops) = withdrawTotal ops +
      ((amount + (usedAmount (P.getBalanceId contract .contract) ops).getD 0).toInt -
        ((usedAmount (P.getBalanceId contract .contract) ops).getD 0).toInt) := by
  have hdeposit : withdrawTotal [payoutDeposit amount toAddress] = 0 := rfl
  cases hu : usedAmount (P.getBalanceId contract .contract) ops with
  | none =>
    have hnew : withdrawTotal [.withdrawContract ⟨P.getBalanceId contract .contract, amount,
        contract⟩] = amount.toInt := add_zero _
    simp only [payoutOps_of_none hu, withdrawTotal_append, hdeposit, hnew, Option.getD_none,
      add_zero, Int64.toInt_zero, sub_zero]
  | some u =>
    simp only [payoutOps_of_some hu, withdrawTotal_append, hdeposit,
      withdrawTotal_setUsedAmount hu, Option.getD_some, add_zero]

theorem deposits_payoutOps :
    deposits (payoutOps P amount contract toAddress ops) =
      deposits ops ++ [payoutDeposit amount toAddress] := by
  have hdeposit : deposits [payoutDeposit amount toAddress] = [payoutDeposit amount toAddress] := rfl
  cases hu : usedAmount (P.getBalanceId contract .contract) ops with
  | none =>
    have hnew : deposits [.withdrawContract ⟨P.getBalanceId contract .contract, amount,
        contract⟩] = [] := rfl
    rw [payoutOps_of_none hu, deposits_append, deposits_append, hdeposit, hnew, List.append_nil]
  | some u =>
    rw [payoutOps_of_some hu, deposits_append, deposits_setUsedAmount hu, hdeposit]

end Payout

/-! ## The accounts of a run -/

def ContractPayout.balanceId (P : Primitives) (c : ContractPayout) : BalanceIdType :=
  P.getBalanceId c.contract .contract

/-- What a list of payouts takes from a balance. -/
def paidFrom (P : Primitives) (id : BalanceIdType) (paid : List ContractPayout) : ℤ :=
  (paid.map fun c => if c.balanceId P = id then c.amount.toInt else 0).sum

def paidTotal (paid : List ContractPayout) : ℤ := (paid.map fun c => c.amount.toInt).sum

theorem paidFrom_append {id : BalanceIdType} {paid : List ContractPayout} {c : ContractPayout} :
    paidFrom P id (paid ++ [c]) =
      paidFrom P id paid + if c.balanceId P = id then c.amount.toInt else 0 := by
  simp [paidFrom]

theorem paidFrom_eq_zero {id : BalanceIdType} : ∀ {paid : List ContractPayout},
    (∀ c ∈ paid, c.balanceId P ≠ id) → paidFrom P id paid = 0
  | [], _ => rfl
  | c :: paid, h => by
    have hrest := paidFrom_eq_zero fun c' hc' => h c' (List.mem_cons_of_mem _ hc')
    rw [paidFrom, List.map_cons, List.sum_cons, if_neg (h c (List.mem_cons_self ..)), zero_add]
    exact hrest

/-- What the API checks of a call that pays: its amount is positive. -/
def VmEffect.PaysPositive : VmEffect → Prop
  | .transfer _ _ _ amount => 0 < amount
  | _ => True

namespace PayoutRun

/-- The accounts of a run over a ledger that began with some operations: every balance paid from has
one withdrawal, of the exact sum of what was paid from it, which the balance can spend; nothing else
is withdrawn; and the deposits appended are those of the payouts, which come to the same total. -/
structure Accounted (P : Primitives) (l : Ledger) (ops : List Operation) (r : PayoutRun) :
    Prop where
  withdrawn : ∀ c ∈ r.paid, ∃ a, withdrawalsFrom (c.balanceId P) r.operations = [a] ∧
    a.toInt = paidFrom P (c.balanceId P) r.paid
  spendable : ∀ c ∈ r.paid, ∃ entry, l.getBalance (c.balanceId P) = some entry ∧
    paidFrom P (c.balanceId P) r.paid ≤ entry.getSpendableBalance.amount.toInt
  only : ∀ id, (∀ c ∈ r.paid, c.balanceId P ≠ id) → withdrawalsFrom id r.operations = []
  deposited : deposits r.operations =
    deposits ops ++ r.paid.map fun c => payoutDeposit c.amount c.toAddress
  total : withdrawTotal r.operations = withdrawTotal ops + paidTotal r.paid

/-- The sum a payout compares with what the balance can spend does not wrap. -/
def Fits (P : Primitives) (l : Ledger) (r : PayoutRun) : VmEffect → Prop
  | .transfer contract _ symbol amount => l.IsBaseSymbol symbol →
      ∀ u, usedAmount (P.getBalanceId contract .contract) r.operations = some u →
        u.toInt + amount.toInt < 2 ^ 63
  | _ => True

section Step

variable {ops : List Operation} {r : PayoutRun} {e : VmEffect}

theorem accounted_start (h : ∀ id, withdrawalsFrom id ops = []) :
    Accounted P l ops ⟨[], ops⟩ where
  withdrawn := nofun
  spendable := nofun
  only id _ := h id
  deposited := (List.append_nil _).symm
  total := (add_zero _).symm

/-- A balance the result withdraws from is one that was paid from. -/
theorem Accounted.used (h : Accounted P l ops r) {id : BalanceIdType} {u : ShareType}
    (hu : usedAmount id r.operations = some u) :
    withdrawalsFrom id r.operations = [u] ∧ u.toInt = paidFrom P id r.paid ∧
      ∃ entry, l.getBalance id = some entry ∧
        u.toInt ≤ entry.getSpendableBalance.amount.toInt := by
  have hpaid : ∃ c ∈ r.paid, c.balanceId P = id := by
    by_contra hnone
    have hempty := h.only id fun c hc hid => hnone ⟨c, hc, hid⟩
    rw [usedAmount_eq, hempty] at hu
    cases hu
  obtain ⟨c, hc, rfl⟩ := hpaid
  obtain ⟨a, ha, hsum⟩ := h.withdrawn c hc
  obtain ⟨entry, hentry, hle⟩ := h.spendable c hc
  rw [usedAmount_eq, ha] at hu
  obtain rfl := Option.some.inj hu
  exact ⟨ha, hsum, entry, hentry, hsum ▸ hle⟩

theorem Accounted.unused (h : Accounted P l ops r) {id : BalanceIdType}
    (hu : usedAmount id r.operations = none) :
    withdrawalsFrom id r.operations = [] ∧ ∀ c ∈ r.paid, c.balanceId P ≠ id := by
  rw [usedAmount_eq, List.head?_eq_none_iff] at hu
  refine ⟨hu, ?_⟩
  rintro c hc rfl
  obtain ⟨a, ha, -⟩ := h.withdrawn c hc
  rw [hu] at ha
  cases ha

/-- What a balance that was paid from has paid is its withdrawal. -/
theorem Accounted.withdrawals (h : Accounted P l ops r) (id : BalanceIdType) :
    withdrawalsFrom id r.operations = (usedAmount id r.operations).toList ∧
      ((usedAmount id r.operations).getD 0).toInt = paidFrom P id r.paid := by
  cases hu : usedAmount id r.operations with
  | none =>
    obtain ⟨hnone, hunpaid⟩ := h.unused hu
    exact ⟨hnone, (paidFrom_eq_zero hunpaid).symm⟩
  | some u =>
    obtain ⟨hsome, hsum, -⟩ := h.used hu
    exact ⟨hsome, hsum⟩

/-- A payout whose sum does not wrap keeps the accounts. -/
theorem Accounted.payout {c : ContractPayout} {entry : BalanceEntry} (h : Accounted P l ops r)
    (hentry : l.getBalance (c.balanceId P) = some entry)
    (hsum : (c.amount + (usedAmount (c.balanceId P) r.operations).getD 0).toInt =
      c.amount.toInt + ((usedAmount (c.balanceId P) r.operations).getD 0).toInt)
    (hle : c.amount + (usedAmount (c.balanceId P) r.operations).getD 0 ≤
      entry.getSpendableBalance.amount) :
    Accounted P l ops
      ⟨r.paid ++ [c], payoutOps P c.amount c.contract c.toAddress r.operations⟩ := by
  obtain ⟨hlist, hused⟩ := h.withdrawals (c.balanceId P)
  have hself : withdrawalsFrom (c.balanceId P) (payoutOps P c.amount c.contract c.toAddress r.operations) =
      [_] := withdrawalsFrom_payoutOps_self hlist
  have hpaid : paidFrom P (c.balanceId P) (r.paid ++ [c]) =
      (c.amount + (usedAmount (c.balanceId P) r.operations).getD 0).toInt := by
    rw [paidFrom_append, if_pos rfl, hsum, hused, add_comm]
  have hother : ∀ {id : BalanceIdType}, c.balanceId P ≠ id →
      withdrawalsFrom id (payoutOps P c.amount c.contract c.toAddress r.operations) =
        withdrawalsFrom id r.operations ∧
      paidFrom P id (r.paid ++ [c]) = paidFrom P id r.paid := by
    intro id hne
    refine ⟨withdrawalsFrom_payoutOps_ne hne, ?_⟩
    rw [paidFrom_append, if_neg hne, add_zero]
  constructor
  · intro c' hc'
    by_cases heq : c.balanceId P = c'.balanceId P
    · rw [← heq, hpaid]
      exact ⟨_, hself, rfl⟩
    · obtain ⟨hsame, hsame'⟩ := hother heq
      rw [hsame, hsame']
      rcases List.mem_append.1 hc' with hin | hnew
      · exact h.withdrawn c' hin
      · rw [List.mem_singleton.1 hnew] at heq
        exact absurd rfl heq
  · intro c' hc'
    by_cases heq : c.balanceId P = c'.balanceId P
    · rw [← heq, hpaid]
      exact ⟨entry, hentry, Int64.le_iff_toInt_le.1 hle⟩
    · rw [(hother heq).2]
      rcases List.mem_append.1 hc' with hin | hnew
      · exact h.spendable c' hin
      · rw [List.mem_singleton.1 hnew] at heq
        exact absurd rfl heq
  · intro id hid
    have hne : c.balanceId P ≠ id := hid c (by simp)
    rw [(hother hne).1]
    exact h.only id fun c' hc' => hid c' (List.mem_append_left _ hc')
  · rw [deposits_payoutOps, h.deposited, List.map_append, List.append_assoc]
    rfl
  · have htotal : paidTotal (r.paid ++ [c]) = paidTotal r.paid + c.amount.toInt := by
      simp [paidTotal]
    have hops : withdrawTotal (payoutOps P c.amount c.contract c.toAddress r.operations) = _ :=
      withdrawTotal_payoutOps
    change _ = _ + ((c.amount + (usedAmount (c.balanceId P) r.operations).getD 0).toInt - _) at hops
    rw [hops, htotal, h.total, hsum]
    change _ + (_ + ((usedAmount (c.balanceId P) r.operations).getD 0).toInt -
      ((usedAmount (c.balanceId P) r.operations).getD 0).toInt) = _
    omega

/-- Other API calls do not touch the accounts. -/
theorem Accounted.push {op : Operation} (h : Accounted P l ops r)
    (hwithdraw : ∀ id, op.withdrawalFrom id = none) (hwithdrawn : op.withdrawn = 0)
    (hdeposit : op.isDeposit = false) :
    Accounted P l ops { r with operations := r.operations ++ [op] } := by
  have hsame : ∀ id, withdrawalsFrom id (r.operations ++ [op]) =
      withdrawalsFrom id r.operations := by
    intro id
    simp [withdrawalsFrom, hwithdraw]
  refine ⟨?_, h.spendable, ?_, ?_, ?_⟩
  · intro c hc
    rw [hsame]
    exact h.withdrawn c hc
  · intro id hid
    rw [hsame]
    exact h.only id hid
  · rw [← h.deposited]
    simp [deposits, hdeposit]
  · rw [← h.total]
    simp [withdrawTotal, hwithdrawn]

/-- A sum that does not fit wraps to a negative one. -/
theorem toInt_add_wrapped {a b : ShareType} (h : ¬b.toInt + a.toInt < 2 ^ 63) :
    (a + b).toInt = a.toInt + b.toInt - 2 ^ 64 := by
  have ha := Checked.toInt_bounds a
  have hb := Checked.toInt_bounds b
  rw [Int64.toInt_add, Int.bmod_eq_emod]
  push_cast
  split_ifs <;> omega

/-- A positive amount is paid out if it is one of the base asset and the sum compared, which may
have wrapped, is one the balance can spend. -/
theorem step_transfer {contract : ContractIdType} {toAddress : Address} {symbol : Str}
    {amount : ShareType} (hpos : 0 < amount) :
    (∃ entry, l.IsBaseSymbol symbol ∧
      l.getBalance (P.getBalanceId contract .contract) = some entry ∧
      amount + (usedAmount (P.getBalanceId contract .contract) r.operations).getD 0 ≤
        entry.getSpendableBalance.amount ∧
      step P l r (.transfer contract toAddress symbol amount) =
        ⟨r.paid ++ [⟨contract, toAddress, amount⟩],
          payoutOps P amount contract toAddress r.operations⟩) ∨
    ((∀ entry, l.IsBaseSymbol symbol →
      l.getBalance (P.getBalanceId contract .contract) = some entry →
      ¬amount + (usedAmount (P.getBalanceId contract .contract) r.operations).getD 0 ≤
        entry.getSpendableBalance.amount) ∧
      step P l r (.transfer contract toAddress symbol amount) = r) := by
  simp only [step, transferAssetFromContractSteps_eq hpos]
  cases hpure : transferAssetFromContract P l amount symbol contract toAddress r.operations with
  | ok ops' =>
    obtain ⟨hbase, ⟨entry, hentry, hle⟩, rfl⟩ := (transferAssetFromContract_eq_ok hpos).1 hpure
    exact .inl ⟨entry, hbase, hentry, hle, rfl⟩
  | error e =>
    refine .inr ⟨fun entry hbase hentry hle => ?_, rfl⟩
    have hok : transferAssetFromContract P l amount symbol contract toAddress r.operations = .ok _ :=
      (transferAssetFromContract_eq_ok hpos).2 ⟨hbase, ⟨entry, hentry, hle⟩, rfl⟩
    rw [hpure] at hok
    cases hok

theorem Accounted.step_iff (h : Accounted P l ops r) (hpos : e.PaysPositive) :
    Accounted P l ops (step P l r e) ↔ Fits P l r e := by
  cases e with
  | transfer contract toAddress symbol amount =>
    obtain ⟨hlist, hused⟩ := h.withdrawals (P.getBalanceId contract .contract)
    obtain ⟨entry, hbase, hentry, hle, hstep⟩ | ⟨hrefused, hstep⟩ :=
      @step_transfer P l r contract toAddress symbol amount hpos
    · rw [hstep]
      constructor
      · intro hafter _ u hu
        obtain ⟨a, ha, hsum⟩ := hafter.withdrawn ⟨contract, toAddress, amount⟩ (by simp)
        rw [paidFrom_append, if_pos rfl] at hsum
        have hbound := Checked.toInt_bounds a
        rw [hu] at hused
        change _ = paidFrom P (ContractPayout.balanceId P ⟨contract, toAddress, amount⟩) r.paid
          at hused
        rw [Option.getD_some] at hused
        dsimp only at hsum
        omega
      · intro hfits
        refine h.payout (c := ⟨contract, toAddress, amount⟩) hentry ?_ hle
        change (amount + (usedAmount (P.getBalanceId contract .contract) r.operations).getD 0).toInt =
          amount.toInt +
            ((usedAmount (P.getBalanceId contract .contract) r.operations).getD 0).toInt
        cases hu : usedAmount (P.getBalanceId contract .contract) r.operations with
        | none => rw [Option.getD_none, add_zero, Int64.toInt_zero, add_zero]
        | some u =>
          have hsum := hfits hbase u hu
          have ha : 0 < amount.toInt := Int64.lt_iff_toInt_lt.1 hpos
          have hb := Checked.toInt_bounds u
          rw [Option.getD_some]
          apply Checked.toInt_add_of_bounds <;> omega
    · rw [hstep]
      refine ⟨fun _ hbase u hu => ?_, fun _ => h⟩
      by_contra hwrap
      obtain ⟨-, -, entry, hentry, hle⟩ := h.used hu
      refine hrefused entry hbase hentry ?_
      rw [hu, Option.getD_some, Int64.le_iff_toInt_le, toInt_add_wrapped hwrap]
      have ha := Checked.toInt_bounds amount
      omega
  | storage op => exact iff_of_true (h.push (fun _ => rfl) rfl rfl) trivial
  | event op => exact iff_of_true (h.push (fun _ => rfl) rfl rfl) trivial

end Step

theorem run_append {ops : List Operation} {es : List VmEffect} {e : VmEffect} :
    run P l ops (es ++ [e]) = step P l (run P l ops es) e := by
  rw [run, List.foldl_append]
  rfl

/-- The run is what the operation that runs the contract sees of its result. -/
theorem run_operations : ∀ (effects : List VmEffect) (s : OpState) (paid : List ContractPayout),
    (∀ e ∈ effects, e.PaysPositive) →
      (effects.foldl (step P s.ledger) ⟨paid, s.pResultTrx.operations⟩).operations =
        (effects.foldl (applyEffect P) s).pResultTrx.operations
  | [], _, _, _ => rfl
  | e :: effects, s, paid, h => by
    have hrest : ∀ e' ∈ effects, e'.PaysPositive := fun e' he' => h e' (List.mem_cons_of_mem _ he')
    rw [List.foldl_cons, List.foldl_cons]
    cases e with
    | transfer contract toAddress symbol amount =>
      have hpos : 0 < amount := h _ (List.mem_cons_self ..)
      simp only [step, applyEffect, transferAssetFromContractSteps_eq hpos]
      cases transferAssetFromContract P s.ledger amount symbol contract toAddress
          s.pResultTrx.operations with
      | ok ops =>
        exact run_operations effects
          { s with
            pResultTrx := { s.pResultTrx with operations := ops }
            contractBalanceRemain := s.contractBalanceRemain - amount } _ hrest
      | error err => exact run_operations effects s _ hrest
    | storage op =>
      exact run_operations effects { s with pResultTrx := s.pResultTrx.pushOp (.storage op) } _ hrest
    | event op =>
      exact run_operations effects { s with pResultTrx := s.pResultTrx.pushOp (.event op) } _ hrest

/-- Throughout a run of API calls that pay positive amounts, on a result that has withdrawn nothing
yet, the accounts are kept exactly if no sum that a payout compares wraps; and a payout that throws
leaves the operations as they were. -/
theorem payouts_accounted_iff (P : Primitives) (l : Ledger) (ops : List Operation)
    (hops : ∀ id, withdrawalsFrom id ops = []) (effects : List VmEffect)
    (hpos : ∀ e ∈ effects, e.PaysPositive) :
    ((∀ es, es <+: effects → Accounted P l ops (run P l ops es)) ↔
      ∀ es e, es ++ [e] <+: effects → Fits P l (run P l ops es) e) ∧
    ∀ (amount : ShareType) (symbol : Str) (contract : ContractIdType) (toAddress : Address)
      (ops₁ ops₂ : List Operation) (e : Exn), 0 < amount →
      transferAssetFromContractSteps P l amount symbol contract toAddress ops₁ = .error e ops₂ →
        ops₂ = ops₁ := by
  refine ⟨⟨fun haccounted es e hes => ?_, fun hfits es => ?_⟩, ?_⟩
  · have hbefore := haccounted es ((List.prefix_append _ _).trans hes)
    have hafter := haccounted _ hes
    rw [run_append] at hafter
    exact (hbefore.step_iff (hpos e (hes.subset (by simp)))).1 hafter
  · induction es using List.reverseRecOn with
    | nil => exact fun _ => accounted_start hops
    | append_singleton es e ih =>
      intro hes
      rw [run_append]
      exact ((ih ((List.prefix_append _ _).trans hes)).step_iff
        (hpos e (hes.subset (by simp)))).2 (hfits es e hes)
  · intro amount symbol contract toAddress ops₁ ops₂ e hamount h
    rw [transferAssetFromContractSteps_eq hamount] at h
    cases hpure : transferAssetFromContract P l amount symbol contract toAddress ops₁ with
    | ok ops' => rw [hpure] at h; cases h
    | error e' =>
      rw [hpure] at h
      exact (EStateM.Result.error.inj h).2.symm

/-- The chain of the examples below: contract 7 has a balance of 100. -/
def payoutView : LedgerView :=
  { LedgerView.empty with
    assetBySymbol := fun symbol =>
      if symbol = ['A', 'C', 'T'] then some { (default : AssetEntry) with id := 0 } else none
    balance := fun id =>
      if id = 22 then some ⟨⟨0, 0, .contract, .signature 7 none⟩, 100, 0, 0, none⟩ else none }

/-- A transfer from contract 7 to key 1. -/
def payOut (amount : ShareType) : VmEffect := .transfer 7 1 ['A', 'C', 'T'] amount

theorem payouts_accounted_twice :
    Accounted .plain (.ofView payoutView) [.transaction .empty]
      (run .plain (.ofView payoutView) [.transaction .empty] [payOut 30, payOut 50]) := by
  have hpos : ∀ e ∈ [payOut 30, payOut 50], e.PaysPositive := by
    intro e he
    rcases List.mem_pair.1 he with rfl | rfl
    · exact (by decide : (0 : Int64) < 30)
    · exact (by decide : (0 : Int64) < 50)
  refine (payouts_accounted_iff .plain (.ofView payoutView) [.transaction .empty] (fun _ => rfl)
    [payOut 30, payOut 50] hpos).1.2 ?_ _ (List.prefix_refl _)
  rintro (_ | ⟨e₁, es⟩) e hes
  · obtain ⟨rfl, -⟩ := List.cons_prefix_cons.1 hes
    intro _ u hu
    cases hu
  · obtain ⟨rfl, hrest⟩ := List.cons_prefix_cons.1 hes
    cases es with
    | cons e₂ es =>
      have hlen := (List.cons_prefix_cons.1 hrest).2.length_le
      simp at hlen
    | nil =>
      obtain ⟨rfl, -⟩ := List.cons_prefix_cons.1 hrest
      intro _ u hu
      have hused : usedAmount 22 (run .plain (.ofView payoutView) [.transaction .empty]
          [payOut 30]).operations = some 30 := by decide +kernel
      obtain rfl := Option.some.inj (hused.symm.trans hu)
      decide

/-- After a payout of 50 one of 2^63 - 1 is accepted, and the withdrawal of the two is negative. -/
theorem wrapped_payout_accepted :
    ¬∀ (l : Ledger) (effects : List VmEffect), (∀ e ∈ effects, e.PaysPositive) →
      Accounted .plain l [.transaction .empty] (run .plain l [.transaction .empty] effects) := by
  intro h
  have hpos : ∀ e ∈ [payOut 50, payOut 9223372036854775807], e.PaysPositive := by
    intro e he
    rcases List.mem_pair.1 he with rfl | rfl
    · exact (by decide : (0 : Int64) < 50)
    · exact (by decide : (0 : Int64) < 9223372036854775807)
  exact absurd (h (.ofView payoutView) _ hpos).total (by decide +kernel)

end PayoutRun

end Achain
