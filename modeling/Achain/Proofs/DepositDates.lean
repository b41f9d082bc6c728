import Achain.Proofs.ContractSpecs
import Mathlib.Data.Int.ModEq
import Mathlib.Tactic.Linarith
import Mathlib.Tactic.Ring

/-!
# The dates of deposits

A deposit dates its balance with the mean of the date it had and the present, weighted by what was
there and what is added. The mean is taken in unsigned 128-bit numbers, of amounts that are signed.
Where neither amount is negative and their sum fits, it lies between the two dates, and is the
present one where nothing was there or where the old date is not before it by enough to round down
to. A balance that a withdrawal has left negative is pulled the other way: its date leaves the
interval.
-/

namespace Achain

open Table Result

variable {P : Primitives} {ctx : OpContext} {s s' : OpState}

/-! ## The average -/

section Average

variable {old now date : TimePointSec} {balance amount sum : ShareType}

/-- The numerator of the mean, in exact integers. -/
def weightedSum (old now : TimePointSec) (balance amount : ShareType) : ℤ :=
  old * balance.toInt + now * amount.toInt

theorem toUint128_cast (x : ShareType) : (toUint128 x : ℤ) = x.toInt % 2 ^ 128 := by
  rw [toUint128, Int.toNat_of_nonneg (Int.emod_nonneg _ (by decide))]

theorem toUint128_of_nonneg {x : ShareType} (h : 0 ≤ x.toInt) : (toUint128 x : ℤ) = x.toInt := by
  have hx := Checked.toInt_bounds x
  rw [toUint128_cast, Int.emod_eq_of_lt h (by omega)]

theorem toUint128_eq_zero {x : ShareType} : toUint128 x = 0 ↔ x = 0 := by
  have hx := Checked.toInt_bounds x
  rw [← Int.natCast_eq_zero, toUint128_cast, ← Int64.toInt_inj, Int64.toInt_zero]
  omega

/-- The numerator wraps around as the exact sum does. -/
theorem numerator_cast (old now : TimePointSec) (balance amount : ShareType) :
    (((old * toUint128 balance + now * toUint128 amount) % 2 ^ 128 : ℕ) : ℤ) =
      weightedSum old now balance amount % 2 ^ 128 := by
  have hterm : ∀ (t : ℕ) (x : ShareType),
      Int.ModEq (2 ^ 128) (t * (x.toInt % 2 ^ 128)) (t * x.toInt) := by
    intro t x
    exact (Int.mod_modEq _ _).mul_left _
  push_cast
  rw [toUint128_cast, toUint128_cast]
  exact (hterm old balance).add (hterm now amount)

/-- The divisor of a deposit that checks its sum is the one of those that do not. -/
theorem divisor_eq (h : sum.toInt = balance.toInt + amount.toInt) :
    (toUint128 balance + toUint128 amount) % 2 ^ 128 = toUint128 sum := by
  rw [← Int.natCast_inj]
  push_cast
  rw [toUint128_cast, toUint128_cast, toUint128_cast, h]
  exact (Int.add_emod _ _ _).symm

/-- A mean that is taken divides by a sum that is not zero, and fits 32 bits. -/
theorem averageDate_eq_ok (h : averageDate old now balance amount (toUint128 sum) = .ok date) :
    sum ≠ 0 ∧ date < 2 ^ 32 ∧
      (date : ℤ) = weightedSum old now balance amount % 2 ^ 128 / toUint128 sum := by
  simp only [averageDate, bind_eq_ok, ensure_eq_ok, pure_eq_ok, exists_const, decide_eq_true_eq,
    ne_eq, toUint128_eq_zero] at h
  obtain ⟨hsum, hlt, rfl⟩ := h
  refine ⟨hsum, hlt, ?_⟩
  rw [Int.natCast_ediv, numerator_cast]

theorem weighted_le {t : ℕ} (ht : t < 2 ^ 32) (x : ShareType) :
    (t : ℤ) * x.toInt ≤ 2 ^ 32 * 2 ^ 63 := by
  have hx := (Checked.toInt_bounds x).2
  rcases le_total 0 x.toInt with hpos | hneg
  · exact mul_le_mul (by omega) (by omega) hpos (by decide)
  · exact (mul_nonpos_of_nonneg_of_nonpos (by omega) hneg).trans (by decide)

/-- Over a positive sum, a numerator that is not negative gives the mean of the exact integers. -/
theorem averageDate_exact (hold : old < 2 ^ 32) (hnow : now < 2 ^ 32) (hsum : 0 < sum.toInt)
    (hlow : 0 ≤ weightedSum old now balance amount)
    (h : averageDate old now balance amount (toUint128 sum) = .ok date) :
    (date : ℤ) = weightedSum old now balance amount / sum.toInt := by
  obtain ⟨-, -, hdate⟩ := averageDate_eq_ok h
  have hhigh : weightedSum old now balance amount < 2 ^ 128 := by
    have hold' := weighted_le hold balance
    have hnow' := weighted_le hnow amount
    unfold weightedSum
    omega
  rw [hdate, Int.emod_eq_of_lt hlow hhigh, toUint128_of_nonneg hsum.le]

/-- The mean of exact integers, as the present and what the old date moves it by. -/
theorem mean_eq {o t b a : ℤ} (hsum : 0 < b + a) :
    (o * b + t * a) / (b + a) = t + (o - t) * b / (b + a) := by
  have hsplit : o * b + t * a = (o - t) * b + t * (b + a) := by ring
  rw [hsplit, Int.add_mul_ediv_right _ _ hsum.ne', add_comm]

/-- What the old date moves the mean by has its sign and at most its size. -/
theorem mean_move_bounds {d b a : ℤ} (hb : 0 ≤ b) (ha : 0 ≤ a) (hsum : 0 < b + a) :
    min d 0 ≤ d * b / (b + a) ∧ d * b / (b + a) ≤ max d 0 := by
  rcases le_total d 0 with hd | hd
  · rw [min_eq_left hd, max_eq_right hd]
    constructor
    · rw [Int.le_ediv_iff_mul_le hsum]
      nlinarith
    · exact Int.ediv_nonpos_of_nonpos_of_neg (by nlinarith) hsum
  · rw [min_eq_right hd, max_eq_left hd]
    constructor
    · exact Int.ediv_nonneg (by positivity) hsum.le
    · exact Int.ediv_le_of_le_mul hsum (by nlinarith)

theorem mean_move_eq_zero {d b a : ℤ} (hb : 0 < b) (hsum : 0 < b + a) :
    d * b / (b + a) = 0 ↔ 0 ≤ d ∧ d * b < b + a := by
  have hsign : 0 ≤ d * b ↔ 0 ≤ d := mul_nonneg_iff_of_pos_right hb
  rw [← hsign]
  constructor
  · intro h
    have hmod := Int.emod_add_mul_ediv (d * b) (b + a)
    rw [h, mul_zero, add_zero] at hmod
    rw [← hmod]
    exact ⟨Int.emod_nonneg _ hsum.ne', Int.emod_lt_of_pos _ hsum⟩
  · rintro ⟨h₁, h₂⟩
    exact Int.ediv_eq_zero_of_lt h₁ h₂

/-- A mean lies between what it is taken of, and is the second where the first is not below it by
enough to round down to. -/
theorem mean_between {o t d : ℕ} {b a : ℤ} (hb : 0 < b) (ha : 0 ≤ a)
    (h : (d : ℤ) = (o * b + t * a) / (b + a)) :
    min o t ≤ d ∧ d ≤ max o t ∧ (d = t ↔ t ≤ o ∧ ((o : ℤ) - t) * b < b + a) := by
  have hsum : 0 < b + a := by omega
  obtain ⟨hlow, hhigh⟩ := mean_move_bounds (d := (o : ℤ) - t) hb.le ha hsum
  have hzero := mean_move_eq_zero (d := (o : ℤ) - t) hb hsum
  rw [mean_eq hsum] at h
  generalize ((o : ℤ) - t) * b / (b + a) = move at h hlow hhigh hzero
  have hsign : 0 ≤ (o : ℤ) - t ↔ t ≤ o := by omega
  rw [← hsign, ← hzero]
  omega

end Average

/-- The date of a balance after a deposit lies between the one it had and the present, and is the
present one where nothing was there or the mean with a date not before the present rounds down to
it. -/
structure BalanceEntry.MeanDate (e : BalanceEntry) (now : TimePointSec) (amount : ShareType)
    (date : TimePointSec) : Prop where
  low : min e.depositDate now ≤ date
  high : date ≤ max e.depositDate now
  now_iff : date = now ↔ e.balance = 0 ∨ now ≤ e.depositDate ∧
    ((e.depositDate : ℤ) - now) * e.balance.toInt < e.balance.toInt + amount.toInt

section Dates

variable {e : BalanceEntry} {now date : TimePointSec} {amount : ShareType}

theorem BalanceEntry.dateAfter_divides
    (h : e.dateAfter now amount (toUint128 (e.balance + amount)) = .ok date)
    (hbalance : e.balance ≠ 0) : e.balance + amount ≠ 0 := by
  rw [dateAfter, if_neg hbalance] at h
  exact (averageDate_eq_ok h).1

theorem BalanceEntry.dateAfter_mean (hold : e.depositDate < 2 ^ 32) (hnow : now < 2 ^ 32)
    (hbalance : 0 ≤ e.balance) (hamount : 0 ≤ amount)
    (hsum : e.balance.toInt + amount.toInt < 2 ^ 63)
    (h : e.dateAfter now amount (toUint128 (e.balance + amount)) = .ok date) :
    e.MeanDate now amount date := by
  rw [Int64.le_iff_toInt_le, Int64.toInt_zero] at hbalance hamount
  rw [dateAfter] at h
  split_ifs at h with hzero
  · obtain rfl : now = date := by simpa using h
    exact ⟨min_le_right _ _, le_max_right _ _, by simp [hzero]⟩
  · have htoInt : (e.balance + amount).toInt = e.balance.toInt + amount.toInt := by
      apply Checked.toInt_add_of_bounds <;> omega
    have hb : 0 < e.balance.toInt := by
      have hne : e.balance.toInt ≠ 0 := fun hz => hzero (Int64.toInt_inj.1 hz)
      omega
    have hdate := averageDate_exact hold hnow (by omega) (by unfold weightedSum; positivity) h
    rw [htoInt] at hdate
    obtain ⟨hlow, hhigh, heq⟩ := mean_between hb hamount hdate
    exact ⟨hlow, hhigh, heq.trans (or_iff_right hzero).symm⟩

/-- A balance overdrawn since its last deposit is not dated before the present by one that makes it
positive again. -/
theorem BalanceEntry.dateAfter_overdrawn (hold : e.depositDate ≤ now) (hnow : now < 2 ^ 32)
    (hbalance : e.balance.toInt < 0) (hsum : 0 < e.balance.toInt + amount.toInt)
    (h : e.dateAfter now amount (toUint128 (e.balance + amount)) = .ok date) : now ≤ date := by
  have hb := Checked.toInt_bounds e.balance
  have ha := Checked.toInt_bounds amount
  have hne : e.balance ≠ 0 := by
    rintro hz
    rw [hz, Int64.toInt_zero] at hbalance
    omega
  have htoInt : (e.balance + amount).toInt = e.balance.toInt + amount.toInt := by
    apply Checked.toInt_add_of_bounds <;> omega
  have hsplit : weightedSum e.depositDate now e.balance amount =
      now * (e.balance.toInt + amount.toInt) +
        ((now : ℤ) - e.depositDate) * (-e.balance.toInt) := by
    unfold weightedSum
    ring
  have hpast : (0 : ℤ) ≤ ((now : ℤ) - e.depositDate) * (-e.balance.toInt) :=
    mul_nonneg (sub_nonneg.2 (Int.ofNat_le.2 hold)) (by omega)
  have hpresent : (now : ℤ) * (e.balance.toInt + amount.toInt) ≤
      weightedSum e.depositDate now e.balance amount := by
    rw [hsplit]
    exact le_add_of_nonneg_right hpast
  rw [dateAfter, if_neg hne] at h
  have hdate := averageDate_exact (hold.trans_lt hnow) hnow (by omega)
    ((mul_nonneg (Int.natCast_nonneg _) hsum.le).trans hpresent) h
  rw [htoInt] at hdate
  have hle := (Int.le_ediv_iff_mul_le hsum).2 hpresent
  rw [← hdate] at hle
  exact Int.ofNat_le.1 hle

end Dates

/-! ## The operations -/

/-- The dates of a ledger fit the 32 bits of a `time_point_sec`. -/
structure Ledger.DatesFit (l : Ledger) : Prop where
  now : l.prev.now < 2 ^ 32
  balance : ∀ id e, l.getBalance id = some e → e.depositDate < 2 ^ 32

theorem Ledger.DatesFit.depositEntry {l : Ledger} (h : l.DatesFit) (c : WithdrawCondition)
    {fresh : BalanceEntry} (hfresh : fresh.depositDate = 0) :
    (depositEntry P l c fresh).depositDate < 2 ^ 32 := by
  unfold Achain.depositEntry
  cases hget : l.getBalance (P.conditionAddress c) with
  | none => exact hfresh ▸ (by decide : 0 < 2 ^ 32)
  | some e => exact h.balance _ e hget

theorem Ledger.DatesFit.emptied {l : Ledger} (h : l.DatesFit) {id : BalanceIdType}
    {b : BalanceEntry} (hb : l.getBalance id = some b) :
    (l.storeBalance P { b with balance := 0 }).DatesFit where
  now := h.now
  balance id' e he := by
    rw [Ledger.getBalance_storeBalance] at he
    split_ifs at he
    · obtain rfl := Option.some.inj he
      exact h.balance id b hb
    · exact h.balance id' e he

/-- The date a deposit of an amount gives a balance: no zero was divided by, and it is the mean date
unless an amount was negative or their sum did not fit. -/
structure BalanceEntry.Dated (e : BalanceEntry) (now : TimePointSec) (amount : ShareType)
    (date : TimePointSec) : Prop where
  divides : e.balance ≠ 0 → e.balance + amount ≠ 0
  mean : 0 ≤ e.balance → 0 ≤ amount → e.balance.toInt + amount.toInt < 2 ^ 63 →
    e.MeanDate now amount date

theorem BalanceEntry.dated {e : BalanceEntry} {now date : TimePointSec} {amount : ShareType}
    (hold : e.depositDate < 2 ^ 32) (hnow : now < 2 ^ 32)
    (h : e.dateAfter now amount (toUint128 (e.balance + amount)) = .ok date) :
    e.Dated now amount date where
  divides := e.dateAfter_divides h
  mean hbalance hamount hsum := e.dateAfter_mean hold hnow hbalance hamount hsum h

theorem DepositOperation.dated {op : DepositOperation} (hfit : s.ledger.DatesFit)
    (h : op.evaluate P s = .ok s') :
    ∃ e date, e = depositEntry P s.ledger op.condition (.ofCondition op.condition) ∧
      s'.ledger = s.ledger.storeBalance P (e.credited op.amount date s.ledger.prev.now) ∧
      0 < op.amount ∧ e.balance.toInt + op.amount.toInt < 2 ^ 63 ∧
      e.Dated s.ledger.prev.now op.amount date := by
  obtain ⟨e, date, he, hpos, -, hledger, -, hdate, hadd, -⟩ := evaluate_ok h
  have hsum : (e.balance + op.amount).toInt = e.balance.toInt + op.amount.toInt :=
    toInt_safeAdd hadd
  have hb := Checked.toInt_bounds (e.balance + op.amount)
  have hold : e.depositDate < 2 ^ 32 := he ▸ hfit.depositEntry op.condition rfl
  rw [divisor_eq hsum] at hdate
  exact ⟨e, date, he, hledger, hpos, by omega, e.dated hold hfit.now hdate⟩

theorem DepositContractOperation.dated {op : DepositContractOperation} (hfit : s.ledger.DatesFit)
    (h : op.evaluate P ctx s = .ok s') :
    ∃ e date, e = depositEntry P s.ledger op.condition (op.fresh P ctx.trx) ∧
      s'.ledger = s.ledger.storeBalance P (e.credited op.amount date s.ledger.prev.now) ∧
      0 < op.amount ∧ e.Dated s.ledger.prev.now op.amount date := by
  obtain ⟨e, date, he, -, hpos, -, hledger, -, hdate, -⟩ := evaluate_ok h
  have hfresh : (op.fresh P ctx.trx).depositDate = 0 := by
    unfold fresh
    split <;> rfl
  have hold : e.depositDate < 2 ^ 32 := he ▸ hfit.depositEntry op.condition hfresh
  exact ⟨e, date, he, hledger, hpos, e.dated hold hfit.now hdate⟩

/-- The balance the shares of a destroyed contract go to, once the contract's own is emptied. -/
def destroyerEntry (P : Primitives) (l : Ledger) (owner : PublicKeyType) (b : BalanceEntry) :
    BalanceEntry :=
  let c := contractCondition (P.address owner) .common
  depositEntry P (l.storeBalance P { b with balance := 0 }) c (.ofCondition c)

theorem OnDestroyOperation.dated {op : OnDestroyOperation} {entry : ContractEntry}
    {b : BalanceEntry} (hfit : s.ledger.DatesFit) (h : op.evaluate P ctx s = .ok s')
    (hentry : s.ledger.getContract op.id = some entry)
    (hb : s.ledger.getBalance (P.getBalanceId entry.id .contract) = some b) :
    ∃ e date, e = destroyerEntry P s.ledger entry.owner b ∧
      s'.ledger = ((s.ledger.storeBalance P { b with balance := 0 }).storeBalance P
        (e.credited op.amount.amount date s.ledger.prev.now)).storeContract
          { entry with state := .deleted } ∧
      e.Dated s.ledger.prev.now op.amount.amount date := by
  obtain ⟨-, entry', s₁, hentry', hmove, rfl⟩ := evaluate_ok h
  obtain rfl := Option.some.inj (hentry.symm.trans hentry')
  obtain ⟨hnone, -⟩ | ⟨b', e, date, l₁, hb', -, hamount, rfl, he, -, hledger, -, hdate, -⟩ :=
    move_ok hmove
  · rw [hb] at hnone
    cases hnone
  · obtain rfl := Option.some.inj (hb.symm.trans hb')
    rw [hamount] at hledger hdate
    have hold : e.depositDate < 2 ^ 32 := he ▸ (hfit.emptied hb).depositEntry _ rfl
    exact ⟨e, date, he, by rw [← hledger], e.dated hold hfit.now hdate⟩

/-- Every deposit that is accepted divides by no zero, and dates its balance with the mean of the
date it had and the present, unless an amount it averages over is negative or their sum does not
fit, which the deposits of a result and the destruction of a contract do not check. -/
theorem deposit_dates_mean (P : Primitives) (ctx : OpContext) (s s' : OpState)
    (hfit : s.ledger.DatesFit) :
    (∀ op : DepositOperation, op.evaluate P s = .ok s' →
      ∃ e date, e = depositEntry P s.ledger op.condition (.ofCondition op.condition) ∧
        s'.ledger = s.ledger.storeBalance P (e.credited op.amount date s.ledger.prev.now) ∧
        0 < op.amount ∧ e.balance.toInt + op.amount.toInt < 2 ^ 63 ∧
        e.Dated s.ledger.prev.now op.amount date) ∧
    (∀ op : DepositContractOperation, op.evaluate P ctx s = .ok s' →
      ∃ e date, e = depositEntry P s.ledger op.condition (op.fresh P ctx.trx) ∧
        s'.ledger = s.ledger.storeBalance P (e.credited op.amount date s.ledger.prev.now) ∧
        0 < op.amount ∧ e.Dated s.ledger.prev.now op.amount date) ∧
    (∀ (op : OnDestroyOperation) (entry : ContractEntry) (b : BalanceEntry),
      op.evaluate P ctx s = .ok s' → s.ledger.getContract op.id = some entry →
      s.ledger.getBalance (P.getBalanceId entry.id .contract) = some b →
        ∃ e date, e = destroyerEntry P s.ledger entry.owner b ∧
          s'.ledger = ((s.ledger.storeBalance P { b with balance := 0 }).storeBalance P
            (e.credited op.amount.amount date s.ledger.prev.now)).storeContract
              { entry with state := .deleted } ∧
          e.Dated s.ledger.prev.now op.amount.amount date) :=
  ⟨fun _ h => DepositOperation.dated hfit h, fun _ h => DepositContractOperation.dated hfit h,
    fun _ _ _ h hentry hb => OnDestroyOperation.dated hfit h hentry hb⟩

/-- The chain of the examples below, at time 50: key 1 has a balance dated 40 and key 2 one dated
50. -/
def datedView : LedgerView :=
  { LedgerView.empty with
    assetById := fun id => if id = 0 then some { (default : AssetEntry) with id := 0 } else none
    balance := fun id =>
      if id = 3 then some ⟨⟨0, 0, .common, .signature 1 none⟩, 300, 40, 40, none⟩
      else if id = 6 then some ⟨⟨0, 0, .common, .signature 2 none⟩, 300, 50, 50, none⟩
      else none
    now := 50 }

theorem datedView_datesFit : (Ledger.ofView datedView).DatesFit where
  now := by decide
  balance k e he := by
    change (if k = 3 then some _ else if k = 6 then some _ else none) = some e at he
    split_ifs at he <;> obtain rfl := Option.some.inj he <;> decide

/-- A deposit of 100 to a key. -/
def depositTo100 (key : PublicKeyType) : DepositOperation :=
  ⟨100, ⟨0, 0, .common, .signature key none⟩⟩

theorem deposit_dates_mean_at_deposit :
    ∃ s' date, ∃ e : BalanceEntry,
      (depositTo100 1).evaluate .plain (.init (.ofView datedView)) = .ok s' ∧
      s'.ledger = (Ledger.ofView datedView).storeBalance .plain (e.credited 100 date 50) ∧
      e.balance = 300 ∧ e.depositDate = 40 ∧ e.MeanDate 50 100 date := by
  have hrun : returns ((depositTo100 1).evaluate .plain (.init (.ofView datedView)))
      (fun _ => true) = true := by decide +kernel
  obtain ⟨s', hs', -⟩ := exists_of_returns hrun
  obtain ⟨e, date, rfl, hledger, -, -, hdated⟩ :=
    (deposit_dates_mean .plain (EvalState.init (.ofView datedView) true false).ctx
      (.init (.ofView datedView)) s' datedView_datesFit).1 (depositTo100 1) hs'
  exact ⟨s', date, _, hs', hledger, rfl, rfl, hdated.mean (by decide +kernel) (by decide +kernel)
    (by decide +kernel)⟩

/-- A second deposit of one moment dates the balance with the present though there is something in
it. -/
theorem second_deposit_dated_now :
    ∃ s' e e', (depositTo100 2).evaluate .plain (.init (.ofView datedView)) = .ok s' ∧
      (Ledger.ofView datedView).getBalance 6 = some e ∧ s'.ledger.getBalance 6 = some e' ∧
      ¬(e'.depositDate = datedView.now ↔ e.balance = 0) := by
  have hrun : returns ((depositTo100 2).evaluate .plain (.init (.ofView datedView)))
      (fun s' => (s'.ledger.getBalance 6).any fun e' => e'.depositDate == 50) = true := by
    decide +kernel
  obtain ⟨s', hs', hafter⟩ := exists_of_returns hrun
  obtain ⟨e', he', hdate⟩ := (Option.any_eq_true _ _).1 hafter
  refine ⟨s', _, e', hs', rfl, he', ?_⟩
  intro hiff
  exact absurd (hiff.1 (beq_iff_eq.1 hdate)) (by decide)

end Achain
