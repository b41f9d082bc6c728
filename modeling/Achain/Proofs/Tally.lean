import Achain.EvaluationState
import Mathlib.Tactic.Abel

/-!
# The tally of a transaction

`sub_balance` and `add_balance` are the only writers of the tally: what was withdrawn, what was
deposited, what is left of the difference, and under the current operation index the difference
again. Their arithmetic is checked, so that what they record is exact.
-/

namespace Achain

open Table Result

variable {s s' s'' : OpState}

/-! ## Amounts by asset -/

/-- The tally with an amount added to one asset. -/
def tallyAdd (m : Map AssetIdType ShareType) (a : AssetIdType) (x : ShareType) :
    Map AssetIdType ShareType :=
  m.insert a (amountAt m a + x)

theorem amountAt_insert {m : Map AssetIdType ShareType} {a b : AssetIdType} {x : ShareType} :
    amountAt (m.insert a x) b = if b = a then x else amountAt m b := by
  unfold amountAt
  by_cases h : b = a
  · subst h
    simp
  · simp [AList.lookup_insert_ne h, h]

theorem amountAt_insert_self {m : Map AssetIdType ShareType} {a b : AssetIdType} :
    amountAt (m.insert a (amountAt m a)) b = amountAt m b := by
  rw [amountAt_insert]
  split_ifs with h
  · rw [h]
  · rfl

theorem amountAt_tallyAdd {m : Map AssetIdType ShareType} {a b : AssetIdType} {x : ShareType} :
    amountAt (tallyAdd m a x) b = amountAt m b + if b = a then x else 0 := by
  rw [tallyAdd, amountAt_insert]
  split_ifs with h
  · rw [h]
  · rw [add_zero]

theorem safeAdd_eq_ok {a b c : ShareType} (h : safeAdd a b = .ok c) : c = a + b := by
  unfold safeAdd at h
  cases hc : Checked.add? a b with
  | none => rw [hc] at h; simp at h
  | some x =>
    rw [hc] at h
    simp only [Except.ok.injEq] at h
    exact h ▸ Checked.add?_eq hc

theorem safeSub_eq_ok {a b c : ShareType} (h : safeSub a b = .ok c) : c = a - b := by
  unfold safeSub at h
  cases hc : Checked.sub? a b with
  | none => rw [hc] at h; simp at h
  | some x =>
    rw [hc] at h
    simp only [Except.ok.injEq] at h
    exact h ▸ Checked.sub?_eq hc

theorem toInt_safeAdd {a b c : ShareType} (h : safeAdd a b = .ok c) :
    c.toInt = a.toInt + b.toInt := by
  unfold safeAdd at h
  split at h
  · rename_i x hx
    rw [ok_eq_ok] at h
    exact h ▸ Checked.add?_toInt hx
  · cases h

theorem toInt_safeSub {a b c : ShareType} (h : safeSub a b = .ok c) :
    c.toInt = a.toInt - b.toInt := by
  unfold safeSub at h
  split at h
  · rename_i x hx
    rw [ok_eq_ok] at h
    exact h ▸ Checked.sub?_toInt hx
  · cases h

namespace OpState

theorem addBalance_eq_ok {a : Asset} (h : s.addBalance a = .ok s') :
    ∃ w d, s' = { s with
      balance := tallyAdd s.balance a.assetId a.amount
      withdraws := w
      deltas := d } := by
  simp only [addBalance, bind_eq_ok, pure_eq_ok] at h
  obtain ⟨b, hb, w, -, x, -, rfl⟩ := h
  rw [safeAdd_eq_ok hb]
  exact ⟨_, _, rfl⟩

theorem subBalance_eq_ok {a : Asset} (h : s.subBalance a = .ok s') :
    ∃ w d, s' = { s with
      balance := tallyAdd s.balance a.assetId (-a.amount)
      deposits := w
      deltas := d } := by
  simp only [subBalance, bind_eq_ok, pure_eq_ok] at h
  obtain ⟨b, hb, w, -, x, -, rfl⟩ := h
  rw [safeSub_eq_ok hb, sub_eq_add_neg]
  exact ⟨_, _, rfl⟩

end OpState

/-! ## What a step records -/

/-- Nothing of the tally has changed. -/
structure SameTally (s s' : OpState) : Prop where
  balance : s'.balance = s.balance
  withdraws : s'.withdraws = s.withdraws
  deposits : s'.deposits = s.deposits
  deltas : s'.deltas = s.deltas
  currentOpIndex : s'.currentOpIndex = s.currentOpIndex

/-- What is moved of each asset into deposits, less what is withdrawn. -/
abbrev Movement := AssetIdType → ℤ

/-- The movement of one amount. -/
def Asset.movement (x : Asset) : Movement := fun a => if a = x.assetId then x.amount.toInt else 0

namespace OpState

/-- `balance[a]`. -/
def balanceOf (s : OpState) (a : AssetIdType) : ℤ := (amountAt s.balance a).toInt

/-- `withdraws[a] - deposits[a]`. -/
def withdrawnOf (s : OpState) (a : AssetIdType) : ℤ :=
  (amountAt s.withdraws a).toInt - (amountAt s.deposits a).toInt

/-- `deltas[i][a]`. -/
def deltaOf (s : OpState) (i : Nat) (a : AssetIdType) : ℤ :=
  (amountAt ((s.deltas.lookup i).getD ∅) a).toInt

/-- The sum of `deltas[i][a]` over the operation indexes. -/
def deltaSum (s : OpState) (a : AssetIdType) : ℤ :=
  total (fun m => (amountAt m a).toInt) s.deltas.toFinmap

end OpState

/-- A movement is recorded: the balance and the difference of withdrawals and deposits fall by it,
and it is added under the current operation index and nowhere else. -/
structure Recorded (m : Movement) (s s' : OpState) : Prop where
  balance : ∀ a, s'.balanceOf a = s.balanceOf a - m a
  withdrawn : ∀ a, s'.withdrawnOf a = s.withdrawnOf a - m a
  delta : ∀ i a, s'.deltaOf i a = s.deltaOf i a + if i = s.currentOpIndex then m a else 0
  sum : ∀ a, s'.deltaSum a = s.deltaSum a + m a
  index : s'.currentOpIndex = s.currentOpIndex

theorem SameTally.recorded (h : SameTally s s') : Recorded 0 s s' where
  balance a := by
    rw [OpState.balanceOf, h.balance]
    exact (sub_zero _).symm
  withdrawn a := by
    rw [OpState.withdrawnOf, h.withdraws, h.deposits]
    exact (sub_zero _).symm
  delta i a := by
    rw [OpState.deltaOf, h.deltas, Pi.zero_apply, ite_self, add_zero]
    rfl
  sum a := by
    rw [OpState.deltaSum, h.deltas]
    exact (add_zero _).symm
  index := h.currentOpIndex

theorem Recorded.trans {m m' : Movement} (h : Recorded m s s') (h' : Recorded m' s' s'') :
    Recorded (m + m') s s'' where
  balance a := by
    rw [h'.balance, h.balance, Pi.add_apply]
    abel
  withdrawn a := by
    rw [h'.withdrawn, h.withdrawn, Pi.add_apply]
    abel
  delta i a := by
    rw [h'.delta, h.delta, h.index]
    split_ifs
    · rw [Pi.add_apply]
      abel
    · rw [add_zero]
  sum a := by
    rw [h'.sum, h.sum, Pi.add_apply]
    abel
  index := h'.index.trans h.index

theorem Recorded.same_left {m : Movement} (h' : Recorded m s' s'') (h : SameTally s s') :
    Recorded m s s'' :=
  zero_add m ▸ h.recorded.trans h'

theorem Recorded.same_right {m : Movement} (h : Recorded m s s') (h' : SameTally s' s'') :
    Recorded m s s'' :=
  add_zero m ▸ h.trans h'.recorded

section Writers

variable {x : Asset}

theorem toInt_amountAt_insert {m : Map AssetIdType ShareType} {a b : AssetIdType} {y : ShareType}
    {d : ℤ} (hy : y.toInt = (amountAt m a).toInt + d) :
    (amountAt (m.insert a y) b).toInt = (amountAt m b).toInt + if b = a then d else 0 := by
  rw [amountAt_insert]
  split_ifs with h
  · rw [h, hy]
  · rw [add_zero]

/-- What the tally is after an amount is written under the current index. -/
theorem Recorded.of_write {d : ℤ} {a : AssetIdType} {b w p y : ShareType}
    (hb : b.toInt = (amountAt s.balance a).toInt - d)
    (hw : w.toInt - p.toInt = s.withdrawnOf a - d)
    (hy : y.toInt = s.deltaOf s.currentOpIndex a + d)
    (hbalance : s'.balance = s.balance.insert a b)
    (hwithdraws : ∀ c, amountAt s'.withdraws c = if c = a then w else amountAt s.withdraws c)
    (hdeposits : ∀ c, amountAt s'.deposits c = if c = a then p else amountAt s.deposits c)
    (hdeltas : s'.deltas = s.deltas.insert s.currentOpIndex
      (((s.deltas.lookup s.currentOpIndex).getD ∅).insert a y))
    (hindex : s'.currentOpIndex = s.currentOpIndex) :
    Recorded (fun c => if c = a then d else 0) s s' where
  balance c := by
    rw [OpState.balanceOf, hbalance, toInt_amountAt_insert (d := -d) (by omega)]
    split_ifs <;> simp [OpState.balanceOf, sub_eq_add_neg]
  withdrawn c := by
    rw [OpState.withdrawnOf, hwithdraws, hdeposits]
    split_ifs with h
    · rw [hw, h]
    · exact (sub_zero _).symm
  delta i c := by
    rw [OpState.deltaOf, hdeltas]
    by_cases h : i = s.currentOpIndex
    · subst h
      rw [AList.lookup_insert, Option.getD_some, if_pos rfl]
      exact toInt_amountAt_insert hy
    · rw [AList.lookup_insert_ne h, if_neg h, add_zero]
      rfl
  sum c := by
    rw [OpState.deltaSum, hdeltas, ← Finmap.insert_toFinmap, total_insert, Finmap.lookup_toFinmap]
    have hval : val (fun m => (amountAt m c).toInt) (s.deltas.lookup s.currentOpIndex) =
        s.deltaOf s.currentOpIndex c := by
      unfold OpState.deltaOf
      cases s.deltas.lookup s.currentOpIndex <;> rfl
    rw [hval, toInt_amountAt_insert hy]
    unfold OpState.deltaSum OpState.deltaOf
    abel
  index := hindex

theorem OpState.subBalance_recorded (h : s.subBalance x = .ok s') :
    Recorded x.movement s s' := by
  simp only [subBalance, bind_eq_ok, pure_eq_ok] at h
  obtain ⟨b, hb, p, hp, y, hy, rfl⟩ := h
  refine .of_write (toInt_safeSub hb) (w := amountAt s.withdraws x.assetId) (p := p) ?_
    (toInt_safeAdd hy) rfl ?_ (fun c => amountAt_insert) rfl rfl
  · rw [toInt_safeAdd hp, withdrawnOf]
    abel
  · intro c
    split_ifs with hc
    · rw [hc]
    · rfl

theorem OpState.addBalance_recorded (h : s.addBalance x = .ok s') :
    Recorded (-x.movement) s s' := by
  simp only [addBalance, bind_eq_ok, pure_eq_ok] at h
  obtain ⟨b, hb, w, hw, y, hy, rfl⟩ := h
  have hneg : -x.movement = fun a => if a = x.assetId then -x.amount.toInt else 0 := by
    funext a
    rw [Pi.neg_apply, Asset.movement]
    split_ifs
    · rfl
    · exact neg_zero
  rw [hneg]
  refine .of_write ?_ (w := w) (p := amountAt s.deposits x.assetId) ?_ ?_ rfl
    (fun c => amountAt_insert) ?_ rfl rfl
  · rw [toInt_safeAdd hb]
    abel
  · rw [toInt_safeAdd hw, withdrawnOf]
    abel
  · rw [toInt_safeSub hy, sub_eq_add_neg]
    rfl
  · intro c
    split_ifs with hc
    · rw [hc]
    · rfl

end Writers

end Achain
