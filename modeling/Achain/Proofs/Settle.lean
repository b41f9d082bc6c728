import Achain.Proofs.Congruence

/-!
# The collection of fees

At the end of a transaction what is left of each tally goes to the collected fees of its asset. The
other fields of the assets stay as they are, and so do the assets without a positive tally.
-/

namespace Achain

open Table Result

variable {P : Primitives} {V : Vm} {l l' : Ledger}

/-- What a list of tallies adds to the fees of an asset: those that are positive. -/
def feeOf (a : AssetIdType) : List (AssetIdType × ShareType) → ShareType
  | [] => 0
  | item :: items => (if item.1 = a ∧ 0 < item.2 then item.2 else 0) + feeOf a items

def AssetEntry.addFees (e : AssetEntry) (x : ShareType) : AssetEntry :=
  { e with collectedFees := e.collectedFees + x }

theorem AssetEntry.addFees_zero (e : AssetEntry) : e.addFees 0 = e := by
  rw [addFees, add_zero]

theorem AssetEntry.addFees_addFees (e : AssetEntry) (x y : ShareType) :
    (e.addFees x).addFees y = e.addFees (x + y) := by
  simp only [addFees, add_assoc]

theorem collectFee_asset {item : AssetIdType × ShareType} (hl : l.WellKeyed P)
    (h : EvalState.collectFee l item = .ok l') (a : AssetIdType) :
    l'.getAsset a =
      (l.getAsset a).map (·.addFees (if item.1 = a ∧ 0 < item.2 then item.2 else 0)) := by
  have hzero : ∀ o : Option AssetEntry, o.map (·.addFees 0) = o := by
    intro o
    cases o with
    | none => rfl
    | some e => rw [Option.map_some, AssetEntry.addFees_zero]
  rcases EvalState.collectFee_ok h with ⟨hneg, rfl⟩ | ⟨hpos, e, he, rfl⟩
  · rw [if_neg fun h => hneg h.2, hzero]
  · rw [Ledger.getAsset_storeAsset]
    have hid : e.id = item.1 := hl.asset he
    by_cases ha : a = item.1
    · subst ha
      rw [if_pos hid.symm, if_pos ⟨rfl, hpos⟩, he]
      rfl
    · rw [if_neg fun h => ha (h.trans hid), if_neg fun h => ha h.1.symm, hzero]

/-- The assets after the tallies have been collected. -/
theorem collectFees_asset (a : AssetIdType) :
    ∀ (items : List (AssetIdType × ShareType)) {l l' : Ledger}, l.WellKeyed P →
      items.foldlM EvalState.collectFee l = .ok l' →
      l'.getAsset a = (l.getAsset a).map (·.addFees (feeOf a items))
  | [], l, l', _, h => by
    rw [List.foldlM_nil, pure_eq_ok] at h
    rw [← h]
    cases l.getAsset a with
    | none => rfl
    | some e => rw [Option.map_some, feeOf, AssetEntry.addFees_zero]
  | item :: items, l, l', hl, h => by
    rw [List.foldlM_cons, bind_eq_ok] at h
    obtain ⟨l₁, h₁, h₂⟩ := h
    have hl₁ : l₁.WellKeyed P := by
      rcases EvalState.collectFee_ok h₁ with ⟨-, rfl⟩ | ⟨-, e, -, rfl⟩
      · exact hl
      · exact hl.write (.asset _)
    rw [collectFees_asset a items hl₁ h₂, collectFee_asset hl h₁ a, Option.map_map]
    congr 1
    funext e
    exact AssetEntry.addFees_addFees e _ _

theorem feeOf_entries (a : AssetIdType) :
    ∀ (entries : List (Σ _ : AssetIdType, ShareType)), entries.NodupKeys →
      feeOf a (entries.map fun e => (e.1, e.2)) =
        let x := (entries.dlookup a).getD 0
        if 0 < x then x else 0
  | [], _ => rfl
  | ⟨b, x⟩ :: entries, h => by
    rw [List.nodupKeys_cons] at h
    rw [List.map_cons, feeOf, feeOf_entries a entries h.2]
    by_cases hb : b = a
    · subst hb
      rw [List.dlookup_cons_eq, List.dlookup_eq_none.2 h.1]
      simp
    · rw [List.dlookup_cons_ne _ _ (Ne.symm hb), if_neg fun h => hb h.1, zero_add]

/-- An asset that gets a fee exists. -/
theorem collectFees_isSome (a : AssetIdType) :
    ∀ (items : List (AssetIdType × ShareType)) {l l' : Ledger}, l.WellKeyed P →
      items.foldlM EvalState.collectFee l = .ok l' → feeOf a items ≠ 0 → (l.getAsset a).isSome
  | [], _, _, _, _, hfee => absurd rfl hfee
  | item :: items, l, l', hl, h, hfee => by
    rw [List.foldlM_cons, bind_eq_ok] at h
    obtain ⟨l₁, h₁, h₂⟩ := h
    rcases EvalState.collectFee_ok h₁ with ⟨hneg, rfl⟩ | ⟨-, e, he, rfl⟩
    · rw [feeOf, if_neg fun h => hneg h.2, zero_add] at hfee
      exact collectFees_isSome a items hl h₂ hfee
    · by_cases ha : item.1 = a
      · exact Option.isSome_of_eq_some (ha ▸ he)
      · rw [feeOf, if_neg fun h => ha h.1, zero_add] at hfee
        have hsome := collectFees_isSome a items (hl.write (.asset _)) h₂ hfee
        have hid : e.id = item.1 := hl.asset he
        rw [Ledger.getAsset_storeAsset, if_neg fun h => ha (h.trans hid).symm] at hsome
        exact hsome

/-- Each tally is collected once. -/
theorem feeOf_mapItems (a : AssetIdType) (m : Map AssetIdType ShareType) :
    feeOf a (mapItems m) = if 0 < amountAt m a then amountAt m a else 0 :=
  feeOf_entries a m.entries m.nodupKeys

theorem updateVotes_asset {item : AccountIdType × ShareType}
    (h : EvalState.updateVotes P l item = .ok l') :
    l'.asset = l.asset ∧ l'.balance = l.balance ∧ l'.prev = l.prev := by
  obtain ⟨a, stats, -, -, rfl⟩ := EvalState.updateVotes_ok h
  exact ⟨by simp, by simp, by simp⟩

/-- The assets after the end of a transaction whose fees are collected. -/
theorem settle_asset {t : SignedTransaction} {st st' : OpState} (hl : st.ledger.WellKeyed P)
    (ht : t.ignoresRequiredFee = false) (h : EvalState.settle P t st = .ok st')
    (a : AssetIdType) :
    st'.ledger.getAsset a =
      (st.ledger.getAsset a).map (·.addFees
        (if 0 < amountAt st.balance a then amountAt st.balance a else 0)) := by
  rcases EvalState.settle_ok h with ⟨htrue, -⟩ | ⟨-, l₁, l₂, -, h₁, h₂, rfl⟩
  · rw [ht] at htrue
    exact absurd htrue (by simp)
  · have hvotes : l₂.asset = l₁.asset ∧ l₂.balance = l₁.balance ∧ l₂.prev = l₁.prev := by
      refine foldlM_rel (R := fun l l' : Ledger => l'.asset = l.asset ∧ l'.balance = l.balance ∧
        l'.prev = l.prev) (fun _ => ⟨rfl, rfl, rfl⟩) ?_ (fun _ _ _ _ => updateVotes_asset) h₂
      exact fun _ _ _ h h' => ⟨h'.1.trans h.1, h'.2.1.trans h.2.1, h'.2.2.trans h.2.2⟩
    have hfees := collectFees_asset a _ hl h₁
    rw [feeOf_mapItems, amountAt_insert_self] at hfees
    show l₂.getAsset a = _
    rw [Ledger.getAsset, hvotes.1, hvotes.2.2]
    exact hfees

/-- An asset with a positive tally exists. -/
theorem settle_isSome {t : SignedTransaction} {st st' : OpState} (hl : st.ledger.WellKeyed P)
    (ht : t.ignoresRequiredFee = false) (h : EvalState.settle P t st = .ok st')
    {a : AssetIdType} (ha : 0 < amountAt st.balance a) : (st.ledger.getAsset a).isSome := by
  rcases EvalState.settle_ok h with ⟨htrue, -⟩ | ⟨-, l₁, l₂, -, h₁, -, -⟩
  · rw [ht] at htrue
    exact absurd htrue (by simp)
  · refine collectFees_isSome a _ hl h₁ ?_
    rw [feeOf_mapItems, amountAt_insert_self, if_pos ha]
    rintro hzero
    rw [hzero] at ha
    exact absurd ha (by decide)

end Achain
