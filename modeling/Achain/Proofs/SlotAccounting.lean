import Achain.Proofs.Production
import Achain.Proofs.Rewinding
import Achain.Proofs.Supply
import Mathlib.Algebra.BigOperators.Ring.Finset
import Mathlib.Order.Interval.Finset.Nat

/-!
# The accounting of slots

Each slot from one head to the next is produced or missed by the delegate whose turn it is: the
producer's count goes up by one and, for each slot skipped, that of its delegate. So the counts of
all delegates go up by the number of slots from the head to the block, if the block is later than
the head. That is not checked of a block numbered `0` or `1`, which may follow any head.
-/

namespace Achain

open Table Result Stateful Levels Rewind

variable {P : Primitives} {N : Node} {db db' db₀ s s' : ChainDatabase} {clock : TimePointSec}
  {b b' : FullBlock} {l l' l₁ : Ledger} {signee : PublicKeyType} {p : PendingChainState}
  {delegates ids : List AccountIdType} {t : TimePointSec} {c c' : ChainTables}

/-- The delegate whose turn a time is. -/
def scheduledAt (delegates : List AccountIdType) (t : TimePointSec) : Option AccountIdType :=
  delegates[slotNumber t % numDelegates]?

/-! ## What a block adds to the counts -/

theorem SameProduction.slotIf (h : SameProduction l l₁) (on : Bool) (e : SlotEntry) :
    SameProduction l (if on then l₁.storeSlot e else l₁) := by
  split_ifs
  · exact h.trans (.of_same ⟨by simp, by simp, by simp⟩)
  · exact h

theorem ChainDatabase.slotSignee_ok {r : AccountEntry × DelegateStats}
    (h : db.slotSignee t delegates = .ok r) (hdb : db.tables.WellKeyed P) :
    scheduledAt delegates t = some r.1.id := by
  simp only [slotSignee, bind_eq_ok, orThrow_eq_ok, pure_eq_ok] at h
  obtain ⟨id, hid, e, he, stats, -, rfl⟩ := h
  rw [scheduledAt, hid, hdb.account he]

theorem missSlot_counts (h : missSlot N db delegates l t = .ok l') (hdb : db.tables.WellKeyed N.P)
    (hl : l.WellKeyed N.P) :
    ∃ id, scheduledAt delegates t = some id ∧
      ∀ k, l'.production k = l.production k + if k = id then (0, 1) else 0 := by
  simp only [missSlot, bind_eq_ok, pure_eq_ok, Prod.exists] at h
  obtain ⟨signee, _, hsignee, e, stats, hdelegate, rfl⟩ := h
  obtain ⟨he, hstats⟩ := Ledger.delegate_ok hdelegate
  have hid : e.id = signee.id := hl.account he
  have hread : l.production signee.id = ((stats.blocksProduced : ℤ), (stats.blocksMissed : ℤ)) := by
    rw [Ledger.production, he, val_some, AccountEntry.production_some hstats]
  refine ⟨signee.id, ChainDatabase.slotSignee_ok hsignee hdb, fun k => ?_⟩
  rw [((SameProduction.refl _).slotIf _ _).production, Ledger.production_storeAccount]
  dsimp only
  rw [hid]
  split_ifs with hk
  · rw [hk, hread, AccountEntry.production_some rfl]
    simp
  · rw [add_zero]

/-- Each slot missed counts for the delegate whose turn it was. -/
theorem missSlots_counts (hdb : db.tables.WellKeyed N.P) : ∀ {missed : List TimePointSec}
    {l l' : Ledger}, missed.foldlM (missSlot N db delegates) l = .ok l' → l.InOrder N.P →
      ∃ ids : List AccountIdType, missed.map (scheduledAt delegates) = ids.map some ∧
        ∀ k, l'.production k = l.production k + (0, (ids.count k : ℤ))
  | [], l, l', h, _ => by
    obtain rfl := pure_eq_ok.1 h
    exact ⟨[], rfl, fun k => (add_zero _).symm⟩
  | t :: missed, l, l', h, hl => by
    rw [List.foldlM_cons, bind_eq_ok] at h
    obtain ⟨l₁, h₁, h₂⟩ := h
    obtain ⟨id, hid, hcount⟩ := missSlot_counts h₁ hdb hl.keyed
    obtain ⟨ids, hids, hcounts⟩ := missSlots_counts hdb h₂ (missSlot_conserves h₁ hl).1
    refine ⟨id :: ids, by rw [List.map_cons, List.map_cons, hid, hids], fun k => ?_⟩
    rw [hcounts, hcount, List.count_cons, add_assoc]
    congr 1
    by_cases hk : k = id
    · rw [if_pos hk, if_pos (beq_iff_eq.2 hk.symm)]
      simp [add_comm]
    · rw [if_neg hk, if_neg (fun heq => hk (beq_iff_eq.1 heq).symm), zero_add]
      simp

/-- What a block adds to the counts, and the confirmations it asks for. -/
structure Counted (N : Node) (db : ChainDatabase) (b : FullBlock) (signee : PublicKeyType)
    (l l' : Ledger) : Prop where
  counts : ∃ (delegate : AccountEntry) (delegates ids : List AccountIdType),
    db.delegateForSignee N.P signee = .ok delegate ∧ db.activeDelegates = .ok delegates ∧
    (missedSlots db b).map (scheduledAt delegates) = ids.map some ∧
    ∀ k, l'.production k =
      l.production k + ((if k = delegate.id then 1 else 0 : ℤ), (ids.count k : ℤ))
  confirmations : l'.getProperty .confirmationRequirement =
    some (.number (nextConfirmations db.requiredConfirmations (missedSlots db b).length))

theorem Counted.same (h : Counted N db b signee l l₁) (hsame : SameProduction l₁ l') :
    Counted N db b signee l l' := by
  obtain ⟨⟨delegate, delegates, ids, hdelegate, hdelegates, hids, hcounts⟩, hconfirmations⟩ := h
  refine ⟨⟨delegate, delegates, ids, hdelegate, hdelegates, hids, fun k => ?_⟩, ?_⟩
  · rw [hsame.production, hcounts]
  · rw [hsame.confirmations, hconfirmations]

theorem updateDelegateProductionInfo_counts
    (h : updateDelegateProductionInfo N db b signee l = .ok l') (hdb : db.tables.WellKeyed N.P)
    (hl : l.InOrder N.P) : Counted N db b signee l l' := by
  simp only [updateDelegateProductionInfo, bind_eq_ok, ensure_eq_ok, pure_eq_ok, exists_const,
    Prod.exists] at h
  obtain ⟨delegate, hsignee, e, stats, hdelegate, -, delegates, hdelegates, l₁, hmissed, rfl⟩ := h
  obtain ⟨he, hstats⟩ := Ledger.delegate_ok hdelegate
  have hid : e.id = delegate.id := hl.keyed.account he
  have hread : l.production delegate.id =
      ((stats.blocksProduced : ℤ), (stats.blocksMissed : ℤ)) := by
    rw [Ledger.production, he, val_some, AccountEntry.production_some hstats]
  have hproduced : (l.storeAccount N.P { e with
      delegateInfo := some { stats with
        blocksProduced := stats.blocksProduced + 1
        nextSecretHash := some b.nextSecretHash
        lastBlockNumProduced := b.blockNum } }).InOrder N.P := hl.storeAccount he hid
  have hslot := ((Conserves.refl _).slotIf db.tables.statisticsEnabled
    ⟨⟨delegate.id, b.timestamp⟩, some (N.B.id b.toSignedBlockHeader)⟩ hproduced).1
  obtain ⟨ids, hids, hcounts⟩ := missSlots_counts hdb hmissed hslot
  refine ⟨⟨delegate, delegates, ids, hsignee, hdelegates, hids, fun k => ?_⟩, ?_⟩
  · show l₁.production k = _
    rw [hcounts, ((SameProduction.refl _).slotIf _ _).production, Ledger.production_storeAccount]
    dsimp only
    rw [hid]
    split_ifs with hk
    · rw [hk, hread, AccountEntry.production_some rfl]
      simp
    · simp
  · exact (Ledger.getProperty_storeProperty _ _ _).trans (if_pos rfl)

/-! ## The block -/

theorem KeepsProduction.property {id : PropertyIdType} (v : PropertyValue)
    (hid : id ≠ .lastAccountId) (hid' : id ≠ .confirmationRequirement) :
    KeepsProduction P l (l.storeProperty id v) :=
  fun hl => ⟨(Conserves.property v hid hl).1, .storeProperty v hid'⟩

theorem Payment.keepsProduction {pay : Paycheck} (h : Payment N db signee l pay l') :
    KeepsProduction N.P l l' := by
  refine fun hl => ⟨(h.conserves hl).1, ?_⟩
  obtain ⟨base, _, entry, stats, -, -, hentry, hstats, -, -, rfl⟩ := h
  have hpaid : SameProduction l (l.storeAccount N.P { entry with
      delegateInfo := some { stats with
        votesFor := stats.votesFor + pay.amount
        payBalance := stats.payBalance + pay.amount
        totalPaid := stats.totalPaid + pay.amount } }) := by
    refine .restored hl.keyed hentry rfl ?_
    rw [AccountEntry.production_some hstats]
    rfl
  exact hpaid.trans (.storeAsset _)

/-- The tables are keyed, no account has an id still to be given, and the confirmations required are
between one and three rounds. -/
structure ChainTables.InOrder (P : Primitives) (c : ChainTables) : Prop where
  keyed : c.WellKeyed P
  spendable : ∀ {k e}, c.balanceIdToEntry.lookup k = some e → e.condition.data ≠ .null
  fresh : ∃ n, c.propertyIdToEntry.lookup .lastAccountId = some (.id n) ∧
    ∀ {k e}, c.accountIdToEntry.lookup k = some e → k ≤ n
  confirmations : ∀ n, c.propertyIdToEntry.lookup .confirmationRequirement = some (.number n) →
    1 ≤ n ∧ n ≤ numDelegates * 3

theorem ChainTables.InOrder.pending (h : db.tables.InOrder P) (clock : TimePointSec) :
    (db.pending clock).ledger.InOrder P :=
  ⟨h.keyed.pending clock, h.spendable, h.fresh⟩

theorem evaluateBlock_counts (h : evaluateBlock N db clock b = .ok p)
    (hdb : db.tables.InOrder N.P) :
    p.ledger.InOrder N.P ∧ ∃ signee, blockSignee N db b = .ok signee ∧
      Counted N db b signee (db.pending clock).ledger p.ledger := by
  simp only [evaluateBlock, bind_eq_ok, pure_eq_ok] at h
  obtain ⟨signee, hsignee, ⟨⟩, -, l₁, hproduced, p₂, happlied, l₃, hpaid, rfl⟩ := h
  obtain ⟨pay, ⟨hpayment⟩⟩ := payDelegate_ok hpaid
  have hl := hdb.pending clock
  have hround : KeepsProduction N.P l₃
      (updateRandomSeed N b.previousSecret (updateActiveDelegateList N db b.blockNum l₃)) :=
    roundEnd_rel .refl .trans (fun _ _ => .property _ nofun nofun)
      (fun _ _ => .property _ nofun nofun) _ _ _
  have hpaid' := (applyTransactions_production happlied).trans hpayment.keepsProduction
  obtain ⟨hl', hsame⟩ := hpaid'.trans hround (production_conserves hproduced hl).1
  exact ⟨hl', signee, hsignee,
    (updateDelegateProductionInfo_counts hproduced hdb.keyed hl).same hsame⟩

theorem nextConfirmations_bounds (required missed : Nat) :
    1 ≤ nextConfirmations required missed ∧
      nextConfirmations required missed ≤ numDelegates * 3 :=
  ⟨Nat.le_max_left _ _, Nat.max_le.2 ⟨by decide, Nat.min_le_right _ _⟩⟩

/-- Nothing wraps between one and three rounds. -/
theorem nextConfirmations_eq {required missed : Nat} (hrequired : 1 ≤ required)
    (hlarge : required + 2 * missed ≤ 2 ^ 64) :
    (nextConfirmations required missed : ℤ) =
      max 1 (min ((numDelegates : ℤ) * 3) (required + 2 * missed - 1)) := by
  have hmod : (required + 2 * missed + 2 ^ 64 - 1) % 2 ^ 64 = required + 2 * missed - 1 := by
    omega
  rw [nextConfirmations, hmod, numDelegates]
  omega

theorem verifyHeader_slot (h : verifyHeader N db clock b signee = .ok ()) :
    b.timestamp % blockIntervalSec = 0 := by
  simp only [verifyHeader, bind_eq_ok, ensure_eq_ok, exists_const, beq_iff_eq] at h
  exact h.2.2.1

/-- A block keeps the tables in order, and starts a slot. -/
theorem slots_blocksKeep :
    BlocksKeep N (ChainTables.InOrder N.P) fun b => b.timestamp % blockIntervalSec = 0 where
  same h hc := by
    obtain ⟨n, hn, hfresh⟩ := hc.fresh
    refine ⟨⟨?_, ?_, ?_, ?_⟩, ?_, ⟨n, (h.property _).trans hn, ?_⟩, fun m hm => ?_⟩
    · exact fun he => hc.keyed.balance ((h.balance _).symm.trans he)
    · exact fun he => hc.keyed.account ((h.account _).symm.trans he)
    · exact fun he => hc.keyed.asset ((h.asset _).symm.trans he)
    · exact fun he => hc.keyed.contract ((h.contract _).symm.trans he)
    · exact fun he => hc.spendable ((h.balance _).symm.trans he)
    · exact fun he => hfresh ((h.account _).symm.trans he)
    · exact hc.confirmations m ((h.property _).symm.trans hm)
  extend {db db' clock b} hext hdb := by
    obtain ⟨p, hp⟩ := extendChain_ok hext
    obtain ⟨pay, ⟨hblock⟩⟩ := evaluateBlock_ok hp.evaluated
    obtain ⟨hl, signee, -, hcounted⟩ := evaluateBlock_counts hp.evaluated hdb
    obtain ⟨n, hn, hfresh⟩ := hl.fresh
    refine ⟨verifyHeader_slot hblock.header, hdb.keyed.extend hext, fun {k e} he => ?_,
      ⟨n, (hp.lookupProperty _).trans hn, fun {k e} he => ?_⟩, fun m hm => ?_⟩
    · rw [hp.lookupBalance] at he
      exact hl.spendable he
    · rw [hp.lookupAccount] at he
      exact hfresh he
    · rw [hp.lookupProperty, hcounted.confirmations, Option.some_inj,
        PropertyValue.number.injEq] at hm
      exact hm ▸ nextConfirmations_bounds _ _

theorem genesisTables_confirmations (g : GenesisState) (on : Bool) :
    (genesisTables P g on).propertyIdToEntry.lookup .confirmationRequirement = none := by
  obtain ⟨x, hx⟩ := (genesisStages P g on).delegates_only
  obtain ⟨y, hy⟩ := (genesisStages P g on).balances_only
  obtain ⟨z, hz⟩ := (genesisStages P g on).assets_only
  have hempty : (genesisStages P g on).assets.propertyIdToEntry = ∅ := by
    rw [hz, hy, hx]
    rfl
  have hinsert : ∀ (c : ChainTables) (id : PropertyIdType) (v : PropertyValue),
      (PropertyEntry.store c id v).propertyIdToEntry = c.propertyIdToEntry.insert id v :=
    fun _ _ _ => rfl
  simp only [genesisTables, hinsert]
  rw [Finmap.lookup_insert_of_ne _ (by decide), Finmap.lookup_insert_of_ne _ (by decide),
    Finmap.lookup_insert_of_ne _ (by decide), Finmap.lookup_insert_of_ne _ (by decide),
    Finmap.lookup_insert_of_ne _ (by decide)]
  exact (congrArg (Finmap.lookup _) hempty).trans (Finmap.lookup_empty _)

theorem genesis_slots {g : GenesisState} {on : Bool} (h₀ : initializeGenesis P g on = .ok db₀) :
    db₀.tables.InOrder P := by
  obtain ⟨horder, -⟩ := genesis_excess h₀
  obtain ⟨htables, -⟩ := initializeGenesis_ok h₀
  refine ⟨horder.keyed.tables, horder.spendable, horder.fresh, fun n hn => ?_⟩
  rw [htables, genesisTables_confirmations] at hn
  cases hn

/-! ## The slots from one head to the next -/

namespace ChainDatabase

def production (db : ChainDatabase) (id : AccountIdType) : ℤ × ℤ :=
  val AccountEntry.production (db.tables.accountIdToEntry.lookup id)

/-- The blocks produced and missed by all delegates. -/
def slots (db : ChainDatabase) : ℤ :=
  total (fun e => e.production.1 + e.production.2) db.tables.accountIdToEntry

/-- The slots that start between the head and a block. -/
def skippedSlots (db : ChainDatabase) (b : FullBlock) : Finset TimePointSec :=
  {t ∈ Finset.Ioo db.headBlockHeader.timestamp b.timestamp | t % blockIntervalSec = 0}

end ChainDatabase

/-- Every slot from the head to the block is counted: the slots of all delegates, the one the block
is produced in, those skipped, and the confirmations required. -/
structure SlotsAccounted (N : Node) (db : ChainDatabase) (b : FullBlock) (db' : ChainDatabase) :
    Prop where
  slots : db'.slots - db.slots =
    ((b.timestamp : ℤ) - db.headBlockHeader.timestamp) / blockIntervalSec
  produced : ∃ signee delegate, blockSignee N db b = .ok signee ∧
    db.delegateForSignee N.P signee = .ok delegate ∧
    ∀ id, (db'.production id).1 = (db.production id).1 + if id = delegate.id then 1 else 0
  missed : ∃ delegates, db.activeDelegates = .ok delegates ∧
    ∀ id, (db'.production id).2 = (db.production id).2 +
      {t ∈ db.skippedSlots b | scheduledAt delegates t = some id}.card
  bounds : 1 ≤ db'.requiredConfirmations ∧ db'.requiredConfirmations ≤ numDelegates * 3
  clamped : (db'.requiredConfirmations : ℤ) = max 1 (min ((numDelegates : ℤ) * 3)
    (db.requiredConfirmations + 2 * (db.skippedSlots b).card - 1))

/-- The loop over the slots from one time to another goes through those between them. -/
theorem between_slots {t₀ t₁ t : Nat} (h₀ : t₀ % 10 = 0) (h₁ : t₁ % 10 = 0) :
    (∃ i < (t₁ - (t₀ + 10) + 9) / 10, t₀ + 10 + 10 * i = t) ↔
      (t₀ < t ∧ t < t₁) ∧ t % 10 = 0 := by
  constructor
  · rintro ⟨i, hi, rfl⟩
    omega
  · rintro ⟨⟨hlt, hlt'⟩, hmod⟩
    exact ⟨(t - (t₀ + 10)) / 10, by omega, by omega⟩

section Skipped

variable (hnum : 0 < db.headBlockHeader.blockNum)
  (hhead : db.headBlockHeader.timestamp % blockIntervalSec = 0)
  (hb : b.timestamp % blockIntervalSec = 0)

include hnum

theorem missedSlots_eq : missedSlots db b =
    (List.range ((b.timestamp - (db.headBlockHeader.timestamp + 10) + 9) / 10)).map fun i =>
      db.headBlockHeader.timestamp + 10 + 10 * i := by
  unfold missedSlots
  rw [if_pos hnum]
  rfl

theorem missedSlots_nodup : (missedSlots db b).Nodup := by
  rw [missedSlots_eq hnum]
  refine List.nodup_range.map fun i j hij => ?_
  simpa using hij

theorem missedSlots_length : (missedSlots db b).length =
    (b.timestamp - (db.headBlockHeader.timestamp + 10) + 9) / 10 := by
  rw [missedSlots_eq hnum, List.length_map, List.length_range]

include hhead hb

theorem mem_missedSlots : t ∈ missedSlots db b ↔ t ∈ db.skippedSlots b := by
  rw [missedSlots_eq hnum, ChainDatabase.skippedSlots, Finset.mem_filter, Finset.mem_Ioo,
    List.mem_map]
  simp only [List.mem_range]
  exact between_slots hhead hb

theorem missedSlots_toFinset : (missedSlots db b).toFinset = db.skippedSlots b :=
  Finset.ext fun _ => List.mem_toFinset.trans (mem_missedSlots hnum hhead hb)

theorem card_skippedSlots : (db.skippedSlots b).card = (missedSlots db b).length := by
  rw [← missedSlots_toFinset hnum hhead hb, List.toFinset_card_of_nodup (missedSlots_nodup hnum)]

/-- The slots of a delegate among those missed. -/
theorem count_missed {id : AccountIdType}
    (hids : (missedSlots db b).map (scheduledAt delegates) = ids.map some) :
    {t ∈ db.skippedSlots b | scheduledAt delegates t = some id}.card = ids.count id := by
  have hcount : (ids.map some).count (some id) = ids.count id :=
    List.count_map_of_injective _ _ (Option.some_injective _) _
  rw [← hcount, ← hids, ← missedSlots_toFinset hnum hhead hb, List.count_eq_countP, List.countP_map,
    List.countP_eq_length_filter]
  rw [← List.toFinset_card_of_nodup ((missedSlots_nodup hnum).filter _), List.toFinset_filter]
  congr 1
  ext t
  simp

end Skipped

theorem val_slots (o : Option AccountEntry) : val (fun e => e.production.1 + e.production.2) o =
    (val AccountEntry.production o).1 + (val AccountEntry.production o).2 := by
  cases o with
  | none => rfl
  | some e => rfl

/-- The slots of all delegates go up by one for the block and one for each slot missed. -/
theorem Counted.slots (h : Extended N db clock b p db')
    (hcounted : Counted N db b signee (db.pending clock).ledger p.ledger) :
    db'.slots = db.slots + (1 + (missedSlots db b).length) := by
  obtain ⟨delegate, delegates, ids, -, -, hids, hcounts⟩ := hcounted.counts
  have hval : ∀ k, val (fun e => e.production.1 + e.production.2)
      (db'.tables.accountIdToEntry.lookup k) =
        val (fun e => e.production.1 + e.production.2) (db.tables.accountIdToEntry.lookup k) +
          ((delegate.id :: ids).count k : ℤ) := by
    intro k
    have hcount : db'.production k = db.production k +
        ((if k = delegate.id then 1 else 0 : ℤ), (ids.count k : ℤ)) := by
      rw [ChainDatabase.production, h.lookupAccount]
      exact hcounts k
    rw [val_slots, val_slots]
    show (db'.production k).1 + (db'.production k).2 = (db.production k).1 + (db.production k).2 + _
    rw [hcount, List.count_cons]
    by_cases hk : k = delegate.id
    · rw [if_pos hk, if_pos (beq_iff_eq.2 hk.symm), Prod.fst_add, Prod.snd_add, Nat.cast_add,
        Nat.cast_one]
      abel
    · rw [if_neg hk, if_neg fun heq => hk (beq_iff_eq.1 heq).symm, Prod.fst_add, Prod.snd_add,
        Nat.add_zero, add_zero, add_assoc]
  have hlength := congrArg List.length hids
  rw [List.length_map, List.length_map] at hlength
  rw [ChainDatabase.slots, total_of_val _ hval (S := (delegate.id :: ids).toFinset) fun k hk => by
    rw [List.mem_toFinset] at hk
    rw [List.count_eq_zero_of_not_mem hk, Nat.cast_zero]]
  rw [← Nat.cast_sum, List.sum_toFinset_count_eq_length, List.length_cons, ← hlength, Nat.cast_add,
    Nat.cast_one, add_comm 1]
  rfl

theorem ChainTables.InOrder.required (h : db.tables.InOrder P) :
    1 ≤ db.requiredConfirmations ∧ db.requiredConfirmations ≤ numDelegates * 3 := by
  unfold ChainDatabase.requiredConfirmations
  split
  · exact h.confirmations _ ‹_›
  · exact ⟨by decide, le_refl _⟩

/-- One slot and those missed are all slots from one time to another if the other one is later. -/
theorem one_add_slots {t₀ t₁ : Nat} (h₀ : t₀ % 10 = 0) (h₁ : t₁ % 10 = 0) :
    1 + (((t₁ - (t₀ + 10) + 9) / 10 : ℕ) : ℤ) = ((t₁ : ℤ) - t₀) / 10 ↔ t₀ < t₁ := by
  omega

theorem few_slots {t₀ t₁ : Nat} (h : t₁ < 2 ^ 32) : (t₁ - (t₀ + 10) + 9) / 10 < 2 ^ 32 := by
  omega

/-- Of the accounting of an accepted block only the sum depends on its time. -/
theorem extendChain_slots (hdb : db.tables.InOrder N.P)
    (hhead : db.headBlockHeader.timestamp % blockIntervalSec = 0)
    (hnum : 0 < db.headBlockHeader.blockNum) (hwidth : b.timestamp < 2 ^ 32)
    (hext : extendChain N db clock b = .ok db') :
    SlotsAccounted N db b db' ↔ db.headBlockHeader.timestamp < b.timestamp := by
  obtain ⟨p, hp⟩ := extendChain_ok hext
  have hb := (slots_blocksKeep.extend hext hdb).1
  obtain ⟨-, signee, hsignee, hcounted⟩ := evaluateBlock_counts hp.evaluated hdb
  have hslots : db'.slots - db.slots = 1 + ((missedSlots db b).length : ℤ) :=
    sub_eq_of_eq_add' (hcounted.slots hp)
  have hsum := one_add_slots hhead hb
  rw [← missedSlots_length hnum, ← hslots] at hsum
  refine ⟨fun h => hsum.1 h.slots, fun hlt => ?_⟩
  obtain ⟨delegate, delegates, ids, hdelegate, hdelegates, hids, hcounts⟩ := hcounted.counts
  have hproduction : ∀ k, db'.production k = db.production k +
      ((if k = delegate.id then 1 else 0 : ℤ), (ids.count k : ℤ)) := by
    intro k
    rw [ChainDatabase.production, hp.lookupAccount]
    exact hcounts k
  have hrequired : db'.requiredConfirmations =
      nextConfirmations db.requiredConfirmations (missedSlots db b).length := by
    rw [ChainDatabase.requiredConfirmations, hp.lookupProperty, hcounted.confirmations]
  constructor
  · exact hsum.2 hlt
  · exact ⟨signee, delegate, hsignee, hdelegate, fun k => by rw [hproduction]; rfl⟩
  · refine ⟨delegates, hdelegates, fun k => ?_⟩
    rw [hproduction, count_missed hnum hhead hb hids]
    rfl
  · rw [hrequired]
    exact nextConfirmations_bounds _ _
  · obtain ⟨hone, hrounds⟩ := hdb.required
    rw [hrequired, card_skippedSlots hnum hhead hb]
    refine nextConfirmations_eq hone ?_
    rw [numDelegates] at hrounds
    have hfew : (missedSlots db b).length < 2 ^ 32 := by
      rw [missedSlots_length hnum]
      exact few_slots hwidth
    omega

/-- Below the head there are blocks that start a slot. -/
theorem OnPath.head_checked {G : ChainTables → Prop} {K : FullBlock → Prop}
    {path : List BlockIdType} (h : OnPath N G K db path) (htree : ForkTree N db)
    (hnum : db.headBlockHeader.blockNum ≠ 0) :
    ∃ b, db.headBlockHeader = b.toSignedBlockHeader ∧ K b := by
  obtain ⟨b, q, hb, hheader, -⟩ := htree.head_block hnum
  obtain ⟨_, _, rfl, -, -⟩ := h.rooted.ne_zero_inv (htree.blockId _ b hb).2
  exact ⟨b, hheader, h.checked _ (List.mem_cons_self ..) b hb⟩

/-- Whenever a call of `push_block` accepts a block on a head numbered `1` or higher, every slot from
the head to the block is counted exactly if the block is later than the head. Times have 32 bits. -/
theorem slots_accounted_iff (N : Node) (g : GenesisState) (on : Bool) (db₀ db s s' : ChainDatabase)
    (h₀ : initializeGenesis N.P g on = .ok db₀) (hrun : Pushed N (fun _ => True) db₀ db)
    (clock : TimePointSec) (b b' : FullBlock)
    (hcall : PushCalls N clock b db s (.extendChain b')) (hhead : 1 ≤ s.headBlockHeader.blockNum)
    (hwidth : b'.timestamp < 2 ^ 32) (hext : extendChain N s clock b' = .ok s') :
    SlotsAccounted N s b' s' ↔ s.headBlockHeader.timestamp < b'.timestamp := by
  obtain ⟨htree, path, h⟩ := slots_blocksKeep.extending h₀ (genesis_slots h₀) hrun hcall
  obtain ⟨head, hheader, hslot⟩ := h.head_checked htree (Nat.one_le_iff_ne_zero.1 hhead)
  have hstart : s.headBlockHeader.timestamp % blockIntervalSec = 0 := by
    rw [hheader]
    exact hslot
  exact extendChain_slots h.rewinds.here hstart hhead hwidth hext

/-- Block 2 skips two slots. -/
theorem slots_accounted_two_skipped :
    ∃ db₀ db s s' b', initializeGenesis Node.plain.P .plain false = .ok db₀ ∧
      Pushed .plain (fun _ => True) db₀ db ∧
      PushCalls .plain 100 (.plain 2 1020 50 []) db s (.extendChain b') ∧
      s.headBlockHeader.timestamp = 20 ∧ b'.timestamp = 50 ∧
      extendChain .plain s 100 b' = .ok s' ∧ SlotsAccounted .plain s b' s' := by
  obtain ⟨db₀, db, h₀, hpushed, hend⟩ := exists_pushed (N := .plain) (g := .plain) (K := fun _ => True)
    (p := fun db => (pushCalls .plain 100 (.plain 2 1020 50 []) db).any fun x => x.2.extends fun b' =>
      x.1.headBlockHeader.blockNum == 1 && x.1.headBlockHeader.timestamp == 20 &&
        b'.timestamp == 50 && returns (extendChain .plain x.1 100 b') fun _ => true)
    100 [.plain 1 0 20 []] (fun _ _ => trivial) (by decide +kernel)
  obtain ⟨s, b', hcall, hend⟩ := exists_extension hend
  simp only [Bool.and_eq_true, beq_iff_eq] at hend
  obtain ⟨⟨⟨hnum, hhead⟩, htime⟩, hext⟩ := hend
  obtain ⟨s', hext, -⟩ := exists_of_returns hext
  refine ⟨db₀, db, s, s', b', h₀, hpushed, hcall, hhead, htime, hext, ?_⟩
  refine (slots_accounted_iff .plain .plain false db₀ db s s' h₀ hpushed 100 _ b' hcall hnum.ge ?_
    hext).2 ?_
  · rw [htime]
    decide
  · rw [hhead, htime]
    decide

/-- After block 1, a block numbered 1 that follows it at an earlier time and leads to a block known
before: the counts go up by one, though the time goes back by one slot. -/
theorem earlier_block_counted :
    ∃ db₀ db s s' b', initializeGenesis Node.plain.P .plain false = .ok db₀ ∧
      Pushed .plain (fun _ => True) db₀ db ∧
      PushCalls .plain 100 (.plain 1 1020 10 []) db s (.extendChain b') ∧
      s.headBlockHeader.blockNum = 1 ∧ s.headBlockHeader.timestamp = 20 ∧ b'.timestamp = 10 ∧
      extendChain .plain s 100 b' = .ok s' ∧ s'.slots - s.slots = 1 ∧
      ¬ SlotsAccounted .plain s b' s' := by
  obtain ⟨db₀, db, h₀, hpushed, hend⟩ := exists_pushed (N := .plain) (g := .plain) (K := fun _ => True)
    (p := fun db => (pushCalls .plain 100 (.plain 1 1020 10 []) db).any fun x => x.2.extends fun b' =>
      x.1.headBlockHeader.blockNum == 1 && x.1.headBlockHeader.timestamp == 20 &&
        b'.timestamp == 10 &&
        returns (extendChain .plain x.1 100 b') fun s' => s'.slots - x.1.slots == 1)
    100 [.plain 1 0 20 [], .plain 2 1021010 30 []] (fun _ _ => trivial) (by decide +kernel)
  obtain ⟨s, b', hcall, hend⟩ := exists_extension hend
  simp only [Bool.and_eq_true, beq_iff_eq] at hend
  obtain ⟨⟨⟨hnum, hhead⟩, htime⟩, hext⟩ := hend
  obtain ⟨s', hext, hslots⟩ := exists_of_returns hext
  rw [beq_iff_eq] at hslots
  refine ⟨db₀, db, s, s', b', h₀, hpushed, hcall, hnum, hhead, htime, hext, hslots, fun h => ?_⟩
  have hsum := h.slots
  rw [hslots, hhead, htime] at hsum
  exact absurd hsum (by decide)

end Achain
