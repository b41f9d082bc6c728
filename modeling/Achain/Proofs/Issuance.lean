import Achain.Proofs.GenesisTables

/-!
# The supply of the base asset

Shares of the base asset are issued by `pay_delegate` alone, as long as the issuer of the asset is
the one of the genesis state: an issue operation asks for an issuer that is an account. Of the
operations, only the extended update can name another issuer, and it accepts the base asset, whose
authority requires no signature. Runs in which no such update of the base asset names another issuer
keep the issuer, and the supply follows the pay.
-/

namespace Achain

open Table Result

variable {P : Primitives} {V : Vm} {N : Node} {l l' : Ledger} {supply : ShareType}

/-- Whether the operation is not an extended update that gives the base asset another issuer. -/
def Operation.keepsBaseIssuer : Operation → Bool
  | .updateAssetExt op => op.assetId != 0 || op.issuerAccountId == AssetEntry.godIssuerId
  | _ => true

/-- No operation of the transaction, at any depth, gives the base asset another issuer. -/
def SignedTransaction.KeepsBaseIssuer (t : SignedTransaction) : Prop :=
  ∀ op ∈ t.leaves, op.keepsBaseIssuer = true

def FullBlock.KeepsBaseIssuer (b : FullBlock) : Prop :=
  ∀ t ∈ b.userTransactions, t.KeepsBaseIssuer

/-- The base asset has the issuer of the genesis state and the given supply. -/
def HasBase (supply : ShareType) (base : Option AssetEntry) : Prop :=
  ∃ a, base = some a ∧ a.issuerAccountId = AssetEntry.godIssuerId ∧ a.currentShareSupply = supply

/-- The tables stay keyed and the base asset keeps its issuer and its supply. -/
def BaseKept (P : Primitives) (l l' : Ledger) : Prop :=
  l.WellKeyed P → l'.WellKeyed P ∧
    ∀ supply, HasBase supply (l.getAsset 0) → HasBase supply (l'.getAsset 0)

/-! ## Transactions -/

theorem BaseKept.refl (l : Ledger) : BaseKept P l l := fun hl => ⟨hl, fun _ h => h⟩

theorem BaseKept.trans {l₁ : Ledger} (h₁ : BaseKept P l l₁) (h₂ : BaseKept P l₁ l') :
    BaseKept P l l' := by
  intro hl
  obtain ⟨hl₁, hbase₁⟩ := h₁ hl
  obtain ⟨hl', hbase'⟩ := h₂ hl₁
  exact ⟨hl', fun supply h => hbase' supply (hbase₁ supply h)⟩

theorem BaseKept.of_sameAssets (hw : Writes P l l') (h : SameAssets l l') : BaseKept P l l' :=
  fun hl => ⟨hl.writes hw, fun supply hbase => by rwa [h.getAsset]⟩

/-- The store of an asset that keeps the issuer and the supply of the base asset if it is that. -/
theorem BaseKept.storeAsset {e : AssetEntry}
    (he : l.WellKeyed P → ∀ supply, HasBase supply (l.getAsset 0) → e.id = 0 →
      HasBase supply (some e)) : BaseKept P l (l.storeAsset e) := by
  refine fun hl => ⟨hl.writes (.one (.asset e)), fun supply hbase => ?_⟩
  rw [Ledger.getAsset_storeAsset]
  split_ifs with h
  · exact he hl supply hbase h.symm
  · exact hbase

/-- An update of an entry of the table that keeps the supply, and the issuer of the base asset. -/
theorem BaseKept.update {k : AssetIdType} {a e : AssetEntry} (ha : l.getAsset k = some a)
    (hid : e.id = a.id) (hsupply : e.currentShareSupply = a.currentShareSupply)
    (hissuer : k = 0 → a.issuerAccountId = AssetEntry.godIssuerId →
      e.issuerAccountId = AssetEntry.godIssuerId) : BaseKept P l (l.storeAsset e) := by
  refine .storeAsset fun hl supply hbase hzero => ?_
  obtain rfl : k = 0 := by rw [← hl.asset ha, ← hid, hzero]
  obtain ⟨a', ha', hgod, rfl⟩ := hbase
  obtain rfl : a = a' := Option.some.inj (ha.symm.trans ha')
  exact ⟨e, rfl, hissuer rfl hgod, hsupply⟩

theorem Operation.evaluateLeaf_baseKept {op : Operation} {ctx : OpContext} {s s' : OpState}
    (hop : op.keepsBaseIssuer = true) (h : op.evaluateLeaf P V ctx s = .ok s') :
    BaseKept P s.ledger s'.ledger := by
  by_cases hspares : op.sparesAssets = true
  · exact .of_sameAssets (evaluateLeaf_writes h) (evaluateLeaf_sameAssets hspares h)
  cases op <;> simp only [sparesAssets, not_true_eq_false] at hspares <;>
    simp only [evaluateLeaf] at h
  case createAsset op =>
    obtain ⟨n, issuer, -, hfree, -, hl, -⟩ := CreateAssetOperation.evaluate_ok h
    have hprop : BaseKept P s.ledger (s.ledger.storeProperty .lastAssetId (.id (n + 1))) :=
      .of_sameAssets (.one (.property _ _)) ⟨by simp, by simp⟩
    rw [hl]
    refine hprop.trans (.storeAsset fun _ supply hbase hzero => ?_)
    -- the base asset exists, so the new id is another one
    obtain ⟨a, ha, -⟩ := hbase
    have hid : n + 1 = 0 := hzero
    rw [hid] at hfree
    have hsame : (s.ledger.storeProperty .lastAssetId (.id (n + 1))).getAsset 0 =
        s.ledger.getAsset 0 := by simp [Ledger.getAsset]
    rw [hsame, hfree] at ha
    cases ha
  case updateAsset op =>
    obtain ⟨a, b, ha, -, hsame, hissuer, hl, -⟩ := UpdateAssetOperation.evaluate_ok h
    rw [hl]
    exact .update ha hsame.id hsame.supply fun _ hgod => hissuer.trans hgod
  case updateAssetExt op =>
    obtain ⟨a, b, ha, -, hsame, hissuer, hl, -⟩ := UpdateAssetExtOperation.evaluate_ok h
    rw [hl]
    refine .update ha hsame.id hsame.supply fun hzero _ => ?_
    simpa [keepsBaseIssuer, hzero, hissuer] using hop
  case issueAsset op =>
    obtain ⟨a, b, ha, huser, -, hid, -, -, -, -, hl, -⟩ := IssueAssetOperation.evaluate_ok h
    rw [hl]
    refine .storeAsset fun hkeyed supply hbase hzero => ?_
    -- an issued asset has an issuer that is an account
    obtain ⟨a', ha', hgod, -⟩ := hbase
    have hasset : op.amount.assetId = 0 := by rw [← hkeyed.asset ha, ← hid, hzero]
    rw [hasset] at ha
    obtain rfl : a = a' := Option.some.inj (ha.symm.trans ha')
    rw [AssetEntry.isUserIssued, hgod] at huser
    simp at huser

theorem baseKept_ledgerRel :
    LedgerRel P V (fun op => op.keepsBaseIssuer = true) (fun _ => (0 : ℕ)) fun _ => BaseKept P where
  refl := .refl
  trans := .trans
  leaf hop h := Operation.evaluateLeaf_baseKept hop h
  fee h := by
    obtain ⟨-, rfl⟩ | ⟨-, a, ha, rfl⟩ := EvalState.collectFee_ok h
    · exact .refl _
    · exact .update ha rfl rfl fun _ hgod => hgod
  votes h := by
    obtain ⟨a, stats, -, -, rfl⟩ := EvalState.updateVotes_ok h
    exact .of_sameAssets (.one (.account _)) ⟨by simp, by simp⟩
  request s id trx :=
    .of_sameAssets ((Writes.one (.resultId _ _)).tail (.requestId _ _)) ⟨rfl, rfl⟩

/-- A transaction keeps the issuer and the supply of the base asset. -/
theorem evaluate_baseKept {s s' : EvalState} {t : SignedTransaction} (ht : t.KeepsBaseIssuer)
    (h : evaluate P V s t = .ok s') : BaseKept P s.st.ledger s'.st.ledger :=
  baseKept_ledgerRel.evaluate ht h

/-! ## Blocks -/

variable {db db' db₀ : ChainDatabase} {clock : TimePointSec} {b : FullBlock} {pay : Paycheck}
  {p : PendingChainState}

theorem StatisticsWrites.sameAssets (h : StatisticsWrites P l l') : SameAssets l l' := by
  induction h with
  | refl => exact .refl _
  | tail _ hw ih => cases hw <;> exact ih.trans ⟨by simp, by simp⟩

/-- What a payment adds to the supply. -/
def Paycheck.minted (pay : Paycheck) : ShareType := pay.issued - pay.destroyed

theorem Payment.base_kept {signee : PublicKeyType} (h : Payment N db signee l pay l') (hl : l.WellKeyed N.P)
    (hbase : HasBase supply (l.getAsset 0)) : HasBase (supply + pay.minted) (l'.getAsset 0) := by
  obtain ⟨a, ha, hgod, rfl⟩ := hbase
  obtain ⟨base, _, _, _, hbase, -, -, -, -, -, rfl⟩ := h
  obtain rfl : base = a := Option.some.inj (hbase.symm.trans ha)
  rw [Ledger.getAsset_storeAsset, if_pos (hl.asset hbase).symm]
  refine ⟨_, rfl, hgod, ?_⟩
  exact add_sub_assoc base.currentShareSupply pay.issued pay.destroyed

/-- A block adds to the supply what its payment issues and takes from it what it destroys. -/
theorem BlockEvaluated.base (h : BlockEvaluated N db clock b pay p) (hb : b.KeepsBaseIssuer)
    (hkeyed : db.Keyed N.P) (hbase : HasBase supply (db.tables.assetIdToEntry.lookup 0)) :
    HasBase (supply + pay.minted) (p.ledger.getAsset 0) := by
  have hstatistics := updateDelegateProductionInfo_ok h.production
  have hproduced : BaseKept N.P (db.pending clock).ledger h.produced :=
    .of_sameAssets hstatistics.writes hstatistics.sameAssets
  have happlied : BaseKept N.P h.produced h.applied.ledger := by
    refine applyTransactions_rel (R := fun p p' => BaseKept N.P p.ledger p'.ledger)
      (fun _ => .refl _) (fun _ _ _ => .trans) ?_ h.transactions
    intro t ht n p p' happlied
    rw [happlied.ledger]
    exact evaluate_baseKept (hb t ht) happlied.evaluated
  obtain ⟨hkeyed', hbase'⟩ := hproduced.trans happlied (hkeyed.tables.pending clock)
  have hpaid := h.payment.base_kept hkeyed' (hbase' supply hbase)
  rw [h.rest.sameAssets.getAsset]
  exact hpaid

theorem extendChain_base (h : extendChain N db clock b = .ok db') (hb : b.KeepsBaseIssuer)
    (hkeyed : db.Keyed N.P) (hbase : HasBase supply (db.tables.assetIdToEntry.lookup 0)) :
    ∃ pay, PaidBy N db clock b pay ∧
      HasBase (supply + pay.minted) (db'.tables.assetIdToEntry.lookup 0) := by
  obtain ⟨p, hp⟩ := extendChain_ok h
  obtain ⟨pay, ⟨hblock⟩⟩ := evaluateBlock_ok hp.evaluated
  refine ⟨pay, ⟨p, ⟨hblock⟩⟩, ?_⟩
  rw [hp.lookupAsset]
  exact hblock.base hb hkeyed hbase

/-! ## Runs -/

/-- The issuer of the base asset is that of the genesis state, and no undo state would change it. -/
structure BaseGod (db : ChainDatabase) : Prop where
  tables : ∃ supply, HasBase supply (db.tables.assetIdToEntry.lookup 0)
  removed : ∀ id u, db.blockIdToUndoState.lookup id = some u → 0 ∉ u.ledger.asset.removed
  stored : ∀ id u a, db.blockIdToUndoState.lookup id = some u →
    u.ledger.asset.stored.lookup 0 = some a → a.issuerAccountId = AssetEntry.godIssuerId

theorem BaseGod.extend (h : extendChain N db clock b = .ok db') (hb : b.KeepsBaseIssuer)
    (hkeyed : db.Keyed N.P) (hdb : BaseGod db) : BaseGod db' := by
  obtain ⟨p, hp⟩ := extendChain_ok h
  obtain ⟨supply, hbase⟩ := hdb.tables
  -- the undo state of the block reads the base asset as it was before
  have hundo : HasBase supply ((p.getUndoState N.P).ledger.getAsset 0) := by
    have hread := (Ledger.undone (P := N.P) p.ledger _ rfl).asset 0
    rw [hp.prev] at hread
    exact hread ▸ hbase
  obtain ⟨a, ha, hgod, -⟩ := hundo
  refine ⟨?_, fun id u hu => ?_, fun id u a' hu ha' => ?_⟩
  · obtain ⟨pay, -, hbase'⟩ := extendChain_base h hb hkeyed hbase
    exact ⟨_, hbase'⟩
  · rcases saveUndoState_ok hp.undo hu with hold | ⟨-, rfl⟩
    · exact hdb.removed id u hold
    · intro hmem
      rw [Ledger.getAsset, Overlay.lookup_of_removed hmem] at ha
      cases ha
  · rcases saveUndoState_ok hp.undo hu with hold | ⟨-, rfl⟩
    · exact hdb.stored id u a' hold ha'
    · rw [Ledger.getAsset, Overlay.lookup_of_stored ha'] at ha
      obtain rfl := Option.some.inj ha
      exact hgod

theorem BaseGod.step (h : Step N FullBlock.KeepsBaseIssuer db db') (hkeyed : db.Keyed N.P)
    (hdb : BaseGod db) : BaseGod db' := by
  cases h with
  | extend clock b _ hb h => exact hdb.extend h hb hkeyed
  | pop h =>
    unfold popBlock at h
    split_ifs at h
    · exact ok_eq_ok.1 h ▸ hdb
    · simp only [bind_eq_ok, orThrow_eq_ok, pure_eq_ok] at h
      obtain ⟨forkDb, -, u, hu, header, -, rfl⟩ := h
      refine ⟨?_, hdb.removed, hdb.stored⟩
      have hread := (ChainTables.written (P := N.P) db.tables u).lookupAsset 0
      rw [Overlay.lookup] at hread
      obtain ⟨supply, a, ha, hgod, -⟩ := hdb.tables
      cases hstored : u.ledger.asset.stored.lookup 0 with
      | some a' =>
        rw [hstored] at hread
        exact ⟨_, a', hread, hdb.stored _ u a' hu hstored, rfl⟩
      | none =>
        rw [hstored] at hread
        simp only [if_neg (hdb.removed _ u hu), ha] at hread
        exact ⟨_, a, hread, hgod, rfl⟩
  | other hsame _ _ =>
    refine ⟨?_, ?_, ?_⟩
    · rw [hsame.tables]
      exact hdb.tables
    · rw [hsame.blockIdToUndoState]
      exact hdb.removed
    · rw [hsame.blockIdToUndoState]
      exact hdb.stored

theorem genesis_baseGod {g : GenesisState} {on : Bool}
    (h : initializeGenesis P g on = .ok db) : BaseGod db := by
  obtain ⟨htables, -, -, -, hundo⟩ := initializeGenesis_ok h
  refine ⟨?_, ?_, ?_⟩
  · rw [htables]
    exact ⟨_, _, genesisTables_base g on, rfl, rfl⟩
  · intro id u hu
    rw [hundo, Finmap.lookup_empty] at hu
    cases hu
  · intro id u a hu
    rw [hundo, Finmap.lookup_empty] at hu
    cases hu

/-- Blocks accepted one after the other, each satisfying `K`, with what they pay. -/
inductive Accepts (N : Node) (K : FullBlock → Prop) :
    ChainDatabase → List Paycheck → ChainDatabase → Prop
  | nil (db : ChainDatabase) : Accepts N K db [] db
  | cons {db db₁ db₂ : ChainDatabase} {pays : List Paycheck} (clock : TimePointSec)
      (b : FullBlock) (pay : Paycheck) : K b → extendChain N db clock b = .ok db₁ →
      PaidBy N db clock b pay → Accepts N K db₁ pays db₂ → Accepts N K db (pay :: pays) db₂

theorem Accepts.base {pays : List Paycheck} (h : Accepts N FullBlock.KeepsBaseIssuer db pays db')
    (hkeyed : db.Keyed N.P) (hbase : HasBase supply (db.tables.assetIdToEntry.lookup 0)) :
    HasBase (supply + (pays.map Paycheck.minted).sum) (db'.tables.assetIdToEntry.lookup 0) := by
  induction h generalizing supply with
  | nil db => simpa using hbase
  | cons clock b pay hb hext hpay _ ih =>
    obtain ⟨pay', hpay', hbase'⟩ := extendChain_base hext hb hkeyed hbase
    obtain rfl := hpay.unique hpay'
    have hrest := ih (hkeyed.extend hext) hbase'
    rw [List.map_cons, List.sum_cons, ← add_assoc]
    exact hrest

/-- In every state reached from genesis in which the accepted blocks do not give the base asset
another issuer, a transaction that does not do so keeps the supply and the issuer, and accepted
blocks add to the supply what they issue and take from it what they destroy. -/
theorem base_supply_follows_pay (N : Node) (g : GenesisState) (on : Bool) (db₀ db : ChainDatabase)
    (h₀ : initializeGenesis N.P g on = .ok db₀)
    (hrun : Reaches N FullBlock.KeepsBaseIssuer db₀ db) :
    ∃ supply, HasBase supply (db.tables.assetIdToEntry.lookup 0) ∧
      (∀ clock skipSignatureCheck skipexec (t : SignedTransaction) s', t.KeepsBaseIssuer →
        evaluate N.P N.V (.init (db.pending clock) skipSignatureCheck skipexec) t = .ok s' →
        HasBase supply (s'.st.ledger.getAsset 0)) ∧
      ∀ pays db', Accepts N FullBlock.KeepsBaseIssuer db pays db' →
        HasBase (supply + (pays.map Paycheck.minted).sum)
          (db'.tables.assetIdToEntry.lookup 0) := by
  have hinv : db.Keyed N.P ∧ BaseGod db := by
    refine hrun.keeps (I := fun db => db.Keyed N.P ∧ BaseGod db) ?_
      ⟨initializeGenesis_keyed h₀, genesis_baseGod h₀⟩
    rintro db db' hstep ⟨hkeyed, hgod⟩
    exact ⟨hkeyed.step hstep, hgod.step hstep hkeyed⟩
  obtain ⟨hkeyed, hgod⟩ := hinv
  obtain ⟨supply, hbase⟩ := hgod.tables
  refine ⟨supply, hbase, ?_, ?_⟩
  · intro clock _ _ t s' ht h
    exact (evaluate_baseKept ht h (hkeyed.tables.pending clock)).2 supply hbase
  · intro pays db' h
    exact h.base hkeyed hbase

/-- Key 1 pays for an extended update of the base asset that leaves it its issuer. -/
def keepBase (expiration : TimePointSec) : SignedTransaction :=
  { SignedTransaction.empty with
    expiration := expiration
    operations := [
      .updateAssetExt ⟨⟨0, none, none, none, none, none⟩, 0, 0, 0, 0, 0, ⟨0, []⟩⟩,
      .withdraw ⟨3, 2000, []⟩]
    signatures := [1] }

theorem keepBase_keepsBaseIssuer (expiration : TimePointSec) : (keepBase expiration).KeepsBaseIssuer := by
  have hleaves : (keepBase expiration).leaves = (keepBase expiration).operations := rfl
  rw [SignedTransaction.KeepsBaseIssuer, hleaves]
  exact List.forall_mem_cons.2 ⟨rfl, List.forall_mem_singleton.2 rfl⟩

/-- A block updates the base asset, and so does a transaction after it. -/
theorem base_supply_follows_pay_at_block :
    ∃ db₀ db s' supply, initializeGenesis Node.plain.P .plain false = .ok db₀ ∧
      Reaches .plain FullBlock.KeepsBaseIssuer db₀ db ∧ db.headBlockHeader.blockNum = 1 ∧
      evaluate Node.plain.P Node.plain.V (.init (db.pending 30) false false) (keepBase 110) = .ok s' ∧
      HasBase supply (db.tables.assetIdToEntry.lookup 0) ∧
      HasBase supply (s'.st.ledger.getAsset 0) ∧
      ∀ pays db', Accepts .plain FullBlock.KeepsBaseIssuer db pays db' →
        HasBase (supply + (pays.map Paycheck.minted).sum)
          (db'.tables.assetIdToEntry.lookup 0) := by
  have hpush : returns (initializeGenesis Node.plain.P .plain false) (fun db₀ =>
      let db := Stateful.final (pushBlock .plain 20 (.plain 1 0 10 [keepBase 100])) db₀
      returns (evaluate Node.plain.P Node.plain.V (.init (db.pending 30) false false) (keepBase 110))
        fun _ => db.headBlockHeader.blockNum == 1) = true := by decide +kernel
  obtain ⟨db₀, h₀, hpush⟩ := exists_of_returns hpush
  obtain ⟨s', hs', hnum⟩ := exists_of_returns hpush
  have hpushed : Pushed .plain FullBlock.KeepsBaseIssuer db₀ _ :=
    .push 20 (.plain 1 0 10 [keepBase 100]) .start
      (List.forall_mem_singleton.2 (keepBase_keepsBaseIssuer 100))
  have hrun := (hpushed.running (initializeGenesis_known h₀)).reaches
  obtain ⟨supply, hbase, hevaluate, haccepts⟩ :=
    base_supply_follows_pay .plain .plain false db₀ _ h₀ hrun
  exact ⟨db₀, _, s', supply, h₀, hrun, by simpa using hnum, hs', hbase,
    hevaluate 30 false false _ s' (keepBase_keepsBaseIssuer 110) hs', haccepts⟩

/-- A transaction without signatures that makes account 1 the issuer of the base asset, issues 1000
shares and pays most of them to key 3. -/
def mintBase : SignedTransaction :=
  { SignedTransaction.empty with
    expiration := 100
    operations := [
      .updateAssetExt ⟨⟨0, none, none, none, none, none⟩, 0, 0, 1, 0, 0, ⟨0, []⟩⟩,
      .issueAsset ⟨⟨1000, 0⟩⟩,
      .deposit ⟨900, ⟨0, 0, .common, .signature 3 none⟩⟩] }

/-- In the genesis state, anyone can issue shares of the base asset. -/
theorem mintBase_accepted :
    ∃ db₀ s' a a', initializeGenesis Node.plain.P .plain false = .ok db₀ ∧
      Reaches .plain (fun _ => True) db₀ db₀ ∧
      evaluate Node.plain.P Node.plain.V (.init (db₀.pending 50) false false) mintBase = .ok s' ∧
      db₀.tables.assetIdToEntry.lookup 0 = some a ∧ s'.st.ledger.getAsset 0 = some a' ∧
      a'.currentShareSupply = a.currentShareSupply + 1000 ∧ a.issuerAccountId = 0 ∧
      a'.issuerAccountId = 1 := by
  have hmint : returns (initializeGenesis Node.plain.P .plain false) (fun db =>
      returns (evaluate Node.plain.P Node.plain.V (.init (db.pending 50) false false) mintBase)
        fun s' => (db.tables.assetIdToEntry.lookup 0).any fun a =>
          (s'.st.ledger.getAsset 0).any fun a' =>
            a'.currentShareSupply == a.currentShareSupply + 1000 && a.issuerAccountId == 0 &&
              a'.issuerAccountId == 1) = true := by decide +kernel
  obtain ⟨db₀, h₀, hmint⟩ := exists_of_returns hmint
  obtain ⟨s', hs', hmint⟩ := exists_of_returns hmint
  obtain ⟨a, ha, hmint⟩ := Option.any_eq_true .. |>.1 hmint
  obtain ⟨a', ha', hmint⟩ := Option.any_eq_true .. |>.1 hmint
  simp only [Bool.and_eq_true, beq_iff_eq] at hmint
  exact ⟨db₀, s', a, a', h₀, .refl, hs', ha, ha', hmint.1.1, hmint.1.2, hmint.2⟩

end Achain
