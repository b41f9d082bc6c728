import Achain.Proofs.Keyed

/-!
# The tables of the genesis state

Each stage of `initialize_genesis` writes one kind of entry: the delegates, the balances, the
assets and the properties.
-/

namespace Achain

open Table Result

variable {P : Primitives} {g : GenesisState} {on : Bool}

section Stages

open ChainTables

theorem genesisDelegates_only (timestamp : TimePointSec) : ∀ (ds : List GenesisDelegate)
    (c : ChainTables) (last : AccountIdType),
    accounts.Only c (genesisDelegates P timestamp c last ds).1
  | [], c, _ => .refl c
  | _ :: ds, c, _ =>
    (accountHooks.only_store c _ _).trans (genesisDelegates_only timestamp ds _ _)

theorem genesisBalances_only (timestamp : TimePointSec) (bs : List GenesisBalance)
    (c : ChainTables) : balances.Only c (bs.foldl (genesisBalance P timestamp) c) :=
  .foldl (fun c _ => balanceHooks.only_store c _ _) bs c

theorem genesisAssets_only (timestamp : TimePointSec) : ∀ (as : List GenesisAsset)
    (c : ChainTables) (last : AssetIdType),
    assets.Only c (genesisAssets timestamp c last as).1
  | [], c, _ => .refl c
  | _ :: as, c, _ =>
    (assetHooks.only_store c _ _).trans (genesisAssets_only timestamp as _ _)

end Stages

/-- The stages of the genesis tables: a later one changes only its own part. -/
structure GenesisStages (P : Primitives) (g : GenesisState) (on : Bool) where
  delegates : ChainTables
  balances : ChainTables
  base : ChainTables
  assets : ChainTables
  delegates_eq : delegates = (genesisDelegates P g.timestamp (.empty on) 0 g.delegates).1
  balances_eq : balances = g.initialBalances.foldl (genesisBalance P g.timestamp) delegates
  base_eq : base = AssetEntry.store balances 0 (baseAsset g.timestamp
    (g.initialBalances.foldl (fun sum b => sum + b.balance) 0))
  assets_eq : assets = (genesisAssets g.timestamp base 0 g.marketAssets).1
  delegates_only : ChainTables.accounts.Only (.empty on) delegates
  balances_only : ChainTables.balances.Only delegates balances
  assets_only : ChainTables.assets.Only balances assets
  properties_only : ChainTables.properties.Only assets (genesisTables P g on)

def genesisStages (P : Primitives) (g : GenesisState) (on : Bool) : GenesisStages P g on where
  delegates := _
  balances := _
  base := _
  assets := _
  delegates_eq := rfl
  balances_eq := rfl
  base_eq := rfl
  assets_eq := rfl
  delegates_only := genesisDelegates_only _ _ _ _
  balances_only := genesisBalances_only _ _ _
  assets_only := (ChainTables.assetHooks.only_store _ _ _).trans (genesisAssets_only _ _ _ _)
  properties_only := ⟨_, rfl⟩

/-! ## Keyed tables -/

section Keyed

open ChainTables

variable {c : ChainTables}

theorem ChainTables.wellKeyed_empty : (ChainTables.empty on).WellKeyed P := by
  constructor <;> intro k e he <;> simp [ChainTables.empty] at he

theorem ChainTables.WellKeyed.storeAccount (h : c.WellKeyed P) {id : AccountIdType}
    {e : AccountEntry} (he : e.id = id) : (AccountEntry.store P c id e).WellKeyed P := by
  have hread := (accountHooks (P := P)).read_store c id e
  obtain ⟨x, hx⟩ := (accountHooks (P := P)).only_store c id e
  refine ⟨?_, ?_, ?_, ?_⟩
  · rw [hx]
    exact h.balance
  · intro k e' he'
    rw [hread] at he'
    split_ifs at he' with hk
    · rw [← Option.some.inj he', he, hk]
    · exact h.account he'
  · rw [hx]
    exact h.asset
  · rw [hx]
    exact h.contract

theorem ChainTables.WellKeyed.storeBalance (h : c.WellKeyed P) {id : BalanceIdType}
    {e : BalanceEntry} (he : P.balanceId e = id) : (BalanceEntry.store c id e).WellKeyed P := by
  refine ⟨?_, h.account, h.asset, h.contract⟩
  intro k e' he'
  rw [balanceHooks.read_store] at he'
  split_ifs at he' with hk
  · rw [← Option.some.inj he', he, hk]
  · exact h.balance he'

theorem ChainTables.WellKeyed.storeAsset (h : c.WellKeyed P) {id : AssetIdType}
    {e : AssetEntry} (he : e.id = id) : (AssetEntry.store c id e).WellKeyed P := by
  have hread := assetHooks.read_store c id e
  obtain ⟨x, hx⟩ := assetHooks.only_store c id e
  refine ⟨?_, ?_, ?_, ?_⟩
  · rw [hx]
    exact h.balance
  · rw [hx]
    exact h.account
  · intro k e' he'
    rw [hread] at he'
    split_ifs at he' with hk
    · rw [← Option.some.inj he', he, hk]
    · exact h.asset he'
  · rw [hx]
    exact h.contract

theorem genesisDelegates_wellKeyed (timestamp : TimePointSec) : ∀ (ds : List GenesisDelegate)
    {c : ChainTables} (last : AccountIdType), c.WellKeyed P →
    (genesisDelegates P timestamp c last ds).1.WellKeyed P
  | [], _, _, h => h
  | _ :: ds, _, _, h => genesisDelegates_wellKeyed timestamp ds _ (h.storeAccount rfl)

theorem genesisBalances_wellKeyed (timestamp : TimePointSec) : ∀ (bs : List GenesisBalance)
    {c : ChainTables}, c.WellKeyed P → (bs.foldl (genesisBalance P timestamp) c).WellKeyed P
  | [], _, h => h
  | _ :: bs, _, h => genesisBalances_wellKeyed timestamp bs (h.storeBalance rfl)

theorem genesisAssets_wellKeyed (timestamp : TimePointSec) : ∀ (as : List GenesisAsset)
    {c : ChainTables} (last : AssetIdType), c.WellKeyed P →
    (genesisAssets timestamp c last as).1.WellKeyed P
  | [], _, _, h => h
  | _ :: as, _, _, h => genesisAssets_wellKeyed timestamp as _ (h.storeAsset rfl)

theorem genesisTables_wellKeyed (g : GenesisState) (on : Bool) :
    (genesisTables P g on).WellKeyed P := by
  have hdelegates : (genesisStages P g on).delegates.WellKeyed P :=
    genesisDelegates_wellKeyed g.timestamp g.delegates 0 wellKeyed_empty
  have hbalances : (genesisStages P g on).balances.WellKeyed P :=
    genesisBalances_wellKeyed g.timestamp g.initialBalances hdelegates
  have hbase : (genesisStages P g on).base.WellKeyed P := hbalances.storeAsset rfl
  have hassets := genesisAssets_wellKeyed g.timestamp g.marketAssets 0 hbase
  exact ⟨hassets.balance, hassets.account, hassets.asset, hassets.contract⟩

end Keyed

/-- The market assets are stored under positive ids. -/
theorem genesisAssets_lookup_zero (timestamp : TimePointSec) : ∀ (as : List GenesisAsset)
    (c : ChainTables) {last : AssetIdType}, 0 ≤ last →
    (genesisAssets timestamp c last as).1.assetIdToEntry.lookup 0 = c.assetIdToEntry.lookup 0
  | [], _, _, _ => rfl
  | a :: as, c, last, h => by
    have hlast : (0 : ℤ) ≤ last := h
    have hnext : (0 : ℤ) ≤ last + 1 := by omega
    have hne : (0 : ℤ) ≠ last + 1 := by omega
    have hread := ChainTables.assetHooks.read_store c (last + 1) (a.entry (last + 1) timestamp) 0
    rw [if_neg hne] at hread
    rw [genesisAssets, genesisAssets_lookup_zero timestamp as _ hnext]
    exact hread

theorem genesisTables_base (g : GenesisState) (on : Bool) :
    (genesisTables P g on).assetIdToEntry.lookup 0 = some (baseAsset g.timestamp
      (g.initialBalances.foldl (fun sum b => sum + b.balance) 0)) := by
  have hassets : (genesisTables P g on).assetIdToEntry.lookup 0 =
      (genesisStages P g on).base.assetIdToEntry.lookup 0 :=
    genesisAssets_lookup_zero g.timestamp g.marketAssets _ (le_refl 0)
  rw [hassets, (genesisStages P g on).base_eq]
  exact ChainTables.assetHooks.read_store _ 0 _ 0

theorem initializeGenesis_ok {db : ChainDatabase} (h : initializeGenesis P g on = .ok db) :
    db.tables = genesisTables P g on ∧ db.headBlockId = 0 ∧ db.headBlockHeader = .empty ∧
      db.blockIdToFullBlock = ∅ ∧ db.blockIdToUndoState = ∅ := by
  simp only [initializeGenesis, bind_eq_ok, ensure_eq_ok, pure_eq_ok, exists_const] at h
  obtain ⟨-, -, rfl⟩ := h
  exact ⟨rfl, rfl, rfl, rfl, rfl⟩

theorem initializeGenesis_keyed {db : ChainDatabase} (h : initializeGenesis P g on = .ok db) :
    db.Keyed P := by
  obtain ⟨htables, -, -, -, hundo⟩ := initializeGenesis_ok h
  refine ⟨?_, ?_⟩
  · rw [htables]
    exact genesisTables_wellKeyed g on
  · intro id u hu
    rw [hundo, Finmap.lookup_empty] at hu
    cases hu

theorem initializeGenesis_known {N : Node} {K : FullBlock → Prop} {db : ChainDatabase}
    (h : initializeGenesis P g on = .ok db) : Known N K db := by
  obtain ⟨-, -, -, hblocks, -⟩ := initializeGenesis_ok h
  intro id b hb
  rw [hblocks, Finmap.lookup_empty] at hb
  cases hb

/-- A run from a genesis state that has been evaluated. -/
theorem exists_pushed {N : Node} {K : FullBlock → Prop} {p : ChainDatabase → Bool}
    (clock : TimePointSec) (bs : List FullBlock) (hbs : ∀ b ∈ bs, K b)
    (h : returns (initializeGenesis N.P g false) (fun db => p (pushes N clock bs db)) = true) :
    ∃ db₀ db, initializeGenesis N.P g false = .ok db₀ ∧ Pushed N K db₀ db ∧ p db = true := by
  obtain ⟨db₀, h₀, hp⟩ := exists_of_returns h
  exact ⟨db₀, _, h₀, Pushed.start.pushes hbs, hp⟩

end Achain
