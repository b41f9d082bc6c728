import Achain.Wallet.TransactionBuilder
import Achain.Lib.Traces
import Mathlib.Algebra.Order.BigOperators.Group.List

/-!
# Every account settles its own balance

What `finalize` adds to the transaction settles every outstanding balance on its own, with one
deposit or with withdrawals that add up to the debt. Paying the fee uses balances up one after the
other and also uses up a negative one, so that the books are balanced exactly when the fee is reached
before the first negative balance.
-/

namespace Achain.Wallet

open Table Ordered Stateful

namespace TransactionBuilder

/-! ## Balanced books -/

/-- What an account is owed, or owes where it is negative. -/
def value (m : OrdMap BalanceKey ShareType) (account : Address) (assetId : AssetIdType) : ℤ :=
  ((m.lookup (toLex (account, assetId))).getD 0).toInt

def inAsset (assetId : AssetIdType) (k : BalanceKey) (v : ShareType) : ℤ :=
  if assetOf k = assetId then v.toInt else 0

/-- What all accounts together are owed in an asset. -/
def totalIn (assetId : AssetIdType) (m : OrdMap BalanceKey ShareType) : ℤ := m.sum (inAsset assetId)

inductive Movement where
  | deposited (owner : Address) (amount : Asset)
  | withdrawn (balanceId : BalanceIdType) (amount : ShareType)

/-- The deposit or withdrawal an operation makes, whatever its slate. -/
def movement : Operation → Option Movement
  | .deposit op => op.condition.owner.map fun owner => .deposited owner ⟨op.amount, op.condition.assetId⟩
  | .withdraw op => some (.withdrawn op.balanceId op.amount)
  | _ => none

def movements (b : TransactionBuilder) : List Movement := b.trx.operations.filterMap movement

variable (w : WalletImpl)

/-- The order keys of the builder and the database of the wallet, which a new key changes. -/
structure Keys where
  orderKeys : Tab Address PublicKeyType
  db : WalletDb

def keysOf (s : Session) : Keys := ⟨s.builder.orderKeys, s.db⟩

/-- The key of an account's deposits, one the builder has or one generated for the account, and the keys
afterwards. -/
inductive OrderKeyOf (account : Address) (ks : Keys) : PublicKeyType → Keys → Prop where
  | known {key : PublicKeyType} : ks.orderKeys.lookup account = some key → OrderKeyOf account ks key ks
  | generated {key : PublicKeyType} {db : WalletDb} {name : Str} :
      ks.db.lookupAccount account = some name → w.getNewPublicKey name ks.db = .ok (key, db) →
      OrderKeyOf account ks key ⟨ks.orderKeys.insert account key, db⟩

/-- An amount drawn on a balance that belongs to an account, by the wallet's database. -/
structure Draws (db : WalletDb) (account : Address) (assetId : AssetIdType)
    (draw : BalanceEntry × ShareType) : Prop where
  owned : ∃ name, db.lookupAccount account = some name ∧ w.spender db draw.1 = some name
  asset : draw.1.getSpendableBalance.assetId = assetId
  positive : 0 < draw.2
  covered : draw.2 ≤ draw.1.getSpendableBalance.amount

/-- Withdrawals from balances of an account, each drawn on once, that add up to an amount. -/
structure Drawn (db : WalletDb) (account : Address) (assetId : AssetIdType) (amount : ℤ)
    (draws : List (BalanceEntry × ShareType)) : Prop where
  found : (draws.map Prod.fst).Sublist w.balanceEntrys
  each : ∀ draw ∈ draws, Draws w db account assetId draw
  sum : (draws.map fun draw => draw.2.toInt).sum = amount

def withdrawals (draws : List (BalanceEntry × ShareType)) : List Movement :=
  draws.map fun draw => .withdrawn (w.primitives.balanceId draw.1) draw.2

/-- What settles an outstanding balance, from some keys to others. -/
inductive Settles (k : BalanceKey) (ks : Keys) : ShareType → List Movement → Keys → Prop where
  | nothing : Settles k ks 0 [] ks
  | deposit {v : ShareType} {key : PublicKeyType} {ks' : Keys} : 0 < v →
      OrderKeyOf w (accountOf k) ks key ks' →
      Settles k ks v [.deposited (w.primitives.address key) ⟨v, assetOf k⟩] ks'
  | withdraw {v : ShareType} {draws : List (BalanceEntry × ShareType)} : v < 0 →
      Drawn w ks.db (accountOf k) (assetOf k) (-v.toInt) draws →
      Settles k ks v (withdrawals w draws) ks

/-- What settles outstanding balances one after the other. -/
inductive SettlesAll : Keys → List (BalanceKey × ShareType) → List Movement → Keys → Prop where
  | nil {ks : Keys} : SettlesAll ks [] [] ks
  | cons {e : BalanceKey × ShareType} {l : List (BalanceKey × ShareType)} {added rest : List Movement}
      {ks ks₁ ks' : Keys} : Settles w e.1 ks e.2 added ks₁ → SettlesAll ks₁ l rest ks' →
      SettlesAll ks (e :: l) (added ++ rest) ks'

/-- The fee that is paid. -/
def theFee : Asset := w.getTransactionFee 0

/-- The fee lowers the balances of its asset, by the fee in total, and no other balance. -/
structure FairFee (m m' : OrdMap BalanceKey ShareType) : Prop where
  others : ∀ account assetId, assetId ≠ (theFee w).assetId →
    value m' account assetId = value m account assetId
  paid : totalIn (theFee w).assetId m' = totalIn (theFee w).assetId m - (theFee w).amount.toInt
  lowered : ∀ account, value m' account (theFee w).assetId ≤ value m account (theFee w).assetId

/-- Every account is settled on its own, and only a fair fee changes what it settles. -/
structure Balanced (payFee : Bool) (s s' : Session) : Prop where
  settled : ∃ added,
    SettlesAll w (keysOf s) s'.builder.outstandingBalances.entries added (keysOf s') ∧
      movements s'.builder = movements s.builder ++ added
  fee : if payFee then FairFee w s.builder.outstandingBalances s'.builder.outstandingBalances
    else s'.builder.outstandingBalances = s.builder.outstandingBalances

/-! ## Settling the balances -/

variable {w} {s s' : Session}

/-- Movements are added to the transaction, and the outstanding balances stay. -/
structure Adds (s s' : Session) (added : List Movement) : Prop where
  outstanding : s'.builder.outstandingBalances = s.builder.outstandingBalances
  movements : movements s'.builder = movements s.builder ++ added

namespace Adds

theorem refl (s : Session) : Adds s s [] := ⟨rfl, (List.append_nil _).symm⟩

theorem trans {s'' : Session} {added added' : List Movement} (h : Adds s s' added)
    (h' : Adds s' s'' added') : Adds s s'' (added ++ added') where
  outstanding := h'.outstanding.trans h.outstanding
  movements := by rw [h'.movements, h.movements, List.append_assoc]

end Adds

theorem withdraw_adds {id : BalanceIdType} {amount : ShareType}
    (h : withdraw id amount s = .ok () s') :
    0 < amount ∧ keysOf s' = keysOf s ∧ Adds s s' [.withdrawn id amount] := by
  unfold withdraw at h
  split_ifs at h with hpos
  · obtain rfl := (EStateM.Result.ok.inj h).2
    exact ⟨hpos, rfl, rfl, List.filterMap_append ..⟩
  · exact (nomatch h)

theorem deposit_adds {owner : Address} {amount : Asset} (h : deposit owner amount s = .ok () s') :
    0 < amount.amount ∧ keysOf s' = keysOf s ∧ Adds s s' [.deposited owner amount] := by
  unfold deposit at h
  split_ifs at h with hpos
  · obtain rfl := (EStateM.Result.ok.inj h).2
    exact ⟨hpos, rfl, rfl, List.filterMap_append ..⟩
  · exact (nomatch h)

theorem requireSignature_adds {owner : Address} (h : requireSignature owner s = .ok () s') :
    keysOf s' = keysOf s ∧ Adds s s' [] := by
  obtain rfl := (EStateM.Result.ok.inj h).2
  exact ⟨rfl, rfl, (List.append_nil _).symm⟩

theorem orderKeyForAccount_adds {account : Address} {name : Str} {key : PublicKeyType}
    (hname : s.db.lookupAccount account = some name)
    (h : orderKeyForAccount w account name s = .ok key s') :
    OrderKeyOf w account (keysOf s) key (keysOf s') ∧ Adds s s' [] := by
  unfold orderKeyForAccount at h
  split at h
  · split at h
    · exact (nomatch h)
    · next key' db hnew =>
      obtain ⟨rfl, rfl⟩ := EStateM.Result.ok.inj h
      exact ⟨.generated hname hnew, rfl, (List.append_nil _).symm⟩
  · next key' hknown =>
    obtain ⟨rfl, rfl⟩ := EStateM.Result.ok.inj h
    refine ⟨?_, .refl s⟩
    cases hlookup : s.builder.orderKeys.lookup account with
    | none =>
      rw [hlookup] at hknown
      exact absurd rfl hknown
    | some key => exact .known hlookup

/-- The balances seen are listed under the accounts they belong to, each once. -/
def Listed (w : WalletImpl) (db : WalletDb) (seen : List BalanceEntry)
    (balances : Tab Str (List BalanceEntry)) : Prop :=
  ∀ name entrys, balances.lookup name = some entrys →
    entrys.Sublist seen ∧ ∀ entry ∈ entrys, w.spender db entry = some name

theorem Listed.scanBalance {db : WalletDb} {seen : List BalanceEntry}
    {balances : Tab Str (List BalanceEntry)} (h : Listed w db seen balances) (accountName : Str)
    (entry : BalanceEntry) :
    Listed w db (seen ++ [entry]) (w.scanBalance db accountName balances entry) := by
  have hkeep : Listed w db (seen ++ [entry]) balances := fun name entrys hlookup =>
    ⟨(h name entrys hlookup).1.trans (List.sublist_append_left ..), (h name entrys hlookup).2⟩
  unfold WalletImpl.scanBalance
  split
  · exact hkeep
  · next name hspender =>
    split_ifs
    · exact hkeep
    · intro name' entrys hlookup
      by_cases heq : name' = name
      · subst heq
        rw [Finmap.lookup_insert] at hlookup
        obtain rfl := Option.some.inj hlookup
        have hbefore : ((balances.lookup name').getD []).Sublist seen ∧
            ∀ e ∈ (balances.lookup name').getD [], w.spender db e = some name' := by
          cases hold : balances.lookup name' with
          | none => simp
          | some entrys => exact h name' entrys hold
        refine ⟨hbefore.1.append (List.Sublist.refl _), List.forall_mem_append.2 ⟨hbefore.2, ?_⟩⟩
        exact List.forall_mem_singleton.2 hspender
      · rw [Finmap.lookup_insert_of_ne _ heq] at hlookup
        exact hkeep name' entrys hlookup

theorem listed_foldl (db : WalletDb) (accountName : Str) (entrys : List BalanceEntry) :
    Listed w db entrys (entrys.foldl (w.scanBalance db accountName) ∅) := by
  induction entrys using List.reverseRecOn with
  | nil =>
    intro name entrys h
    rw [List.foldl_nil, Finmap.lookup_empty] at h
    exact (nomatch h)
  | append_singleton entrys entry ih =>
    rw [List.foldl_append]
    exact ih.scanBalance accountName entry

/-- Where the loop over an account's balances succeeds, it has withdrawn exactly the amount. -/
theorem withdrawFrom_adds {db : WalletDb} {account : Address} {name : Str}
    (hname : db.lookupAccount account = some name) :
    ∀ {entrys : List BalanceEntry} {amount : Asset} {s s' : Session},
      (∀ entry ∈ entrys, w.spender db entry = some name) →
      withdrawFrom w entrys amount s = .ok true s' →
      keysOf s' = keysOf s ∧ ∃ draws, (draws.map Prod.fst).Sublist entrys ∧
        (∀ draw ∈ draws, Draws w db account amount.assetId draw) ∧
        (draws.map fun draw => draw.2.toInt).sum = amount.amount.toInt ∧
        Adds s s' (withdrawals w draws) := by
  intro entrys
  induction entrys with
  | nil => exact fun _ h => absurd (EStateM.Result.ok.inj h).1 Bool.false_ne_true
  | cons entry entrys ih =>
    intro amount s s' hentrys h
    obtain ⟨howned, hrest⟩ := List.forall_mem_cons.1 hentrys
    have hskipped (h : withdrawFrom w entrys amount s = .ok true s') :
        keysOf s' = keysOf s ∧ ∃ draws, (draws.map Prod.fst).Sublist (entry :: entrys) ∧
          (∀ draw ∈ draws, Draws w db account amount.assetId draw) ∧
          (draws.map fun draw => draw.2.toInt).sum = amount.amount.toInt ∧
          Adds s s' (withdrawals w draws) := by
      obtain ⟨hkeys, draws, hsublist, hdraws⟩ := ih hrest h
      exact ⟨hkeys, draws, hsublist.cons entry, hdraws⟩
    rw [withdrawFrom] at h
    by_cases hskip : entry.getSpendableBalance.amount ≤ 0 ∨
        entry.getSpendableBalance.assetId ≠ amount.assetId
    · rw [if_pos hskip] at h
      exact hskipped h
    · rw [if_neg hskip] at h
      obtain ⟨-, hasset⟩ := not_or.1 hskip
      cases howner : entry.owner with
      | none =>
        simp only [howner] at h
        exact hskipped h
      | some owner =>
        simp only [howner] at h
        split_ifs at h with hless
        · -- the whole balance is withdrawn and more is needed
          obtain ⟨_, s₁, hwithdraw, h⟩ := bind_returns.1 h
          obtain ⟨_, s₂, hsignature, h⟩ := bind_returns.1 h
          obtain ⟨hpos, hkeys₁, hadds₁⟩ := withdraw_adds hwithdraw
          obtain ⟨hkeys₂, hadds₂⟩ := requireSignature_adds hsignature
          cases hsub : Checked.sub? amount.amount entry.getSpendableBalance.amount with
          | none =>
            rw [hsub] at h
            exact (nomatch h)
          | some left =>
            rw [hsub] at h
            obtain ⟨hkeys₃, draws, hsublist, hdraws, hsum, hadds₃⟩ := ih hrest h
            refine ⟨hkeys₃.trans (hkeys₂.trans hkeys₁),
              (entry, entry.getSpendableBalance.amount) :: draws, hsublist.cons_cons entry, ?_, ?_,
              (hadds₁.trans hadds₂).trans hadds₃⟩
            · exact List.forall_mem_cons.2
                ⟨⟨⟨name, hname, howned⟩, not_not.1 hasset, hpos, Int64.le_refl _⟩, hdraws⟩
            · rw [List.map_cons, List.sum_cons, hsum, Checked.sub?_toInt hsub]
              exact add_sub_cancel ..
        · -- the rest of the amount is withdrawn
          obtain ⟨_, s₁, hwithdraw, h⟩ := bind_returns.1 h
          obtain ⟨_, s₂, hsignature, h⟩ := bind_returns.1 h
          obtain ⟨hpos, hkeys₁, hadds₁⟩ := withdraw_adds hwithdraw
          obtain ⟨hkeys₂, hadds₂⟩ := requireSignature_adds hsignature
          obtain rfl := (EStateM.Result.ok.inj h).2
          refine ⟨hkeys₂.trans hkeys₁, [(entry, amount.amount)],
            (List.nil_sublist entrys).cons_cons entry, ?_, ?_, hadds₁.trans hadds₂⟩
          · exact List.forall_mem_singleton.2
              ⟨⟨name, hname, howned⟩, not_not.1 hasset, hpos, Int64.not_lt.1 hless⟩
          · rw [List.map_singleton, List.sum_singleton]

theorem withdrawToTransaction_adds {amount : Asset} {account : Address} {name : Str}
    (hname : s.db.lookupAccount account = some name)
    (h : withdrawToTransaction w amount name s = .ok () s') :
    keysOf s' = keysOf s ∧ ∃ draws, Drawn w s.db account amount.assetId amount.amount.toInt draws ∧
      Adds s s' (withdrawals w draws) := by
  unfold withdrawToTransaction at h
  split_ifs at h
  · exact (nomatch h)
  · rw [get_bind] at h
    cases hentrys : (w.getSpendableAccountBalanceEntrys s.db name).lookup name with
    | none =>
      rw [hentrys] at h
      exact (nomatch h)
    | some entrys =>
      rw [hentrys] at h
      obtain ⟨found, s₁, hloop, h⟩ := bind_returns.1 h
      cases found with
      | false => exact (nomatch h)
      | true =>
        obtain rfl := (EStateM.Result.ok.inj h).2
        obtain ⟨hlisted, howned⟩ := listed_foldl s.db name w.balanceEntrys name entrys hentrys
        obtain ⟨hkeys, draws, hsublist, hdraws, hsum, hadds⟩ := withdrawFrom_adds hname howned hloop
        exact ⟨hkeys, draws, ⟨hsublist.trans hlisted, hdraws, hsum⟩, hadds⟩

theorem Drawn.nonneg {db : WalletDb} {account : Address} {assetId : AssetIdType} {amount : ℤ}
    {draws : List (BalanceEntry × ShareType)} (h : Drawn w db account assetId amount draws) :
    0 ≤ amount := by
  rw [← h.sum]
  refine List.sum_nonneg fun x hx => ?_
  obtain ⟨draw, hdraw, rfl⟩ := List.mem_map.1 hx
  exact (Int64.lt_iff_toInt_lt.1 (h.each draw hdraw).positive).le

/-- The least number, whose negation is itself, is never withdrawn. -/
theorem toInt_neg_of_nonneg {v : ShareType} (hv : v < 0) (h : 0 ≤ (-v).toInt) :
    (-v).toInt = -v.toInt := by
  have hneg : v.toInt < 0 := Int64.lt_iff_toInt_lt.1 hv
  have hbounds := Checked.toInt_bounds v
  rw [Int64.toInt_neg] at h ⊢
  by_cases hmin : v.toInt = -2 ^ 63
  · rw [hmin] at h
    exact absurd h (by decide)
  · exact Checked.bmod_of_bounds (by omega) (by omega)

/-- An outstanding balance is settled exactly. -/
theorem settle_adds {e : BalanceKey × ShareType} (h : settle w e s = .ok () s') :
    ∃ added, Settles w e.1 (keysOf s) e.2 added (keysOf s') ∧ Adds s s' added := by
  unfold settle at h
  rw [get_bind] at h
  cases hname : s.db.lookupAccount (accountOf e.1) with
  | none =>
    rw [hname] at h
    exact (nomatch h)
  | some name =>
    rw [hname] at h
    split_ifs at h with hpos hneg
    · obtain ⟨key, s₁, hkey, h⟩ := bind_returns.1 h
      obtain ⟨hof, hadds₁⟩ := orderKeyForAccount_adds hname hkey
      obtain ⟨-, hkeys, hadds₂⟩ := deposit_adds h
      exact ⟨_, .deposit hpos (hkeys ▸ hof), hadds₁.trans hadds₂⟩
    · obtain ⟨hkeys, draws, hdrawn, hadds⟩ := withdrawToTransaction_adds hname h
      rw [toInt_neg_of_nonneg hneg hdrawn.nonneg] at hdrawn
      rw [hkeys]
      exact ⟨_, .withdraw hneg hdrawn, hadds⟩
    · obtain rfl := (EStateM.Result.ok.inj h).2
      have hzero : e.2 = 0 := Int64.le_antisymm (Int64.not_lt.1 hpos) (Int64.not_lt.1 hneg)
      exact ⟨[], hzero ▸ .nothing, .refl s⟩

theorem settleAll_adds : ∀ {l : List (BalanceKey × ShareType)} {s s' : Session},
    settleAll w l s = .ok () s' →
      ∃ added, SettlesAll w (keysOf s) l added (keysOf s') ∧ Adds s s' added := by
  intro l
  induction l with
  | nil =>
    intro s s' h
    obtain rfl := (EStateM.Result.ok.inj h).2
    exact ⟨[], .nil, .refl s⟩
  | cons e l ih =>
    intro s s' h
    obtain ⟨_, s₁, hfirst, hothers⟩ := bind_returns.1 h
    obtain ⟨added, hsettles, hadds⟩ := settle_adds hfirst
    obtain ⟨rest, hrest, hadds'⟩ := ih hothers
    exact ⟨added ++ rest, .cons hsettles hrest, hadds.trans hadds'⟩

/-! ## Paying the fee -/

/-- What the balances of an asset before its first negative one add up to. -/
def coverage (assetId : AssetIdType) : List (BalanceKey × ShareType) → ℤ
  | [] => 0
  | e :: l =>
    if assetOf e.1 ≠ assetId then coverage assetId l
    else if e.2 < 0 then 0
    else e.2.toInt + coverage assetId l

theorem coverage_nonneg (assetId : AssetIdType) :
    ∀ l : List (BalanceKey × ShareType), 0 ≤ coverage assetId l
  | [] => le_refl 0
  | e :: l => by
    have ih := coverage_nonneg assetId l
    rw [coverage]
    split_ifs with hother hneg
    · exact ih
    · exact le_refl 0
    · have hv : 0 ≤ e.2.toInt := Int64.le_iff_toInt_le.1 (Int64.not_lt.1 hneg)
      omega

/-- A balance that paying a fee in an asset only lowers, and only in that asset. -/
structure Lowered (assetId : AssetIdType) (k : BalanceKey) (v v' : ShareType) : Prop where
  le : v'.toInt ≤ v.toInt
  other : assetOf k ≠ assetId → v' = v

def listTotal (assetId : AssetIdType) (l : List (BalanceKey × ShareType)) : ℤ :=
  (l.map fun e => inAsset assetId e.1 e.2).sum

/-- Where the balances before the first negative one cover the fee, they are lowered by it. -/
theorem payFrom_of_covered {assetId : AssetIdType} :
    ∀ {l : List (BalanceKey × ShareType)} {required : ShareType}, 0 < required.toInt →
      required.toInt ≤ coverage assetId l →
      List.Forall₂ (fun e e' => e'.1 = e.1 ∧ Lowered assetId e.1 e.2 e'.2) l
          (payFrom assetId l required).1 ∧
        listTotal assetId (payFrom assetId l required).1 =
          listTotal assetId l - required.toInt := by
  intro l
  induction l with
  | nil => exact fun hpos hcover => absurd hcover (by rw [coverage]; omega)
  | cons e l ih =>
    intro required hpos hcover
    rw [coverage] at hcover
    rw [payFrom]
    unfold listTotal at ih ⊢
    by_cases hother : assetOf e.1 ≠ assetId
    · rw [if_pos hother] at hcover ⊢
      obtain ⟨hrel, htotal⟩ := ih hpos hcover
      refine ⟨.cons ⟨rfl, le_refl _, fun _ => rfl⟩ hrel, ?_⟩
      rw [List.map_cons, List.sum_cons, List.map_cons, List.sum_cons, htotal]
      omega
    · rw [if_neg hother] at hcover ⊢
      have hasset := not_not.1 hother
      split_ifs at hcover with hneg
      · omega
      have hv : 0 ≤ e.2.toInt := Int64.le_iff_toInt_le.1 (Int64.not_lt.1 hneg)
      have hbounds := Checked.toInt_bounds required
      have hbounds' := Checked.toInt_bounds e.2
      split_ifs with hless
      · -- the balance is used up
        have hlt : e.2.toInt < required.toInt := Int64.lt_iff_toInt_lt.1 hless
        have hleft : (required - e.2).toInt = required.toInt - e.2.toInt :=
          Checked.toInt_sub_of_bounds (by omega) (by omega)
        obtain ⟨hrel, htotal⟩ := @ih (required - e.2) (by omega) (by omega)
        refine ⟨.cons ⟨rfl, hv, fun h => absurd hasset h⟩ hrel, ?_⟩
        rw [List.map_cons, List.sum_cons, List.map_cons, List.sum_cons, htotal, hleft, inAsset,
          inAsset, if_pos hasset, if_pos hasset]
        show (0 : ℤ) + _ = _
        omega
      · -- the balance covers what is left
        have hge : required.toInt ≤ e.2.toInt := Int64.le_iff_toInt_le.1 (Int64.not_lt.1 hless)
        have hleft : (e.2 - required).toInt = e.2.toInt - required.toInt :=
          Checked.toInt_sub_of_bounds (by omega) (by omega)
        refine ⟨.cons ⟨rfl, ?_, fun h => absurd hasset h⟩
          (List.forall₂_same.2 fun _ _ => ⟨rfl, le_refl _, fun _ => rfl⟩), ?_⟩
        · rw [hleft]
          omega
        · rw [List.map_cons, List.sum_cons, List.map_cons, List.sum_cons, inAsset, inAsset,
            if_pos hasset, if_pos hasset, hleft]
          omega

/-- Where they do not cover it, the first negative balance is used up as well: its account's debt is
gone. -/
theorem payFrom_of_uncovered {assetId : AssetIdType} :
    ∀ {l : List (BalanceKey × ShareType)} {required : ShareType}, 0 < required.toInt →
      coverage assetId l < required.toInt → (payFrom assetId l required).2 = true →
      ∃ k v, (k, v) ∈ l ∧ assetOf k = assetId ∧ v.toInt < 0 ∧
        (k, 0) ∈ (payFrom assetId l required).1 := by
  intro l
  induction l with
  | nil => exact fun _ _ h => absurd h Bool.false_ne_true
  | cons e l ih =>
    intro required hpos hcover hpaid
    rw [coverage] at hcover
    rw [payFrom] at hpaid ⊢
    by_cases hother : assetOf e.1 ≠ assetId
    · rw [if_pos hother] at hcover hpaid ⊢
      obtain ⟨k, v, hmem, hasset, hv, hzero⟩ := ih hpos hcover hpaid
      exact ⟨k, v, List.mem_cons_of_mem _ hmem, hasset, hv, List.mem_cons_of_mem _ hzero⟩
    · rw [if_neg hother] at hcover hpaid ⊢
      have hasset := not_not.1 hother
      have hbounds := Checked.toInt_bounds required
      split_ifs at hcover with hneg
      · have hv : e.2.toInt < 0 := Int64.lt_iff_toInt_lt.1 hneg
        rw [if_pos (Int64.lt_iff_toInt_lt.2 (by omega))]
        exact ⟨e.1, e.2, List.mem_cons_self .., hasset, hv, List.mem_cons_self ..⟩
      have hv : 0 ≤ e.2.toInt := Int64.le_iff_toInt_le.1 (Int64.not_lt.1 hneg)
      have hcoverage := coverage_nonneg assetId l
      have hless : e.2 < required := Int64.lt_iff_toInt_lt.2 (by omega)
      rw [if_pos hless] at hpaid ⊢
      have hleft : (required - e.2).toInt = required.toInt - e.2.toInt :=
        Checked.toInt_sub_of_bounds (by omega) (by omega)
      obtain ⟨k, v, hmem, hk, hneg', hzero⟩ := @ih (required - e.2) (by omega)
        (by omega) hpaid
      exact ⟨k, v, List.mem_cons_of_mem _ hmem, hk, hneg', List.mem_cons_of_mem _ hzero⟩

theorem theFee_valid (w : WalletImpl) : 0 < (theFee w).amount.toInt ∧ (theFee w).assetId = 0 := by
  have h := (w.transactionFee.getD walletDefaultTransactionFee).valid
  refine ⟨?_, h.2⟩
  have hle : (1000 : Int64).toInt ≤ (theFee w).amount.toInt := Int64.le_iff_toInt_le.1 h.1
  exact lt_of_lt_of_le (by decide) hle

theorem recordFee_adds {fee : Asset} (h : recordFee w fee s = .ok () s') :
    keysOf s' = keysOf s ∧ Adds s s' [] := by
  unfold recordFee at h
  split at h
  · exact (nomatch h)
  · split_ifs at h
    · split at h
      · exact (nomatch h)
      · obtain rfl := (EStateM.Result.ok.inj h).2
        exact ⟨rfl, rfl, (List.append_nil _).symm⟩
    · obtain rfl := (EStateM.Result.ok.inj h).2
      exact ⟨rfl, rfl, (List.append_nil _).symm⟩

/-- What `pay_fee` leaves: the operations and the keys, with the fee taken from the outstanding balances
or charged to an account. -/
structure Pays (w : WalletImpl) (s s' : Session) : Prop where
  movements : movements s'.builder = movements s.builder
  keys : keysOf s' = keysOf s
  outstanding : match feeAsset w s.builder with
    | some _ =>
      (payFrom (theFee w).assetId s.builder.outstandingBalances.entries (theFee w).amount).2 = true ∧
        s'.builder.outstandingBalances.entries =
          (payFrom (theFee w).assetId s.builder.outstandingBalances.entries (theFee w).amount).1
    | none => ∃ payer, feePayer w s = some (payer, theFee w) ∧
        s'.builder.outstandingBalances = s.builder.outstandingBalances.modify
          (toLex (payer, (theFee w).assetId)) 0 (· - (theFee w).amount)

theorem feePayer_fee {payer : Address} {fee : Asset} (h : feePayer w s = some (payer, fee)) :
    fee = theFee w := by
  obtain ⟨item, -, hitem⟩ := List.exists_of_findSome?_eq_some h
  simp only at hitem
  split at hitem
  · exact (nomatch hitem)
  · split at hitem
    · exact (nomatch hitem)
    · obtain ⟨balance, -, hfee⟩ := Option.map_eq_some_iff.1 hitem
      exact (congrArg Prod.snd hfee).symm

theorem withdrawFee_pays (h : withdrawFee w s = .ok true s') :
    ∃ payer, feePayer w s = some (payer, theFee w) ∧
      movements s'.builder = movements s.builder ∧ keysOf s' = keysOf s ∧
      s'.builder.outstandingBalances = s.builder.outstandingBalances.modify
        (toLex (payer, (theFee w).assetId)) 0 (· - (theFee w).amount) := by
  unfold withdrawFee at h
  rw [get_bind] at h
  cases hpayer : feePayer w s with
  | none =>
    rw [hpayer] at h
    exact absurd (EStateM.Result.ok.inj h).1 Bool.false_ne_true
  | some found =>
    obtain ⟨payer, fee⟩ := found
    obtain rfl := feePayer_fee hpayer
    rw [hpayer] at h
    obtain ⟨_, s₁, hdeduct, h⟩ := bind_returns.1 h
    obtain ⟨_, s₂, hrecord, h⟩ := bind_returns.1 h
    obtain rfl := (EStateM.Result.ok.inj h).2
    obtain ⟨hkeys, hadds⟩ := recordFee_adds hrecord
    unfold deductBalance at hdeduct
    split_ifs at hdeduct
    · obtain rfl := (EStateM.Result.ok.inj hdeduct).2
      exact ⟨payer, rfl, hadds.movements.trans (List.append_nil _), hkeys, hadds.outstanding⟩
    · exact (nomatch hdeduct)

theorem payFee_pays (h : payFee w s = .ok () s') : Pays w s s' := by
  unfold payFee at h
  rw [get_bind] at h
  cases hasset : feeAsset w s.builder with
  | none =>
    rw [hasset] at h
    obtain ⟨found, s₁, hwithdraw, h⟩ := bind_returns.1 h
    cases found with
    | false => exact (nomatch h)
    | true =>
      obtain rfl := (EStateM.Result.ok.inj h).2
      obtain ⟨payer, hpayer, hmovements, hkeys, houtstanding⟩ := withdrawFee_pays hwithdraw
      refine ⟨hmovements, hkeys, ?_⟩
      rw [hasset]
      exact ⟨payer, hpayer, houtstanding⟩
  | some assetId =>
    rw [hasset] at h
    obtain ⟨_, s₁, hrecord₁, h⟩ := bind_returns.1 h
    have hne : (w.getTransactionFee assetId).assetId ≠ -1 := by
      show (theFee w).assetId ≠ -1
      rw [(theFee_valid w).2]
      decide
    rw [if_pos hne] at h
    obtain ⟨_, s₂, hrecord₂, h⟩ := bind_returns.1 h
    obtain ⟨hkeys₁, hadds₁⟩ := recordFee_adds hrecord₁
    obtain ⟨hkeys₂, hadds₂⟩ := recordFee_adds hrecord₂
    have houtstanding := hadds₂.outstanding.trans hadds₁.outstanding
    have hmovements := (hadds₁.trans hadds₂).movements
    rw [get_bind] at h
    obtain ⟨_, s₃, hmodify, h⟩ := bind_returns.1 h
    obtain rfl := (EStateM.Result.ok.inj hmodify).2
    split_ifs at h with hpaid
    · obtain rfl := (EStateM.Result.ok.inj h).2
      refine ⟨hmovements.trans (List.append_nil _), hkeys₂.trans hkeys₁, ?_⟩
      rw [hasset]
      rw [houtstanding] at hpaid
      refine ⟨hpaid, ?_⟩
      show (payFrom _ s₂.builder.outstandingBalances.entries _).1 = _
      rw [houtstanding]
      rfl
    · exact (nomatch h)

/-! ## When the fee is fair -/

/-- The fee is reached before the first negative balance of its asset where the outstanding balances
pay it, and an account that is charged with it can hold the debt. -/
def FeeFits (w : WalletImpl) (s : Session) : Prop :=
  match feeAsset w s.builder with
  | some _ =>
    (theFee w).amount.toInt ≤
      coverage (theFee w).assetId s.builder.outstandingBalances.entries
  | none => ∀ payer fee, feePayer w s = some (payer, fee) →
      -2 ^ 63 ≤ value s.builder.outstandingBalances payer fee.assetId - fee.amount.toInt

variable {m m' : OrdMap BalanceKey ShareType}

theorem fairFee_of_covered (hcover : (theFee w).amount.toInt ≤ coverage (theFee w).assetId m.entries)
    (hm' : m'.entries = (payFrom (theFee w).assetId m.entries (theFee w).amount).1) :
    FairFee w m m' := by
  obtain ⟨hrel, htotal⟩ := payFrom_of_covered (theFee_valid w).1 hcover
  rw [← hm'] at hrel htotal
  refine ⟨fun account assetId hne => ?_, htotal, fun account => ?_⟩
  · unfold value
    rcases OrdMap.lookup_rel hrel (toLex (account, assetId)) with ⟨h, h'⟩ | ⟨v, v', h, h', hlow⟩
    · rw [h, h']
    · rw [h, h', hlow.other hne]
  · unfold value
    rcases OrdMap.lookup_rel hrel (toLex (account, (theFee w).assetId)) with
      ⟨h, h'⟩ | ⟨v, v', h, h', hlow⟩
    · rw [h, h']
    · rw [h, h']
      exact hlow.le

theorem not_fairFee_of_uncovered
    (hcover : coverage (theFee w).assetId m.entries < (theFee w).amount.toInt)
    (hpaid : (payFrom (theFee w).assetId m.entries (theFee w).amount).2 = true)
    (hm' : m'.entries = (payFrom (theFee w).assetId m.entries (theFee w).amount).1) :
    ¬FairFee w m m' := by
  intro hfair
  obtain ⟨k, v, hmem, hasset, hneg, hzero⟩ :=
    payFrom_of_uncovered (theFee_valid w).1 hcover hpaid
  rw [← hm'] at hzero
  have hlow := hfair.lowered (accountOf k)
  have hk : toLex (accountOf k, (theFee w).assetId) = k := by
    rw [← hasset]
    rfl
  unfold value at hlow
  rw [hk, m.lookup_of_mem hmem, m'.lookup_of_mem hzero, Option.getD_some, Option.getD_some] at hlow
  exact absurd (lt_of_le_of_lt hlow hneg) (by decide)

/-- What an account holds after it was charged. -/
theorem value_charged (payer account : Address) (assetId assetId' : AssetIdType)
    (fee : ShareType) :
    value (m.modify (toLex (payer, assetId)) 0 (· - fee)) account assetId' =
      if account = payer ∧ assetId' = assetId then
        (((m.lookup (toLex (payer, assetId))).getD 0) - fee).toInt
      else value m account assetId' := by
  unfold value
  rw [OrdMap.lookup_modify]
  by_cases h : account = payer ∧ assetId' = assetId
  · rw [if_pos h, h.1, h.2, if_pos rfl, Option.getD_some]
  · have hne : toLex (account, assetId') ≠ toLex (payer, assetId) := by
      intro heq
      exact h (Prod.mk.inj (toLex.injective heq))
    rw [if_neg h, if_neg hne]

theorem fairFee_of_charged {payer : Address}
    (hfits : -2 ^ 63 ≤ value m payer (theFee w).assetId - (theFee w).amount.toInt) :
    FairFee w m (m.modify (toLex (payer, (theFee w).assetId)) 0 (· - (theFee w).amount)) := by
  have hfee := (theFee_valid w).1
  set v := (m.lookup (toLex (payer, (theFee w).assetId))).getD 0 with hv
  have hvalue : value m payer (theFee w).assetId = v.toInt := rfl
  rw [hvalue] at hfits
  have hbounds := Checked.toInt_bounds v
  have hcharged : (v - (theFee w).amount).toInt = v.toInt - (theFee w).amount.toInt :=
    Checked.toInt_sub_of_bounds hfits (by omega)
  refine ⟨fun account assetId hne => ?_, ?_, fun account => ?_⟩
  · rw [value_charged, if_neg fun h => hne h.2]
  · have hself : ∀ x : ShareType, inAsset (theFee w).assetId
        (toLex (payer, (theFee w).assetId)) x = x.toInt := fun _ => if_pos rfl
    unfold totalIn
    rw [OrdMap.sum_modify m _ (hself 0), hself, hself, ← hv, hcharged]
    omega
  · rw [value_charged]
    split_ifs with h
    · rw [← hv, hcharged, h.1, hvalue]
      omega
    · exact le_refl _

theorem not_fairFee_of_charged {payer : Address}
    (hfits : value m payer (theFee w).assetId - (theFee w).amount.toInt < -2 ^ 63) :
    ¬FairFee w m (m.modify (toLex (payer, (theFee w).assetId)) 0 (· - (theFee w).amount)) := by
  intro hfair
  have hlow := hfair.lowered payer
  rw [value_charged, if_pos ⟨rfl, rfl⟩] at hlow
  unfold value at hfits hlow
  set v := (m.lookup (toLex (payer, (theFee w).assetId))).getD 0
  have hbounds := Checked.toInt_bounds v
  have hbounds' := Checked.toInt_bounds (theFee w).amount
  rw [Int64.toInt_sub, Int.bmod_def] at hlow
  omega

/-- Paying the fee is fair exactly when the fee fits. -/
theorem Pays.fair_iff {s₁ : Session} (h : Pays w s s₁) :
    FairFee w s.builder.outstandingBalances s₁.builder.outstandingBalances ↔ FeeFits w s := by
  have houtstanding := h.outstanding
  unfold FeeFits
  cases hasset : feeAsset w s.builder with
  | some assetId =>
    rw [hasset] at houtstanding
    constructor
    · intro hfair
      by_contra hcover
      exact not_fairFee_of_uncovered (not_le.1 hcover) houtstanding.1 houtstanding.2 hfair
    · exact fun hcover => fairFee_of_covered hcover houtstanding.2
  | none =>
    rw [hasset] at houtstanding
    obtain ⟨payer, hpayer, hcharged⟩ := houtstanding
    rw [hcharged]
    constructor
    · intro hfair payer' fee' hpayer'
      obtain ⟨rfl, rfl⟩ := Prod.mk.inj (Option.some.inj (hpayer.symm.trans hpayer'))
      by_contra hfits
      exact not_fairFee_of_charged (not_le.1 hfits) hfair
    · exact fun hfits => fairFee_of_charged (hfits payer _ hpayer)

/-! ## Finalizing -/

theorem movement_setSlate (slateId : SlateIdType) (op : Operation) :
    movement (setSlate slateId op) = movement op := by
  cases op with
  | deposit op =>
    rw [setSlate]
    split_ifs <;> rfl
  | _ => rfl

theorem filterMap_setSlate (slateId : SlateIdType) (ops : List Operation) :
    (ops.map (setSlate slateId)).filterMap movement = ops.filterMap movement := by
  rw [List.filterMap_map]
  exact congrArg (fun f => ops.filterMap f) (funext (movement_setSlate slateId))

theorem setDelegateSlate_keeps {strategy : VoteStrategy}
    (h : setDelegateSlate w strategy s = .ok () s') :
    s'.builder.outstandingBalances = s.builder.outstandingBalances ∧
      movements s'.builder = movements s.builder ∧ keysOf s' = keysOf s := by
  unfold setDelegateSlate at h
  split_ifs at h
  · obtain rfl := (EStateM.Result.ok.inj h).2
    exact ⟨rfl, rfl, rfl⟩
  · split at h
    · exact (nomatch h)
    · next slate _ =>
      simp only at h
      split_ifs at h
      · obtain rfl := (EStateM.Result.ok.inj h).2
        exact ⟨rfl, rfl, rfl⟩
      · obtain rfl := (EStateM.Result.ok.inj h).2
        exact ⟨rfl, filterMap_setSlate .., rfl⟩
      · obtain rfl := (EStateM.Result.ok.inj h).2
        exact ⟨rfl, filterMap_setSlate _ (.defineSlate ⟨slate⟩ :: s.builder.trx.operations), rfl⟩

/-- What `finalize` does when it returns: the fee is paid, and all balances it leaves are settled. -/
theorem finalize_settles {payFee : Bool} {strategy : VoteStrategy}
    (h : finalize w payFee strategy s = .ok () s') :
    ∃ s₁, (if payFee then Pays w s s₁ else s₁ = s) ∧
      s'.builder.outstandingBalances = s₁.builder.outstandingBalances ∧
      ∃ added, SettlesAll w (keysOf s) s'.builder.outstandingBalances.entries added (keysOf s') ∧
        movements s'.builder = movements s.builder ++ added := by
  unfold finalize at h
  rw [get_bind] at h
  by_cases hempty : s.builder.trx.operations = []
  · rw [if_pos hempty] at h
    exact (nomatch h)
  rw [if_neg hempty] at h
  obtain ⟨_, s₁, hpay, h⟩ := bind_returns.1 h
  rw [get_bind] at h
  obtain ⟨_, s₂, hsettle, h⟩ := bind_returns.1 h
  obtain ⟨_, s₃, hexpiration, h⟩ := bind_returns.1 h
  obtain rfl := (EStateM.Result.ok.inj hexpiration).2
  obtain ⟨houtstanding, hmovements, hkeys⟩ := setDelegateSlate_keeps h
  have hpays : (if payFee then Pays w s s₁ else s₁ = s) := by
    cases payFee with
    | true => exact payFee_pays hpay
    | false => exact (EStateM.Result.ok.inj hpay).2.symm
  have hsame : keysOf s₁ = keysOf s ∧ movements s₁.builder = movements s.builder := by
    cases payFee with
    | true => exact ⟨hpays.keys, hpays.movements⟩
    | false => exact hpays ▸ ⟨rfl, rfl⟩
  obtain ⟨added, hsettles, hadds⟩ := settleAll_adds hsettle
  have hentries := houtstanding.trans hadds.outstanding
  refine ⟨s₁, hpays, hentries, added, ?_, ?_⟩
  · rw [hentries, hkeys, ← hsame.1]
    exact hsettles
  · exact hmovements.trans (hadds.movements.trans (congrArg (· ++ _) hsame.2))

/-- What a run of calls credits an account with in an asset, less what it deducts. -/
def owed (account : Address) (assetId : AssetIdType) : List BalanceCall → ShareType
  | [] => 0
  | .credit account' amount :: calls =>
    (if 0 ≤ amount.amount ∧ account = account' ∧ assetId = amount.assetId then amount.amount else 0) +
      owed account assetId calls
  | .deduct account' amount :: calls =>
    (if 0 ≤ amount.amount ∧ account = account' ∧ assetId = amount.assetId then -amount.amount
      else 0) + owed account assetId calls

def balanceOf (m : OrdMap BalanceKey ShareType) (account : Address) (assetId : AssetIdType) :
    ShareType := (m.lookup (toLex (account, assetId))).getD 0

theorem balanceOf_addTo (b : TransactionBuilder) (account account' : Address)
    (assetId assetId' : AssetIdType) (x : ShareType) :
    balanceOf (b.addTo account' assetId' (· + x)).outstandingBalances account assetId =
      balanceOf b.outstandingBalances account assetId +
        if account = account' ∧ assetId = assetId' then x else 0 := by
  unfold balanceOf addTo
  rw [OrdMap.lookup_modify]
  by_cases h : account = account' ∧ assetId = assetId'
  · rw [if_pos h, h.1, h.2, if_pos rfl, Option.getD_some]
  · have hne : toLex (account, assetId) ≠ toLex (account', assetId') := by
      intro heq
      exact h (Prod.mk.inj (toLex.injective heq))
    rw [if_neg h, if_neg hne, add_zero]

/-- A call changes the balance of its account and asset by its amount. -/
theorem afterCall_balanceOf (s : Session) (c : BalanceCall) (account : Address)
    (assetId : AssetIdType) :
    balanceOf (afterCall s c).builder.outstandingBalances account assetId =
      balanceOf s.builder.outstandingBalances account assetId + owed account assetId [c] := by
  unfold afterCall
  cases c with
  | credit account' amount =>
    rw [BalanceCall.make, creditBalance, owed, owed, add_zero]
    by_cases hamount : 0 ≤ amount.amount
    · rw [if_pos hamount]
      simp only [hamount, true_and]
      exact balanceOf_addTo ..
    · rw [if_neg hamount, if_neg fun h => hamount h.1, add_zero]
      rfl
  | deduct account' amount =>
    rw [BalanceCall.make, deductBalance, owed, owed, add_zero]
    by_cases hamount : 0 ≤ amount.amount
    · rw [if_pos hamount]
      simp only [hamount, true_and, sub_eq_add_neg]
      exact balanceOf_addTo ..
    · rw [if_neg hamount, if_neg fun h => hamount h.1, add_zero]
      rfl

theorem run_balanceOf (account : Address) (assetId : AssetIdType) :
    ∀ (calls : List BalanceCall) (s : Session),
      balanceOf (Traces.run afterCall s calls).builder.outstandingBalances account assetId =
        balanceOf s.builder.outstandingBalances account assetId + owed account assetId calls
  | [], s => (add_zero _).symm
  | c :: calls, s => by
    rw [Traces.run_cons, run_balanceOf account assetId calls, afterCall_balanceOf, add_assoc]
    refine congrArg (fun x => balanceOf s.builder.outstandingBalances account assetId + x) ?_
    cases c <;> rw [owed, owed, add_zero, owed]

/-- After any calls, the outstanding balances are what the calls credited less what they deducted, and
a `finalize` that returns settles every account on its own and takes a fair fee exactly when the fee
fits. -/
theorem finalize_balances_iff (w : WalletImpl) (s₀ : Session) (calls : List BalanceCall)
    (payFee : Bool) (strategy : VoteStrategy) {s' : Session}
    (h : finalize w payFee strategy (Traces.run afterCall s₀ calls) = .ok () s') :
    (∀ account assetId,
      balanceOf (Traces.run afterCall s₀ calls).builder.outstandingBalances account assetId =
        balanceOf s₀.builder.outstandingBalances account assetId + owed account assetId calls) ∧
    (Balanced w payFee (Traces.run afterCall s₀ calls) s' ↔
      (payFee = true → FeeFits w (Traces.run afterCall s₀ calls))) := by
  refine ⟨fun account assetId => run_balanceOf account assetId calls s₀, ?_⟩
  obtain ⟨s₁, hpays, houtstanding, hsettled⟩ := finalize_settles h
  cases payFee with
  | true =>
    have hfair := hpays.fair_iff
    rw [← houtstanding] at hfair
    exact ⟨fun hbalanced _ => hfair.1 hbalanced.fee, fun hfits => ⟨hsettled, hfair.2 (hfits rfl)⟩⟩
  | false =>
    refine ⟨fun _ hfalse => absurd hfalse Bool.false_ne_true, fun _ => ⟨hsettled, ?_⟩⟩
    exact houtstanding.trans (congrArg (fun s => s.builder.outstandingBalances) hpays)

/-! ## Two accounts -/

/-- A balance of 500 that key 3 can spend. -/
def spendable : BalanceEntry :=
  { (default : BalanceEntry) with condition := ⟨0, 0, .common, .signature 3 none⟩, balance := 500 }

/-- A wallet with two accounts and a balance on the chain. -/
def twoAccounts : WalletImpl where
  primitives := .plain
  keyText _ := []
  balanceEntrys := [spendable]
  transactionFee := none
  headBlockNum := 0
  getNewPublicKey _ db := .ok (9, db)
  getDelegateSlate _ := .ok []
  slateIsKnown _ := true
  now := 0
  transactionExpiration := 60

/-- Key 3 is one of account 2. -/
def newSession : Session where
  builder :=
    { trx := { SignedTransaction.empty with
        operations := [.imessageMemo ⟨[]⟩] }
      fee := 0
      requiredSignatures := ∅
      outstandingBalances := .empty
      orderKeys := ∅ }
  db := ⟨fun a => if a = 1 then some ['a'] else if a = 2 then some ['b'] else none,
    fun a => if a = 3 then some ⟨3, 2, true⟩ else none⟩

/-- The first account pays the fee, and the second owes 300. -/
theorem credited_account_pays :
    let s := Traces.run afterCall newSession [.credit 1 ⟨2000, 0⟩, .deduct 2 ⟨300, 0⟩]
    ∃ s', finalize twoAccounts true .voteNone s = .ok () s' ∧ Balanced twoAccounts true s s' ∧
      movements s'.builder =
        [.deposited 9 ⟨1000, 0⟩, .withdrawn (twoAccounts.primitives.balanceId spendable) 300] := by
  refine ⟨_, rfl, (finalize_balances_iff twoAccounts newSession [.credit 1 ⟨2000, 0⟩, .deduct 2 ⟨300, 0⟩]
    true .voteNone rfl).2.2 fun _ => ?_, rfl⟩
  show (1000 : Int64).toInt ≤ coverage 0 [(toLex (1, 0), 2000), (toLex (2, 0), -300)]
  decide

/-- The first account owes 100 and the second is owed 2000. The fee of 1000 uses up the debt first, and
the second account pays 1100. -/
theorem debt_charged_to_another_account :
    let s := Traces.run afterCall newSession [.deduct 1 ⟨100, 0⟩, .credit 2 ⟨2000, 0⟩]
    ∃ s', finalize twoAccounts true .voteNone s = .ok () s' ∧ ¬Balanced twoAccounts true s s' := by
  refine ⟨_, rfl, fun hbalanced => ?_⟩
  have hlow := hbalanced.fee.lowered 1
  revert hlow
  decide

end TransactionBuilder

end Achain.Wallet
