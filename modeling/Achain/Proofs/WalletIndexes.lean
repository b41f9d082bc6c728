import Achain.Proofs.PasswordChange
import Mathlib.Data.Int.ConditionallyCompleteOrder
import Mathlib.Order.ConditionallyCompleteLattice.Basic

/-!
# The indexes of the wallet's entries

Every index in use is below the one that is given out next, and the maps in memory agree with the file. Each
store of an entry keeps this where its index is free or has an entry of its kind.
-/

namespace Achain.Wallets

open Table Stateful

variable {PrivateKey ExtendedPrivateKey : Type} {c : Crypto PrivateKey ExtendedPrivateKey}

/-! ## The next index -/

/-- The number an entry gives, if it is the old property `next_record_number`. -/
def GenericWalletEntry.oldNumber : GenericWalletEntry → Option Int
  | .oldProperty e => if e.data.key = "next_record_number".toList then some e.data.value else none
  | _ => none

/-- The index that is given out next. -/
def nextIndex (w : WalletDb) : Int :=
  match w.getProperty .nextEntryNumber with
  | some v => WalletDb.toInt32 v
  | none => (WalletDb.oldNextNumber w.entrys).elim 2 WalletDb.toInt32

section NextIndex

variable {t t' : Tab Int GenericWalletEntry} {w w' : WalletDb}

theorem oldNextNumber_eq :
    WalletDb.oldNextNumber t = t.keys.sort.findSome? fun i => (t.lookup i).bind (·.oldNumber) := by
  unfold WalletDb.oldNextNumber
  congr 1
  funext i
  cases t.lookup i with
  | none => rfl
  | some g => cases g <;> rfl

theorem oldNextNumber_congr
    (h : ∀ i, (t.lookup i).bind (·.oldNumber) = (t'.lookup i).bind (·.oldNumber)) :
    WalletDb.oldNextNumber t = WalletDb.oldNextNumber t' := by
  have hnone : ∀ (t : Tab Int GenericWalletEntry), ∀ i ∉ t.keys,
      (t.lookup i).bind (·.oldNumber) = none := by
    intro t i hi
    rw [Finmap.lookup_eq_none.2 (mt Finmap.mem_keys.2 hi), Option.bind_none]
  rw [oldNextNumber_eq, oldNextNumber_eq, ← funext h]
  exact findSome?_sort_congr (hnone t) fun i hi => (h i).trans (hnone t' i hi)

theorem oldNextNumber_insert {i : Int} {g : GenericWalletEntry}
    (h : (t.lookup i).bind (·.oldNumber) = g.oldNumber) :
    WalletDb.oldNextNumber (t.insert i g) = WalletDb.oldNextNumber t := by
  refine oldNextNumber_congr fun j => ?_
  by_cases hj : j = i
  · rw [hj, Finmap.lookup_insert, h, Option.bind_some]
  · rw [Finmap.lookup_insert_of_ne _ hj]

theorem nextIndex_congr
    (hp : w'.properties.lookup .nextEntryNumber = w.properties.lookup .nextEntryNumber)
    (ho : WalletDb.oldNextNumber w'.entrys = WalletDb.oldNextNumber w.entrys) :
    nextIndex w' = nextIndex w := by
  unfold nextIndex WalletDb.getProperty
  rw [hp, ho]

theorem toInt32_of_bounds {v : Int} (hlow : -2 ^ 31 ≤ v) (hhigh : v < 2 ^ 31) : WalletDb.toInt32 v = v := by
  unfold WalletDb.toInt32
  exact Int.bmod_eq_of_le (by omega) (by omega)

end NextIndex

section OtherKinds

variable {t : Tab Int GenericWalletEntry} {i j : Int} {g new : GenericWalletEntry}

/-- An entry of another kind stays where an entry takes the place of one of its own kind. -/
theorem lookup_insert_other (hkind : ∀ g, t.lookup i = some g → g.type = new.type)
    (hg : t.lookup j = some g) (htype : g.type ≠ new.type) : (t.insert i new).lookup j = some g := by
  rw [Finmap.lookup_insert_of_ne, hg]
  rintro rfl
  exact htype (hkind g hg)

theorem lookup_of_insert_other (hg : (t.insert i new).lookup j = some g) (htype : g.type ≠ new.type) :
    t.lookup j = some g := by
  obtain ⟨-, rfl⟩ | ⟨-, hg⟩ := lookup_insert_eq_some hg
  · exact absurd rfl htype
  · exact hg

end OtherKinds

/-! ## Memory and file -/

/-- Memory agrees with the file, and the indexes in use are below the next. -/
structure Sound (c : Crypto PrivateKey ExtendedPrivateKey) (w : WalletDb) : Prop where
  master : ∀ e, w.walletMasterKey = some e → w.entrys.lookup (-1) = some (.masterKey e)
  storedMaster : ∀ i e, w.entrys.lookup i = some (.masterKey e) → i = -1 ∧ w.walletMasterKey = some e
  atMaster : ∀ g, w.entrys.lookup (-1) = some g → g.type = .masterKey
  key : ∀ a e, w.keys.lookup a = some e →
    e.data.getAddress c = a ∧ w.entrys.lookup e.walletEntryIndex = some (.key e)
  storedKey : ∀ i e, w.entrys.lookup i = some (.key e) →
    e.walletEntryIndex = i ∧ i ≠ 0 ∧ w.keys.lookup (e.data.getAddress c) = some e
  found : ∀ a e, w.keys.lookup a = some e → w.btcToAlpAddress.lookup a = some a
  own : ∀ key a, w.btcToAlpAddress.lookup (c.address key) = some a → a = c.address key
  account : ∀ i e, w.accounts.lookup i = some e →
    e.walletEntryIndex = i ∧ i ≠ 0 ∧ ∃ e', w.entrys.lookup i = some (.account e')
  owner : ∀ i e, w.accounts.lookup i = some e → (w.accountOf (e.data.ownerAddress c)).isSome
  property : ∀ id e, w.properties.lookup id = some e →
    e.walletEntryIndex ≠ 0 ∧ ∃ e', w.entrys.lookup e.walletEntryIndex = some (.property e')
  atFirst : ∀ g, w.entrys.lookup 1 = some g → g.type = .property
  below : ∀ i g, w.entrys.lookup i = some g → i < nextIndex w
  two_le : 2 ≤ nextIndex w

namespace Sound

variable {w : WalletDb} (h : Sound c w)

include h in
theorem nextWrite : Sound c w.nextWrite where
  master := h.master
  storedMaster := h.storedMaster
  atMaster := h.atMaster
  key := h.key
  storedKey := h.storedKey
  found := h.found
  own := h.own
  account := h.account
  owner := h.owner
  property := h.property
  atFirst := h.atFirst
  below := h.below
  two_le := h.two_le

include h in
/-- A key is looked up under its address alone. -/
theorem keyAt_address (key : PublicKeyType) : w.keyAt (c.address key) = w.keys.lookup (c.address key) := by
  unfold WalletDb.keyAt
  cases hb : w.btcToAlpAddress.lookup (c.address key) with
  | some a => rw [h.own key a hb, Option.bind_some]
  | none =>
    cases hk : w.keys.lookup (c.address key) with
    | none => rfl
    | some e =>
      rw [h.found _ e hk] at hb
      exact (nomatch hb)

/-! ### Keys -/

section Key

variable {e : WalletKeyEntry}

omit h in
theorem btc_storing_key (a : Address) : (w.storing c (.key e)).btcToAlpAddress.lookup a =
    if a ∈ WalletDb.derivedAddresses c e.data.publicKey then some (e.data.getAddress c)
    else w.btcToAlpAddress.lookup a := by
  have hfold : ∀ (l : List Address) (t : Tab Address Address) (v : Address),
      (l.foldl (fun t a => t.insert a v) t).lookup a = if a ∈ l then some v else t.lookup a := by
    intro l
    induction l with
    | nil => simp
    | cons b l ih =>
      intro t v
      rw [List.foldl_cons, ih]
      rcases eq_or_ne a b with rfl | hab
      · simp [Finmap.lookup_insert]
      · simp [hab, Finmap.lookup_insert_of_ne]
  exact hfold _ _ _

omit h in
theorem address_mem_derived {key key' : PublicKeyType} :
    c.address key ∈ WalletDb.derivedAddresses c key' ↔ key = key' := by
  simp [WalletDb.derivedAddresses, (c.ptsAddress_ne _ _ _ _).symm, c.address_injective.eq_iff]

/-- Where a key may be stored: under an index of its own, or in the place of the record at its address. -/
def KeySlot (c : Crypto PrivateKey ExtendedPrivateKey) (w : WalletDb) (e : WalletKeyEntry) : Prop :=
  (w.entrys.lookup e.walletEntryIndex = none ∧ 2 ≤ e.walletEntryIndex ∧
      e.walletEntryIndex < nextIndex w ∧ w.keys.lookup (e.data.getAddress c) = none) ∨
    ∃ e₀, w.keys.lookup (e.data.getAddress c) = some e₀ ∧ e₀.walletEntryIndex = e.walletEntryIndex

include h in
theorem keySlot_entry (hslot : KeySlot c w e) {g : GenericWalletEntry}
    (hg : w.entrys.lookup e.walletEntryIndex = some g) :
    ∃ e₀, g = .key e₀ ∧ w.keys.lookup (e.data.getAddress c) = some e₀ := by
  obtain ⟨hnone, -⟩ | ⟨e₀, he₀, hindex⟩ := hslot
  · rw [hnone] at hg
    exact (nomatch hg)
  · refine ⟨e₀, ?_, he₀⟩
    rw [← hindex, (h.key _ e₀ he₀).2, Option.some.injEq] at hg
    exact hg.symm

include h in
theorem keySlot_bounds (hslot : KeySlot c w e) :
    e.walletEntryIndex ≠ 0 ∧ e.walletEntryIndex ≠ 1 ∧ e.walletEntryIndex ≠ -1 ∧
      e.walletEntryIndex < nextIndex w := by
  obtain ⟨-, htwo, hlt, -⟩ | ⟨e₀, he₀, hindex⟩ := hslot
  · exact ⟨by omega, by omega, by omega, hlt⟩
  · have hstored := (h.key _ e₀ he₀).2
    rw [hindex] at hstored
    refine ⟨(h.storedKey _ _ hstored).2.1, fun h1 => ?_, fun h1 => ?_, h.below _ _ hstored⟩
    · exact WalletEntryTypeEnum.noConfusion (h.atFirst _ (h1 ▸ hstored))
    · exact WalletEntryTypeEnum.noConfusion (h.atMaster _ (h1 ▸ hstored))

include h in
theorem nextIndex_storing_key (hslot : KeySlot c w e) :
    nextIndex (w.storing c (.key e)) = nextIndex w := by
  refine nextIndex_congr rfl (oldNextNumber_insert ?_)
  change (w.entrys.lookup e.walletEntryIndex).bind _ = none
  cases hg : w.entrys.lookup e.walletEntryIndex with
  | none => rfl
  | some g =>
    obtain ⟨e₀, rfl, -⟩ := h.keySlot_entry hslot hg
    rfl

include h in
theorem storing_key (hslot : KeySlot c w e) : Sound c (w.storing c (.key e)) := by
  obtain ⟨hne0, hne1, hneM, hlt⟩ := h.keySlot_bounds hslot
  have hkind : ∀ g, w.entrys.lookup e.walletEntryIndex = some g → g.type = .key := by
    intro g hg
    obtain ⟨e₀, rfl, -⟩ := h.keySlot_entry hslot hg
    rfl
  refine
    { master := fun e' he' => lookup_insert_other hkind (h.master e' he') (nofun)
      storedMaster := fun i e' he' => h.storedMaster i e' (lookup_of_insert_other he' (nofun))
      atMaster := fun g hg => ?_
      key := fun a e' he' => ?_
      storedKey := fun i e' he' => ?_
      found := fun a e' he' => ?_
      own := fun key a ha => ?_
      account := fun i e' he' => ?_
      owner := h.owner
      property := fun id e' he' => ?_
      atFirst := fun g hg => ?_
      below := fun i g hg => ?_
      two_le := (h.nextIndex_storing_key hslot).symm ▸ h.two_le }
  · obtain ⟨hi, -⟩ | ⟨-, hg⟩ := lookup_insert_eq_some hg
    · exact absurd hi.symm hneM
    · exact h.atMaster g hg
  · obtain ⟨rfl, rfl⟩ | ⟨ha, he'⟩ := lookup_insert_eq_some he'
    · exact ⟨rfl, Finmap.lookup_insert _⟩
    · obtain ⟨haddress, hstored⟩ := h.key a e' he'
      refine ⟨haddress, (Finmap.lookup_insert_of_ne _ fun hi => ?_).trans hstored⟩
      rw [hi] at hstored
      obtain ⟨e₀, heq, he₀⟩ := h.keySlot_entry hslot hstored
      obtain rfl := GenericWalletEntry.key.inj heq
      exact ha (haddress.symm.trans (h.key _ _ he₀).1)
  · obtain ⟨rfl, heq⟩ | ⟨hi, he'⟩ := lookup_insert_eq_some he'
    · obtain rfl := GenericWalletEntry.key.inj heq
      exact ⟨rfl, hne0, Finmap.lookup_insert _⟩
    · obtain ⟨rfl, hi0, hkey⟩ := h.storedKey i e' he'
      refine ⟨rfl, hi0, (Finmap.lookup_insert_of_ne _ fun ha => ?_).trans hkey⟩
      rw [ha] at hkey
      obtain ⟨-, -, -, hnone⟩ | ⟨e₀, he₀, hindex₀⟩ := hslot
      · rw [hnone] at hkey
        exact (nomatch hkey)
      · rw [hkey, Option.some.injEq] at he₀
        exact hi (he₀ ▸ hindex₀)
  · rw [btc_storing_key]
    obtain ⟨rfl, rfl⟩ | ⟨ha, he'⟩ := lookup_insert_eq_some he'
    · exact if_pos (address_mem_derived.2 rfl)
    · have haddress := (h.key a e' he').1
      rw [if_neg, h.found a e' he']
      intro hmem
      rw [← haddress] at hmem ha
      exact ha (congrArg c.address (address_mem_derived.1 hmem))
  · rw [btc_storing_key] at ha
    split_ifs at ha with hmem
    · rw [address_mem_derived.1 hmem]
      exact (Option.some.inj ha).symm
    · exact h.own key a ha
  · obtain ⟨hi, hi0, e₁, he₁⟩ := h.account i e' he'
    exact ⟨hi, hi0, e₁, lookup_insert_other hkind he₁ (nofun)⟩
  · obtain ⟨hi0, e₁, he₁⟩ := h.property id e' he'
    exact ⟨hi0, e₁, lookup_insert_other hkind he₁ (nofun)⟩
  · obtain ⟨hi, -⟩ | ⟨-, hg⟩ := lookup_insert_eq_some hg
    · exact absurd hi.symm hne1
    · exact h.atFirst g hg
  · rw [h.nextIndex_storing_key hslot]
    obtain ⟨rfl, -⟩ | ⟨-, hg⟩ := lookup_insert_eq_some hg
    · exact hlt
    · exact h.below i g hg

end Key

/-! ### Accounts -/

section Account

variable {e : WalletAccountEntry}

/-- Where an account may be stored: under an index of its own, or that of an account. -/
def AccountSlot (w : WalletDb) (i : Int) : Prop :=
  (w.entrys.lookup i = none ∧ 2 ≤ i ∧ i < nextIndex w) ∨ (w.accounts.lookup i).isSome

include h in
theorem accountSlot_entry {i : Int} (hslot : AccountSlot w i) {g : GenericWalletEntry}
    (hg : w.entrys.lookup i = some g) : ∃ e₀, g = .account e₀ := by
  obtain ⟨hnone, -⟩ | hsome := hslot
  · rw [hnone] at hg
    exact (nomatch hg)
  · obtain ⟨e₀, he₀⟩ := Option.isSome_iff_exists.1 hsome
    obtain ⟨-, -, e₁, he₁⟩ := h.account i e₀ he₀
    rw [hg, Option.some.injEq] at he₁
    exact ⟨e₁, he₁⟩

include h in
theorem accountSlot_bounds {i : Int} (hslot : AccountSlot w i) :
    i ≠ 0 ∧ i ≠ 1 ∧ i ≠ -1 ∧ i < nextIndex w := by
  obtain ⟨-, htwo, hlt⟩ | hsome := hslot
  · exact ⟨by omega, by omega, by omega, hlt⟩
  · obtain ⟨e₀, he₀⟩ := Option.isSome_iff_exists.1 hsome
    obtain ⟨-, hi0, e₁, he₁⟩ := h.account i e₀ he₀
    refine ⟨hi0, fun h1 => ?_, fun h1 => ?_, h.below _ _ he₁⟩
    · exact WalletEntryTypeEnum.noConfusion (h.atFirst _ (h1 ▸ he₁))
    · exact WalletEntryTypeEnum.noConfusion (h.atMaster _ (h1 ▸ he₁))

include h in
theorem nextIndex_storing_account (hslot : AccountSlot w e.walletEntryIndex) :
    nextIndex (w.storing c (.account e)) = nextIndex w := by
  refine nextIndex_congr rfl (oldNextNumber_insert ?_)
  change (w.entrys.lookup e.walletEntryIndex).bind _ = none
  cases hg : w.entrys.lookup e.walletEntryIndex with
  | none => rfl
  | some g =>
    obtain ⟨e₀, rfl⟩ := h.accountSlot_entry hslot hg
    rfl

omit h in
theorem cacheAddresses_lookup {i : Int} {a : Address} (keys : List PublicKeyType) (t : Tab Address Int) :
    (WalletDb.cacheAddresses c i t keys).lookup a = some i ∨
      (WalletDb.cacheAddresses c i t keys).lookup a = t.lookup a := by
  induction keys generalizing t with
  | nil => exact .inr rfl
  | cons key keys ih =>
    unfold WalletDb.cacheAddresses at ih ⊢
    rw [List.foldl_cons]
    split_ifs with hkey
    · exact ih t
    · refine (ih _).elim .inl fun heq => ?_
      by_cases ha : a = c.address key
      · exact .inl (heq.trans (ha ▸ Finmap.lookup_insert _))
      · exact .inr (heq.trans (Finmap.lookup_insert_of_ne _ ha))

omit h in
theorem addresses_storing_account (a : Address) :
    (w.storing c (.account e)).addressToAccountWalletEntryIndex.lookup a = some e.walletEntryIndex ∨
      a ≠ e.data.ownerAddress c ∧
        (w.storing c (.account e)).addressToAccountWalletEntryIndex.lookup a =
          w.addressToAccountWalletEntryIndex.lookup a := by
  have hsigning := cacheAddresses_lookup (c := c) (i := e.walletEntryIndex) (a := a) e.data.signingKeys
    (WalletDb.cacheAddresses c e.walletEntryIndex
      (w.addressToAccountWalletEntryIndex.insert (e.data.ownerAddress c) e.walletEntryIndex)
      e.data.activeKeyHistory.keys)
  have hactive := cacheAddresses_lookup (c := c) (i := e.walletEntryIndex) (a := a)
    e.data.activeKeyHistory.keys
    (w.addressToAccountWalletEntryIndex.insert (e.data.ownerAddress c) e.walletEntryIndex)
  refine hsigning.elim .inl fun heq => hactive.elim (fun ha => .inl (heq.trans ha)) fun heq' => ?_
  by_cases ha : a = e.data.ownerAddress c
  · exact .inl (heq.trans (heq'.trans (ha ▸ Finmap.lookup_insert _)))
  · exact .inr ⟨ha, heq.trans (heq'.trans (Finmap.lookup_insert_of_ne _ ha))⟩

omit h in
/-- An address that leads to an account goes on leading to one. -/
theorem accountOf_storing_account (a : Address)
    (ha : (w.accountOf a).isSome ∨ a = e.data.ownerAddress c) :
    ((w.storing c (.account e)).accountOf a).isSome := by
  unfold WalletDb.accountOf WalletDb.accountAt at ha ⊢
  obtain hmap | ⟨hne, hmap⟩ := addresses_storing_account (c := c) (w := w) (e := e) a
  · rw [hmap]
    change ((w.accounts.insert e.walletEntryIndex e).lookup e.walletEntryIndex).isSome
    rw [Finmap.lookup_insert]
    rfl
  · obtain ⟨e₀, he₀⟩ := Option.isSome_iff_exists.1 (ha.resolve_right hne)
    obtain ⟨i, hi, he₀⟩ := Option.bind_eq_some_iff.1 he₀
    rw [hmap, hi]
    change ((w.accounts.insert e.walletEntryIndex e).lookup i).isSome
    by_cases hie : i = e.walletEntryIndex
    · rw [hie, Finmap.lookup_insert]
      rfl
    · rw [Finmap.lookup_insert_of_ne _ hie, he₀]
      rfl

include h in
theorem storing_account (hslot : AccountSlot w e.walletEntryIndex) :
    Sound c (w.storing c (.account e)) := by
  obtain ⟨hne0, hne1, hneM, hlt⟩ := h.accountSlot_bounds hslot
  have hkind : ∀ g, w.entrys.lookup e.walletEntryIndex = some g → g.type = .account := by
    intro g hg
    obtain ⟨e₀, rfl⟩ := h.accountSlot_entry hslot hg
    rfl
  refine
    { master := fun e' he' => lookup_insert_other hkind (h.master e' he') (nofun)
      storedMaster := fun i e' he' => h.storedMaster i e' (lookup_of_insert_other he' (nofun))
      atMaster := fun g hg => ?_
      key := fun a e' he' => (h.key a e' he').imp_right fun he' => lookup_insert_other hkind he' (nofun)
      storedKey := fun i e' he' => h.storedKey i e' (lookup_of_insert_other he' (nofun))
      found := h.found
      own := h.own
      account := fun i e' he' => ?_
      owner := fun i e' he' => accountOf_storing_account _ ?_
      property := fun id e' he' => ?_
      atFirst := fun g hg => ?_
      below := fun i g hg => ?_
      two_le := (h.nextIndex_storing_account hslot).symm ▸ h.two_le }
  · obtain ⟨hi, -⟩ | ⟨-, hg⟩ := lookup_insert_eq_some hg
    · exact absurd hi.symm hneM
    · exact h.atMaster g hg
  · obtain ⟨rfl, rfl⟩ | ⟨hi, he'⟩ := lookup_insert_eq_some he'
    · exact ⟨rfl, hne0, e', Finmap.lookup_insert _⟩
    · obtain ⟨hindex, hi0, e₁, he₁⟩ := h.account i e' he'
      exact ⟨hindex, hi0, e₁, (Finmap.lookup_insert_of_ne _ hi).trans he₁⟩
  · obtain ⟨rfl, rfl⟩ | ⟨hi, he'⟩ := lookup_insert_eq_some he'
    · exact .inr rfl
    · exact .inl (h.owner i e' he')
  · obtain ⟨hi0, e₁, he₁⟩ := h.property id e' he'
    exact ⟨hi0, e₁, lookup_insert_other hkind he₁ (nofun)⟩
  · obtain ⟨hi, -⟩ | ⟨-, hg⟩ := lookup_insert_eq_some hg
    · exact absurd hi.symm hne1
    · exact h.atFirst g hg
  · rw [h.nextIndex_storing_account hslot]
    obtain ⟨rfl, -⟩ | ⟨-, hg⟩ := lookup_insert_eq_some hg
    · exact hlt
    · exact h.below i g hg

end Account

/-! ### Properties, the master key and erased transactions -/

section Others

include h in
theorem storing_property {e : WalletPropertyEntry} (hi0 : e.walletEntryIndex ≠ 0)
    (hkind : ∀ g, w.entrys.lookup e.walletEntryIndex = some g → g.type = .property)
    (hlt : e.walletEntryIndex < nextIndex (w.storing c (.property e)))
    (hnext : nextIndex w ≤ nextIndex (w.storing c (.property e))) (hneM : e.walletEntryIndex ≠ -1) :
    Sound c (w.storing c (.property e)) := by
  refine
    { master := fun e' he' => lookup_insert_other hkind (h.master e' he') (nofun)
      storedMaster := fun i e' he' => h.storedMaster i e' (lookup_of_insert_other he' (nofun))
      atMaster := fun g hg => ?_
      key := fun a e' he' => (h.key a e' he').imp_right fun he' => lookup_insert_other hkind he' (nofun)
      storedKey := fun i e' he' => h.storedKey i e' (lookup_of_insert_other he' (nofun))
      found := h.found
      own := h.own
      account := fun i e' he' => ?_
      owner := h.owner
      property := fun id e' he' => ?_
      atFirst := fun g hg => ?_
      below := fun i g hg => ?_
      two_le := h.two_le.trans hnext }
  · obtain ⟨hi, -⟩ | ⟨-, hg⟩ := lookup_insert_eq_some hg
    · exact absurd hi.symm hneM
    · exact h.atMaster g hg
  · obtain ⟨hindex, hi0, e₁, he₁⟩ := h.account i e' he'
    exact ⟨hindex, hi0, e₁, lookup_insert_other hkind he₁ (nofun)⟩
  · obtain ⟨rfl, rfl⟩ | ⟨-, he'⟩ := lookup_insert_eq_some he'
    · exact ⟨hi0, e', Finmap.lookup_insert _⟩
    · obtain ⟨hi0', e₁, he₁⟩ := h.property id e' he'
      refine ⟨hi0', ?_⟩
      by_cases hi : e'.walletEntryIndex = e.walletEntryIndex
      · exact ⟨e, hi ▸ Finmap.lookup_insert _⟩
      · exact ⟨e₁, (Finmap.lookup_insert_of_ne _ hi).trans he₁⟩
  · obtain ⟨-, rfl⟩ | ⟨-, hg⟩ := lookup_insert_eq_some hg
    · rfl
    · exact h.atFirst g hg
  · obtain ⟨rfl, -⟩ | ⟨-, hg⟩ := lookup_insert_eq_some hg
    · exact hlt
    · exact (h.below i g hg).trans_le hnext

include h in
theorem storing_masterKey {m : MasterKey} : Sound c (w.storing c (.masterKey ⟨-1, m⟩)) ∧
    nextIndex (w.storing c (.masterKey ⟨-1, m⟩)) = nextIndex w := by
  have hkind : ∀ g, w.entrys.lookup (-1) = some g → g.type = .masterKey := h.atMaster
  have hnext : nextIndex (w.storing c (.masterKey ⟨-1, m⟩)) = nextIndex w := by
    refine nextIndex_congr rfl (oldNextNumber_insert ?_)
    change (w.entrys.lookup (-1)).bind _ = none
    cases hg : w.entrys.lookup (-1) with
    | none => rfl
    | some g =>
      have htype := hkind g hg
      cases g <;> first | rfl | exact WalletEntryTypeEnum.noConfusion htype
  refine ⟨?_, hnext⟩
  refine
    { master := fun e' he' => ?_
      storedMaster := fun i e' he' => ?_
      atMaster := fun g hg => ?_
      key := fun a e' he' => (h.key a e' he').imp_right fun he' => lookup_insert_other hkind he' (nofun)
      storedKey := fun i e' he' => h.storedKey i e' (lookup_of_insert_other he' (nofun))
      found := h.found
      own := h.own
      account := fun i e' he' => ?_
      owner := h.owner
      property := fun id e' he' => ?_
      atFirst := fun g hg => ?_
      below := fun i g hg => ?_
      two_le := hnext.symm ▸ h.two_le }
  · obtain rfl := Option.some.inj he'
    exact Finmap.lookup_insert _
  · obtain ⟨rfl, heq⟩ | ⟨hi, he'⟩ := lookup_insert_eq_some he'
    · obtain rfl := GenericWalletEntry.masterKey.inj heq
      exact ⟨rfl, rfl⟩
    · exact absurd (h.storedMaster i e' he').1 hi
  · obtain ⟨-, rfl⟩ | ⟨-, hg⟩ := lookup_insert_eq_some hg
    · rfl
    · exact h.atMaster g hg
  · obtain ⟨hindex, hi0, e₁, he₁⟩ := h.account i e' he'
    exact ⟨hindex, hi0, e₁, lookup_insert_other hkind he₁ (nofun)⟩
  · obtain ⟨hi0, e₁, he₁⟩ := h.property id e' he'
    exact ⟨hi0, e₁, lookup_insert_other hkind he₁ (nofun)⟩
  · obtain ⟨hi, -⟩ | ⟨-, hg⟩ := lookup_insert_eq_some hg
    · have h1 : (1 : Int) = -1 := hi
      exact absurd h1 (by decide)
    · exact h.atFirst g hg
  · rw [hnext]
    obtain ⟨rfl, -⟩ | ⟨-, hg⟩ := lookup_insert_eq_some hg
    · exact lt_of_lt_of_le (by decide : (-1 : Int) < 2) h.two_le
    · exact h.below i g hg

end Others

end Sound

/-! ## A new index -/

section Pruned

/-- The database without some of its transactions. -/
structure Pruned (w w' : WalletDb) : Prop where
  properties : w'.properties = w.properties
  walletMasterKey : w'.walletMasterKey = w.walletMasterKey
  accounts : w'.accounts = w.accounts
  keys : w'.keys = w.keys
  addresses : w'.addressToAccountWalletEntryIndex = w.addressToAccountWalletEntryIndex
  btc : w'.btcToAlpAddress = w.btcToAlpAddress
  sub : ∀ i g, w'.entrys.lookup i = some g → w.entrys.lookup i = some g
  kept : ∀ i g, w.entrys.lookup i = some g → g.type ≠ .transaction → w'.entrys.lookup i = some g

namespace Pruned

variable {w w' : WalletDb}

theorem refl : Pruned w w where
  properties := rfl
  walletMasterKey := rfl
  accounts := rfl
  keys := rfl
  addresses := rfl
  btc := rfl
  sub _ _ hg := hg
  kept _ _ hg _ := hg

theorem nextWrite (h : Pruned w w') : Pruned w w'.nextWrite := { h with }

theorem erase (h : Pruned w w') {i : Int} (hi : ∀ g, w.entrys.lookup i = some g → g.type = .transaction) :
    Pruned w { w'.nextWrite with entrys := w'.entrys.erase i } where
  properties := h.properties
  walletMasterKey := h.walletMasterKey
  accounts := h.accounts
  keys := h.keys
  addresses := h.addresses
  btc := h.btc
  sub j g hg := by
    have hj : j ≠ i := by
      rintro rfl
      rw [show (w'.entrys.erase j).lookup j = none from Finmap.lookup_erase _ _] at hg
      exact (nomatch hg)
    exact h.sub j g ((Finmap.lookup_erase_ne hj).symm.trans hg)
  kept j g hg htype := by
    have hj : j ≠ i := by
      rintro rfl
      exact htype (hi g hg)
    exact (Finmap.lookup_erase_ne hj).trans (h.kept j g hg htype)

theorem nextIndex_eq (h : Pruned w w') : nextIndex w' = nextIndex w := by
  refine nextIndex_congr (congrArg _ h.properties) (oldNextNumber_congr fun i => ?_)
  cases hg : w.entrys.lookup i with
  | none =>
    cases hg' : w'.entrys.lookup i with
    | none => rfl
    | some g' =>
      rw [h.sub i g' hg'] at hg
      exact (nomatch hg)
  | some g =>
    by_cases htype : g.type = .transaction
    · have hnone : g.oldNumber = none := by
        cases g <;> first | rfl | exact WalletEntryTypeEnum.noConfusion htype
      cases hg' : w'.entrys.lookup i with
      | none => exact hnone.symm
      | some g' =>
        rw [h.sub i g' hg', Option.some.injEq] at hg
        rw [hg]
    · rw [h.kept i g hg htype]

theorem sound (h : Pruned w w') (hw : Sound c w) : Sound c w' where
  master e he := h.kept _ _ (hw.master e (h.walletMasterKey ▸ he)) (nofun)
  storedMaster i e he := by
    rw [h.walletMasterKey]
    exact hw.storedMaster i e (h.sub _ _ he)
  atMaster g hg := hw.atMaster g (h.sub _ _ hg)
  key a e he := (hw.key a e (h.keys ▸ he)).imp_right fun he => h.kept _ _ he (nofun)
  storedKey i e he := by
    rw [h.keys]
    exact hw.storedKey i e (h.sub _ _ he)
  found a e he := by
    rw [h.btc]
    exact hw.found a e (h.keys ▸ he)
  own key a ha := hw.own key a (h.btc ▸ ha)
  account i e he := by
    obtain ⟨hi, hi0, e', he'⟩ := hw.account i e (h.accounts ▸ he)
    exact ⟨hi, hi0, e', h.kept _ _ he' (nofun)⟩
  owner i e he := by
    unfold WalletDb.accountOf WalletDb.accountAt
    rw [h.accounts, h.addresses]
    exact hw.owner i e (h.accounts ▸ he)
  property id e he := by
    obtain ⟨hi0, e', he'⟩ := hw.property id e (h.properties ▸ he)
    exact ⟨hi0, e', h.kept _ _ he' (nofun)⟩
  atFirst g hg := hw.atFirst g (h.sub _ _ hg)
  below i g hg := h.nextIndex_eq.symm ▸ hw.below i g (h.sub _ _ hg)
  two_le := h.nextIndex_eq.symm ▸ hw.two_le

end Pruned

end Pruned

section NewIndex

variable {w w' w'' : WalletDb}

/-- Nothing but numbers has changed, and some transactions are gone. -/
structure Renumbered (c : Crypto PrivateKey ExtendedPrivateKey) (w w' : WalletDb) : Prop where
  sound : Sound c w'
  keys : w'.keys = w.keys
  accounts : w'.accounts = w.accounts
  sub : ∀ i ≠ 1, ∀ g, w'.entrys.lookup i = some g → ∃ g₀, w.entrys.lookup i = some g₀ ∧ g₀.type = g.type
  next_le : nextIndex w ≤ nextIndex w'

namespace Renumbered

theorem of_pruned (h : Sound c w) (hp : Pruned w w') : Renumbered c w w' where
  sound := hp.sound h
  keys := hp.keys
  accounts := hp.accounts
  sub i _ g hg := ⟨g, hp.sub i g hg, rfl⟩
  next_le := hp.nextIndex_eq.ge

theorem nextWrite (h : Renumbered c w w') : Renumbered c w w'.nextWrite :=
  { h with sound := h.sound.nextWrite }

/-- The index is free. -/
theorem lookup_nextIndex (hw : Sound c w) (h : Renumbered c w w') :
    w'.entrys.lookup (nextIndex w) = none := by
  by_contra hsome
  obtain ⟨g, hg⟩ := Option.ne_none_iff_exists'.1 hsome
  have hne : nextIndex w ≠ 1 := by
    have htwo := hw.two_le
    omega
  obtain ⟨g₀, hg₀, -⟩ := h.sub _ hne g hg
  exact lt_irrefl _ (hw.below _ g₀ hg₀)

end Renumbered

theorem nextIndex_of_getProperty {v : Int} (h : w.getProperty .nextEntryNumber = some v) :
    nextIndex w = WalletDb.toInt32 v := by
  unfold nextIndex
  rw [h]

theorem nextIndex_of_none (h : w.getProperty .nextEntryNumber = none) :
    nextIndex w = (WalletDb.oldNextNumber w.entrys).elim 2 WalletDb.toInt32 := by
  unfold nextIndex
  rw [h]

theorem isTransaction_of_mem {t : Tab Int GenericWalletEntry} {i : Int}
    (hi : i ∈ WalletDb.transactionIndexes t) : ∀ g, t.lookup i = some g → g.type = .transaction := by
  intro g hg
  have htype := (List.mem_filter.1 hi).2
  rw [hg] at htype
  exact of_decide_eq_true htype

theorem firstIndex_leads (h : w.getProperty .nextEntryNumber = none) :
    Leads (fun i w' => i = nextIndex w ∧ Pruned w w') (Pruned w) WalletDb.firstIndex w := by
  unfold WalletDb.firstIndex
  refine Leads.get_bind ?_
  rw [nextIndex_of_none h]
  cases WalletDb.oldNextNumber w.entrys with
  | none => exact Leads.pure ⟨rfl, .refl⟩
  | some number =>
    refine Leads.bind (Q := fun _ => Pruned w) (Leads.forM (fun i hi w' hw' => ?_) .refl) fun _ w' hw' => ?_
    · exact WalletDb.write_leads hw' hw'.nextWrite fun _ => hw'.erase (isTransaction_of_mem hi)
    · exact Leads.modify_bind (Leads.pure ⟨rfl, { hw' with }⟩)

variable (c) in
/-- The entry with the next number. -/
def numberEntry (w : WalletDb) (v : Int) : WalletPropertyEntry :=
  ⟨(w.properties.lookup .nextEntryNumber).elim 1 fun e => e.walletEntryIndex, ⟨.nextEntryNumber, some v⟩⟩

theorem nextIndex_storing_number {v : Int} :
    nextIndex (w.storing c (.property (numberEntry w v))) = WalletDb.toInt32 v := by
  refine nextIndex_of_getProperty ?_
  change ((w.properties.insert .nextEntryNumber (numberEntry w v)).lookup .nextEntryNumber).bind _ = _
  rw [Finmap.lookup_insert]
  rfl

/-- The number has an index of its own, or that of a property. -/
theorem numberEntry_slot (h : Sound c w) (v : Int) : (numberEntry w v).walletEntryIndex ≠ 0 ∧
    (numberEntry w v).walletEntryIndex ≠ -1 ∧ (numberEntry w v).walletEntryIndex < nextIndex w ∧
      ∀ g, w.entrys.lookup (numberEntry w v).walletEntryIndex = some g → g.type = .property := by
  unfold numberEntry
  cases he : w.properties.lookup .nextEntryNumber with
  | none =>
    have hlt : 1 < nextIndex w := h.two_le
    exact ⟨one_ne_zero, (nofun), hlt, h.atFirst⟩
  | some e =>
    obtain ⟨hi0, e', he'⟩ := h.property _ e he
    refine ⟨hi0, fun hM => ?_, h.below _ _ he', fun g hg => ?_⟩
    · exact WalletEntryTypeEnum.noConfusion (h.atMaster _ (hM ▸ he'))
    · obtain rfl := Option.some.inj (he'.symm.trans hg)
      rfl

theorem renumbered_storing_number (h : Sound c w) (hp : Pruned w w') {v : Int}
    (hv : WalletDb.toInt32 v = v) (hle : nextIndex w ≤ v) :
    Renumbered c w (w'.storing c (.property (numberEntry w' v))) := by
  have hsound := hp.sound h
  obtain ⟨hi0, hiM, hlt, hkind⟩ := numberEntry_slot hsound v
  have hnext : nextIndex (w'.storing c (.property (numberEntry w' v))) = v :=
    nextIndex_storing_number.trans hv
  have hle' : nextIndex w' ≤ v := hp.nextIndex_eq.trans_le hle
  refine
    { sound := hsound.storing_property hi0 hkind (hlt.trans_le (hle'.trans hnext.ge))
        (hle'.trans hnext.ge) hiM
      keys := hp.keys
      accounts := hp.accounts
      sub := fun i hi g hg => ?_
      next_le := hle.trans hnext.ge }
  obtain ⟨rfl, rfl⟩ | ⟨-, hg⟩ := lookup_insert_eq_some hg
  · change (numberEntry w' v).walletEntryIndex ≠ 1 at hi
    unfold numberEntry at hi
    cases he : w'.properties.lookup .nextEntryNumber with
    | none =>
      rw [he] at hi
      exact absurd rfl hi
    | some e =>
      obtain ⟨-, e', he'⟩ := hsound.property _ e he
      have hindex : (numberEntry w' v).walletEntryIndex = e.walletEntryIndex := by
        unfold numberEntry
        rw [he]
        rfl
      refine ⟨.property e', hp.sub _ _ ?_, rfl⟩
      change w'.entrys.lookup (numberEntry w' v).walletEntryIndex = _
      rw [hindex, he']
  · exact ⟨g, hp.sub i g hg, rfl⟩

/-- The index given out is the next one, which is free. -/
theorem newWalletEntryIndex_leads (h : Sound c w) (hroom : nextIndex w + 1 < 2 ^ 31) :
    Leads (fun i w' => i = nextIndex w ∧ Renumbered c w w' ∧ nextIndex w' = nextIndex w + 1)
      (Renumbered c w) (WalletDb.newWalletEntryIndex c) w := by
  have hbounds := h.two_le
  have hnumber : WalletDb.toInt32 (nextIndex w + 1) = nextIndex w + 1 :=
    toInt32_of_bounds (by omega) hroom
  have hstore : ∀ w', Pruned w w' → Leads (fun _ w' => Renumbered c w w' ∧ nextIndex w' = nextIndex w + 1)
      (Renumbered c w) (WalletDb.setNextEntryNumber c (WalletDb.toInt32 (nextIndex w + 1))) w' := by
    intro w' hw'
    unfold WalletDb.setNextEntryNumber
    rw [hnumber]
    refine Leads.get_bind (WalletDb.storeGeneric_leads (.of_pruned h hw') (.of_pruned h hw'.nextWrite) ?_)
    intro _
    exact ⟨renumbered_storing_number h hw' hnumber (by omega), nextIndex_storing_number.trans hnumber⟩
  unfold WalletDb.newWalletEntryIndex
  refine Leads.get_bind ?_
  cases hv : w.getProperty .nextEntryNumber with
  | none =>
    refine ((firstIndex_leads hv).weaken (fun _ _ h => h) fun w' hw' => .of_pruned h hw').bind ?_
    rintro i w' ⟨rfl, hw'⟩
    exact (hstore w' hw').bind fun _ w' hw' => ⟨rfl, hw'⟩
  | some v =>
    have hstore := hstore w .refl
    rw [nextIndex_of_getProperty hv] at hstore ⊢
    exact hstore.bind fun _ w' hw' => ⟨rfl, hw'⟩

/-- The index that is given out is the next. -/
theorem newWalletEntryIndex_eq {i : Int} (h : WalletDb.newWalletEntryIndex c w = .ok i w') :
    i = nextIndex w := by
  have hleads : Leads (fun i _ => i = nextIndex w) (fun _ => True) (WalletDb.newWalletEntryIndex c) w := by
    have hstore : ∀ number w', Leads (fun _ _ => True) (fun _ => True)
        (WalletDb.setNextEntryNumber c number) w' := fun _ _ =>
      WalletDb.storeGeneric_leads trivial trivial fun _ => trivial
    unfold WalletDb.newWalletEntryIndex
    refine Leads.get_bind ?_
    cases hv : w.getProperty .nextEntryNumber with
    | none =>
      refine ((firstIndex_leads hv).weaken (fun _ _ h => h) fun _ _ => trivial).bind ?_
      rintro i w' ⟨rfl, -⟩
      exact (hstore _ w').bind fun _ _ _ => rfl
    | some v =>
      rw [nextIndex_of_getProperty hv]
      exact (hstore _ w).bind fun _ _ _ => rfl
  exact hleads.returns h

/-- An entry without an index is stored under the next. -/
theorem storeNew_leads {Data : Type} {make : WalletEntry Data → GenericWalletEntry} {data : Data}
    {Q : WalletEntry Data → WalletDb → Prop} {E : WalletDb → Prop} (h : Sound c w)
    (hroom : nextIndex w + 1 < 2 ^ 31) (hE : ∀ w', Renumbered c w w' → E w')
    (hrun : ∀ w', Renumbered c w w' → nextIndex w' = nextIndex w + 1 →
      Q ⟨nextIndex w, data⟩ (w'.storing c (make ⟨nextIndex w, data⟩))) :
    Leads Q E (WalletDb.storeAndReloadEntry c make ⟨0, data⟩) w := by
  unfold WalletDb.storeAndReloadEntry
  refine ((newWalletEntryIndex_leads h hroom).weaken (fun _ _ h => h) hE).bind ?_
  rintro i w' ⟨rfl, hw', hnext⟩
  refine (WalletDb.storeGeneric_leads (Q := fun _ w'' => Q ⟨nextIndex w, data⟩ w'') (hE w' hw')
    (hE _ hw'.nextWrite) fun _ => hrun w' hw' hnext).bind ?_
  exact fun _ _ h => h

end NewIndex

end Achain.Wallets
