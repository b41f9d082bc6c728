import Achain.Proofs.WalletIndexes

/-!
# Storing keys and accounts

Storing a key stores the account it belongs to, which stores the account's keys. However deep this goes, the
private keys and the kinds of the entries are kept: a record has the private key of the one whose place it
takes.
-/

namespace Achain.Wallets

open Table Stateful

variable {PrivateKey ExtendedPrivateKey : Type} {c : Crypto PrivateKey ExtendedPrivateKey}

/-! ## Later wallets -/

/-- The private key at a record's address, if there is one, is the record's. -/
def KeepsKey (c : Crypto PrivateKey ExtendedPrivateKey) (w : WalletDb) (p : Password) (data : KeyData) :
    Prop :=
  ∀ k, w.keySecret c p (data.getAddress c) = some k → data.secret c p = some k

/-- No entry has another kind than it had. -/
structure KeepsKinds (c : Crypto PrivateKey ExtendedPrivateKey) (w₀ w : WalletDb) : Prop where
  sound : Sound c w
  next_le : nextIndex w₀ ≤ nextIndex w
  kinds : ∀ i g, w.entrys.lookup i = some g → i < nextIndex w₀ → i ≠ 1 → i ≠ -1 →
    ∃ g₀, w₀.entrys.lookup i = some g₀ ∧ g₀.type = g.type

/-- What a wallet held is still there: each private key, under the password there is now, and the kind of
each entry. -/
structure Later (c : Crypto PrivateKey ExtendedPrivateKey) (w₀ : WalletDb) (p₀ : Password) (w : WalletDb)
    (p : Password) : Prop extends KeepsKinds c w₀ w where
  secrets : ∀ a k, w₀.keySecret c p₀ a = some k → w.keySecret c p a = some k

section Later

variable {w₀ w w' : WalletDb} {p₀ p p' : Password}

namespace KeepsKinds

theorem refl (h : Sound c w) : KeepsKinds c w w where
  sound := h
  next_le := le_rfl
  kinds _ g hg _ _ _ := ⟨g, hg, rfl⟩

theorem trans (h : KeepsKinds c w₀ w) (h' : KeepsKinds c w w') : KeepsKinds c w₀ w' where
  sound := h'.sound
  next_le := h.next_le.trans h'.next_le
  kinds i g hg hlt hi1 hiM := by
    obtain ⟨g', hg', htype'⟩ := h'.kinds i g hg (hlt.trans_le h.next_le) hi1 hiM
    obtain ⟨g₀, hg₀, htype⟩ := h.kinds i g' hg' hlt hi1 hiM
    exact ⟨g₀, hg₀, htype.trans htype'⟩

theorem nextWrite (h : KeepsKinds c w₀ w) : KeepsKinds c w₀ w.nextWrite :=
  { h with sound := h.sound.nextWrite }

theorem renumbered (h : KeepsKinds c w₀ w) (hr : Renumbered c w w') : KeepsKinds c w₀ w' :=
  h.trans ⟨hr.sound, hr.next_le, fun i g hg _ hi1 _ => hr.sub i hi1 g hg⟩

/-- An entry stored under an index of its own, or in the place of one of its kind. -/
theorem storing (h : KeepsKinds c w₀ w) {e : GenericWalletEntry}
    (hsound : Sound c (w.storing c e)) (hnext : nextIndex w ≤ nextIndex (w.storing c e))
    (hkind : ∀ g, w.entrys.lookup e.getWalletEntryIndex = some g → g.type = e.type)
    (hfresh : w.entrys.lookup e.getWalletEntryIndex = none → nextIndex w₀ ≤ e.getWalletEntryIndex) :
    KeepsKinds c w₀ (w.storing c e) where
  sound := hsound
  next_le := h.next_le.trans hnext
  kinds i g hg hlt hi1 hiM := by
    rw [WalletDb.entrys_storing] at hg
    obtain ⟨rfl, rfl⟩ | ⟨-, hg⟩ := lookup_insert_eq_some hg
    · cases hold : w.entrys.lookup g.getWalletEntryIndex with
      | none => exact absurd (hfresh hold) hlt.not_ge
      | some g' =>
        obtain ⟨g₀, hg₀, htype⟩ := h.kinds _ g' hold hlt hi1 hiM
        exact ⟨g₀, hg₀, htype.trans (hkind g' hold)⟩
    · exact h.kinds i g hg hlt hi1 hiM

theorem storing_key (h : KeepsKinds c w₀ w) {e : WalletKeyEntry} (hslot : Sound.KeySlot c w e)
    (hfresh : w.entrys.lookup e.walletEntryIndex = none → nextIndex w₀ ≤ e.walletEntryIndex) :
    KeepsKinds c w₀ (w.storing c (.key e)) := by
  refine h.storing (h.sound.storing_key hslot) (h.sound.nextIndex_storing_key hslot).ge
    (fun g hg => ?_) hfresh
  obtain ⟨e₀, rfl, -⟩ := h.sound.keySlot_entry hslot hg
  rfl

theorem storing_account (h : KeepsKinds c w₀ w) {e : WalletAccountEntry}
    (hslot : Sound.AccountSlot w e.walletEntryIndex)
    (hfresh : w.entrys.lookup e.walletEntryIndex = none → nextIndex w₀ ≤ e.walletEntryIndex) :
    KeepsKinds c w₀ (w.storing c (.account e)) := by
  refine h.storing (h.sound.storing_account hslot) (h.sound.nextIndex_storing_account hslot).ge
    (fun g hg => ?_) hfresh
  obtain ⟨e₀, rfl⟩ := h.sound.accountSlot_entry hslot hg
  rfl

end KeepsKinds

namespace Later

theorem refl (h : Sound c w) : Later c w p w p := ⟨.refl h, fun _ _ hk => hk⟩

theorem trans (h : Later c w₀ p₀ w p) (h' : Later c w p w' p') : Later c w₀ p₀ w' p' :=
  ⟨h.toKeepsKinds.trans h'.toKeepsKinds, fun a k hk => h'.secrets a k (h.secrets a k hk)⟩

theorem nextWrite (h : Later c w₀ p₀ w p) : Later c w₀ p₀ w.nextWrite p :=
  ⟨h.toKeepsKinds.nextWrite, h.secrets⟩

theorem renumbered (h : Later c w₀ p₀ w p) (hr : Renumbered c w w') : Later c w₀ p₀ w' p where
  toKeepsKinds := h.toKeepsKinds.renumbered hr
  secrets a k hk := by
    rw [WalletDb.keySecret, hr.keys]
    exact h.secrets a k hk

theorem storing_key (h : Later c w₀ p₀ w p) {e : WalletKeyEntry} (hslot : Sound.KeySlot c w e)
    (hfresh : w.entrys.lookup e.walletEntryIndex = none → nextIndex w₀ ≤ e.walletEntryIndex)
    (hsafe : ∀ k, w₀.keySecret c p₀ (e.data.getAddress c) = some k → e.data.secret c p = some k) :
    Later c w₀ p₀ (w.storing c (.key e)) p where
  toKeepsKinds := h.toKeepsKinds.storing_key hslot hfresh
  secrets a k hk := by
    rw [WalletDb.keySecret, WalletDb.keys_storing_key]
    by_cases ha : a = e.data.getAddress c
    · rw [ha, Finmap.lookup_insert]
      exact hsafe k (ha ▸ hk)
    · rw [Finmap.lookup_insert_of_ne _ ha]
      exact h.secrets a k hk

theorem storing_account (h : Later c w₀ p₀ w p) {e : WalletAccountEntry}
    (hslot : Sound.AccountSlot w e.walletEntryIndex)
    (hfresh : w.entrys.lookup e.walletEntryIndex = none → nextIndex w₀ ≤ e.walletEntryIndex) :
    Later c w₀ p₀ (w.storing c (.account e)) p :=
  ⟨h.toKeepsKinds.storing_account hslot hfresh, h.secrets⟩

/-- Where there is no private key, none is lost. -/
theorem keepsKey_of_none (h : Later c w₀ p w p) {data : KeyData}
    (hnone : w.keySecret c p (data.getAddress c) = none) : KeepsKey c w₀ p data := by
  intro k hk
  rw [h.secrets _ k hk] at hnone
  exact (nomatch hnone)

theorem keepsKey_sealed (h : Later c w₀ p w p) {data : KeyData} {q : Password} {k : PrivateKey}
    (hnone : w.keySecret c p (c.address (c.getPublicKey k)) = none) : KeepsKey c w₀ p (data.sealed c q k) :=
  h.keepsKey_of_none hnone

/-- A record with the private key of the one that is there. -/
theorem keepsKey_of_lookup (h : Later c w₀ p w p) {data : KeyData} {e : WalletKeyEntry}
    (he : w.keys.lookup (data.getAddress c) = some e) (hsame : data.secret c p = e.data.secret c p) :
    KeepsKey c w₀ p data := by
  intro k hk
  have hsecret := h.secrets _ k hk
  rw [WalletDb.keySecret, he] at hsecret
  exact hsame.trans hsecret

end Later

end Later

/-! ## In the course of a call -/

/-- The keys among some that have no record. -/
def missing (c : Crypto PrivateKey ExtendedPrivateKey) (keys : Finset PublicKeyType) (w : WalletDb) :
    Finset PublicKeyType :=
  keys.filter fun key => (w.keys.lookup (c.address key)).isNone

/-- The wallet in the course of a call: there are indexes left for a record of each key among those of the
accounts, and for so many other entries. -/
structure Going (c : Crypto PrivateKey ExtendedPrivateKey) (w₀ : WalletDb) (p : Password)
    (keys : Finset PublicKeyType) (n : Nat) (held : Set Int) (w : WalletDb) : Prop where
  later : Later c w₀ p w p
  known : ∀ i e, w.accounts.lookup i = some e → ∀ key ∈ e.data.allKeys, key ∈ keys
  room : nextIndex w + (missing c keys w).card + n < 2 ^ 31
  account : ∀ i ∈ held, (w.accounts.lookup i).isSome

/-- Where a call that throws leaves the wallet. -/
abbrev Left (c : Crypto PrivateKey ExtendedPrivateKey) (w₀ : WalletDb) (p : Password) (w : WalletDb) :
    Prop :=
  Later c w₀ p w p

section Course

variable {w₀ w w' : WalletDb} {p : Password} {keys : Finset PublicKeyType} {n : Nat} {held held' : Set Int}

namespace Going

theorem mono (h : Going c w₀ p keys n held w) (hsub : held' ⊆ held) : Going c w₀ p keys n held' w :=
  { h with account := fun i hi => h.account i (hsub hi) }

end Going

/-! ### Keys -/

section Key

variable {data : KeyData} {e : WalletKeyEntry}

theorem mem_missing {key : PublicKeyType} :
    key ∈ missing c keys w ↔ key ∈ keys ∧ w.keys.lookup (c.address key) = none := by
  rw [missing, Finset.mem_filter, Option.isNone_iff_eq_none]

theorem missing_congr (h : w'.keys = w.keys) : missing c keys w' = missing c keys w := by
  unfold missing
  rw [h]

theorem missing_storing_key :
    missing c keys (w.storing c (.key e)) = (missing c keys w).erase e.data.publicKey := by
  ext key
  rw [mem_missing, Finset.mem_erase, mem_missing, WalletDb.keys_storing_key]
  by_cases heq : c.address key = e.data.getAddress c
  · have hkey : key = e.data.publicKey := c.address_injective heq
    rw [heq, Finmap.lookup_insert, hkey]
    simp
  · have hkey : key ≠ e.data.publicKey := by
      rintro rfl
      exact heq rfl
    rw [Finmap.lookup_insert_of_ne _ heq]
    simp [hkey]

/-- What is known of a record that is stored. -/
def KeyStored (c : Crypto PrivateKey ExtendedPrivateKey) (w : WalletDb) (data : KeyData)
    (e : WalletKeyEntry) (w' : WalletDb) : Prop :=
  e.data = data ∧ w'.keys.lookup (data.getAddress c) = some e ∧ w'.accounts = w.accounts

/-- A record in the place of the one at its address. -/
theorem restoreKey_leads (data : KeyData) (h : Going c w₀ p keys n held w)
    (he : w.keys.lookup (data.getAddress c) = some e) (hsafe : w.refused 0 = false → KeepsKey c w₀ p data) :
    Leads (fun e' w' => Going c w₀ p keys n held w' ∧ KeyStored c w data e' w') (Left c w₀ p)
      (WalletDb.storeAndReloadEntry c .key ⟨e.walletEntryIndex, data⟩) w := by
  have hsound := h.later.sound
  have hstored := (hsound.key _ e he).2
  have hslot : Sound.KeySlot c w ⟨e.walletEntryIndex, data⟩ := .inr ⟨e, he, rfl⟩
  have hi0 := (hsound.keySlot_bounds hslot).1
  refine WalletDb.storeEntry_leads hi0 h.later h.later.nextWrite fun hwrite => ?_
  refine ⟨⟨?_, h.known, ?_, h.account⟩, rfl, Finmap.lookup_insert _, rfl⟩
  · refine h.later.storing_key hslot (fun hnone => ?_) (hsafe hwrite)
    rw [hstored] at hnone
    exact (nomatch hnone)
  · rw [hsound.nextIndex_storing_key hslot, missing_storing_key]
    have hcard : ((missing c keys w).erase data.publicKey).card ≤ (missing c keys w).card :=
      Finset.card_erase_le
    have hroom := h.room
    change nextIndex w + ((missing c keys w).erase data.publicKey).card + n < 2 ^ 31
    omega

/-- A record of a key, under the index of its own. -/
theorem storeKeyEntry_leads (h : Going c w₀ p keys n held w) (hkey : data.publicKey ∈ keys)
    (hsafe : w.refused 0 = false → KeepsKey c w₀ p data) :
    Leads (fun e w' => Going c w₀ p keys n held w' ∧ KeyStored c w data e w') (Left c w₀ p)
      (WalletDb.storeAndReloadEntry c .key
        ⟨(w.keyAt (data.getAddress c)).elim 0 fun e => e.walletEntryIndex, data⟩) w := by
  have hsound := h.later.sound
  have hat : w.keyAt (data.getAddress c) = w.keys.lookup (data.getAddress c) := hsound.keyAt_address _
  rw [hat]
  cases he : w.keys.lookup (data.getAddress c) with
  | some e => exact restoreKey_leads data h he hsafe
  | none =>
    have hmissing : data.publicKey ∈ missing c keys w := mem_missing.2 ⟨hkey, he⟩
    have hcard := Finset.card_pos.2 ⟨_, hmissing⟩
    have hroom := h.room
    refine storeNew_leads hsound (by omega) (fun w' hw' => h.later.renumbered hw') fun w' hw' hnext => ?_
    have htwo := hsound.two_le
    have hslot : Sound.KeySlot c w' ⟨nextIndex w, data⟩ := by
      refine .inl ⟨hw'.lookup_nextIndex hsound, htwo, ?_, ?_⟩
      · rw [hnext]
        exact Int.lt_succ _
      · rw [hw'.keys]
        exact he
    have hlater := h.later.renumbered hw'
    have hsafe : KeepsKey c w₀ p data := by
      refine h.later.keepsKey_of_none ?_
      rw [WalletDb.keySecret, he]
      rfl
    refine ⟨⟨hlater.storing_key hslot (fun _ => h.later.next_le) hsafe, ?_, ?_, ?_⟩, rfl,
      Finmap.lookup_insert _, hw'.accounts⟩
    · exact fun i e he => h.known i e (hw'.accounts ▸ he)
    · rw [hw'.sound.nextIndex_storing_key hslot, hnext, missing_storing_key]
      rw [missing_congr hw'.keys, Finset.card_erase_of_mem hmissing]
      omega
    · exact fun i hi => hw'.accounts.symm ▸ h.account i hi

/-- An index is given out. -/
theorem Going.renumbered {m : Nat} (h : Going c w₀ p keys m held w) (hr : Renumbered c w w')
    (hnext : nextIndex w' = nextIndex w + 1) (hm : n + 1 ≤ m) : Going c w₀ p keys n held w' where
  later := h.later.renumbered hr
  known i e he := h.known i e (hr.accounts ▸ he)
  room := by
    have hroom := h.room
    rw [hnext, missing_congr hr.keys]
    omega
  account i hi := hr.accounts.symm ▸ h.account i hi

end Key

/-! ### Accounts -/

section Account

variable {data : AccountData} {m : Nat}

theorem Going.storing_account (h : Going c w₀ p keys n held w) {e : WalletAccountEntry}
    (hkeys : ∀ key ∈ e.data.allKeys, key ∈ keys) (hslot : Sound.AccountSlot w e.walletEntryIndex)
    (hfresh : w.entrys.lookup e.walletEntryIndex = none → nextIndex w₀ ≤ e.walletEntryIndex) :
    Going c w₀ p keys n (insert e.walletEntryIndex held) (w.storing c (.account e)) where
  later := h.later.storing_account hslot hfresh
  known i e' he' := by
    obtain ⟨-, rfl⟩ | ⟨-, he'⟩ := lookup_insert_eq_some he'
    · exact hkeys
    · exact h.known i e' he'
  room := by
    rw [h.later.sound.nextIndex_storing_account hslot]
    exact h.room
  account i hi := by
    change ((w.accounts.insert e.walletEntryIndex e).lookup i).isSome
    by_cases hie : i = e.walletEntryIndex
    · rw [hie, Finmap.lookup_insert]
      rfl
    · rw [Finmap.lookup_insert_of_ne _ hie]
      exact h.account i (hi.resolve_left hie)

/-- An account in the place of one. -/
theorem restoreAccount_leads (data : AccountData) (h : Going c w₀ p keys n held w)
    (hkeys : ∀ key ∈ data.allKeys, key ∈ keys) {i : Int} (hi : (w.accounts.lookup i).isSome) :
    Leads (fun e w' => e = ⟨i, data⟩ ∧ Going c w₀ p keys n (insert i held) w' ∧ w'.keys = w.keys)
      (Left c w₀ p) (WalletDb.storeAndReloadEntry c .account ⟨i, data⟩) w := by
  have hsound := h.later.sound
  have hslot : Sound.AccountSlot w (⟨i, data⟩ : WalletAccountEntry).walletEntryIndex := .inr hi
  refine WalletDb.storeEntry_leads (hsound.accountSlot_bounds hslot).1 h.later h.later.nextWrite fun _ => ?_
  refine ⟨rfl, h.storing_account hkeys hslot fun hnone => ?_, rfl⟩
  obtain ⟨e, he⟩ := Option.isSome_iff_exists.1 hi
  obtain ⟨-, -, e', he'⟩ := hsound.account i e he
  exact (nomatch hnone.symm.trans he')

/-- An account, under the index of the account with its owner. -/
theorem storeAccountEntry_leads (h : Going c w₀ p keys m held w)
    (hkeys : ∀ key ∈ data.allKeys, key ∈ keys) (hn : n ≤ m)
    (hm : (w.accountOf (data.ownerAddress c)).isSome ∨ n + 1 ≤ m) :
    Leads (fun e w' => e.data = data ∧ Going c w₀ p keys n (insert e.walletEntryIndex held) w')
      (Left c w₀ p) (WalletDb.storeAndReloadEntry c .account
        ⟨(w.accountOf (data.ownerAddress c)).elim 0 fun e => e.walletEntryIndex, data⟩) w := by
  have hsound := h.later.sound
  have hroom := h.room
  cases he : w.accountOf (data.ownerAddress c) with
  | some e =>
    obtain ⟨i, -, hlookup⟩ := Option.bind_eq_some_iff.1 he
    obtain rfl := (hsound.account i e hlookup).1
    have hstart : Going c w₀ p keys n held w := { h with room := by omega }
    have hsome : (w.accounts.lookup e.walletEntryIndex).isSome := by
      rw [hlookup]
      rfl
    refine (restoreAccount_leads data hstart hkeys hsome).weaken ?_ fun _ h => h
    rintro _ w' ⟨rfl, hw', -⟩
    exact ⟨rfl, hw'⟩
  | none =>
    have hm : n + 1 ≤ m := hm.resolve_left (by simp [he])
    refine storeNew_leads hsound (by omega) (fun w' hw' => h.later.renumbered hw') fun w' hw' hnext => ?_
    have hslot : Sound.AccountSlot w' (⟨nextIndex w, data⟩ : WalletAccountEntry).walletEntryIndex := by
      refine .inl ⟨hw'.lookup_nextIndex hsound, hsound.two_le, ?_⟩
      rw [hnext]
      exact Int.lt_succ _
    have hgoing : Going c w₀ p keys n held w' := h.renumbered hw' hnext hm
    exact ⟨rfl, hgoing.storing_account hkeys hslot fun _ => h.later.next_le⟩

end Account

/-! ### Properties -/

section Property

variable {e : WalletPropertyEntry}

theorem nextIndex_storing_property (hkey : e.data.key ≠ .nextEntryNumber)
    (hslot : w.entrys.lookup e.walletEntryIndex = none ∨
      ∃ e', w.entrys.lookup e.walletEntryIndex = some (.property e')) :
    nextIndex (w.storing c (.property e)) = nextIndex w := by
  refine nextIndex_congr (Finmap.lookup_insert_of_ne _ hkey.symm) (oldNextNumber_insert ?_)
  change (w.entrys.lookup e.walletEntryIndex).bind _ = none
  obtain hnone | ⟨e', he'⟩ := hslot
  · rw [hnone]
    rfl
  · rw [he']
    rfl

theorem Going.storing_property (h : Going c w₀ p keys n held w) (hkey : e.data.key ≠ .nextEntryNumber)
    (hi0 : e.walletEntryIndex ≠ 0) (hiM : e.walletEntryIndex ≠ -1) (hlt : e.walletEntryIndex < nextIndex w)
    (hslot : w.entrys.lookup e.walletEntryIndex = none ∧ nextIndex w₀ ≤ e.walletEntryIndex ∨
      ∃ e', w.entrys.lookup e.walletEntryIndex = some (.property e')) :
    Going c w₀ p keys n held (w.storing c (.property e)) := by
  have hnext := nextIndex_storing_property (c := c) hkey (hslot.imp_left And.left)
  have hkind : ∀ g, w.entrys.lookup e.walletEntryIndex = some g → g.type = .property := by
    intro g hg
    obtain ⟨hnone, -⟩ | ⟨e', he'⟩ := hslot
    · exact (nomatch hnone.symm.trans hg)
    · obtain rfl := Option.some.inj (he'.symm.trans hg)
      rfl
  have hfresh : w.entrys.lookup e.walletEntryIndex = none → nextIndex w₀ ≤ e.walletEntryIndex := by
    intro hnone
    obtain ⟨-, hle⟩ | ⟨e', he'⟩ := hslot
    · exact hle
    · exact (nomatch hnone.symm.trans he')
  have hsound : Sound c (w.storing c (.property e)) :=
    h.later.sound.storing_property hi0 hkind (hnext ▸ hlt) hnext.ge hiM
  have hkinds := h.later.toKeepsKinds.storing hsound hnext.ge hkind hfresh
  refine ⟨⟨hkinds, h.later.secrets⟩, h.known, ?_, h.account⟩
  rw [hnext]
  exact h.room

theorem setProperty_leads (h : Going c w₀ p keys (n + 1) held w) {id : PropertyEnum}
    (hid : id ≠ .nextEntryNumber) (v : Int) :
    Leads (fun _ => Going c w₀ p keys n held) (Left c w₀ p) (WalletDb.setProperty c id v) w := by
  have hsound := h.later.sound
  have hroom := h.room
  have hstart : Going c w₀ p keys n held w := { h with room := by omega }
  unfold WalletDb.setProperty
  refine Leads.get_bind ?_
  cases he : w.properties.lookup id with
  | some e =>
    obtain ⟨hi0, e', he'⟩ := hsound.property id e he
    have hiM : e.walletEntryIndex ≠ -1 := by
      intro hM
      exact WalletEntryTypeEnum.noConfusion (hsound.atMaster _ (hM ▸ he'))
    have hput : Leads (fun _ => Going c w₀ p keys n held) (Left c w₀ p)
        (WalletDb.storeAndReloadEntry c .property ⟨e.walletEntryIndex, ⟨id, some v⟩⟩) w :=
      WalletDb.storeEntry_leads hi0 h.later h.later.nextWrite fun _ =>
        hstart.storing_property hid hi0 hiM (hsound.below _ _ he') (.inr ⟨e', he'⟩)
    exact hput.bind fun _ w' hw' => hw'
  | none =>
    refine ((newWalletEntryIndex_leads hsound (by omega)).weaken (fun _ _ h => h)
      fun w' hw' => h.later.renumbered hw').bind ?_
    rintro i w' ⟨rfl, hw', hnext⟩
    have htwo := hsound.two_le
    have hgoing := h.renumbered hw' hnext le_rfl
    have hi0 : nextIndex w ≠ 0 := by omega
    have hiM : nextIndex w ≠ -1 := by omega
    have hput : Leads (fun _ => Going c w₀ p keys n held) (Left c w₀ p)
        (WalletDb.storeAndReloadEntry c .property ⟨nextIndex w, ⟨id, some v⟩⟩) w' :=
      WalletDb.storeEntry_leads hi0 hgoing.later hgoing.later.nextWrite fun _ =>
        hgoing.storing_property hid hi0 hiM (hnext ▸ Int.lt_succ _)
          (.inl ⟨hw'.lookup_nextIndex hsound, h.later.next_le⟩)
    exact hput.bind fun _ w' hw' => hw'

end Property

/-! ### Keys with their accounts -/

section Nested

/-- What storing a key leads to. -/
def StoresKeys (c : Crypto PrivateKey ExtendedPrivateKey) (w₀ : WalletDb) (p : Password)
    (keys : Finset PublicKeyType) (n : Nat) (storeKey : KeyData → Db Unit) : Prop :=
  ∀ held w data, Going c w₀ p keys n held w → data.publicKey ∈ keys →
    (w.isOpen = true → data.publicKey ≠ 0 → w.refused 0 = false → KeepsKey c w₀ p data) →
      Leads (fun _ => Going c w₀ p keys n held) (Left c w₀ p) (storeKey data) w

/-- What storing an account that is there leads to. -/
def StoresAccounts (c : Crypto PrivateKey ExtendedPrivateKey) (w₀ : WalletDb) (p : Password)
    (keys : Finset PublicKeyType) (n : Nat) (storeAccount : AccountData → Db Unit) : Prop :=
  ∀ held w data, Going c w₀ p keys n held w → (∀ key ∈ data.allKeys, key ∈ keys) →
    (w.accountOf (data.ownerAddress c)).isSome →
      Leads (fun _ => Going c w₀ p keys n held) (Left c w₀ p) (storeAccount data) w

theorem accountOfKey_leads (h : Left c w₀ p w) (key : KeyData) :
    Leads (fun r w' => w' = w ∧ ∀ e, r = some e → ∃ i, w.accounts.lookup i = some e) (Left c w₀ p)
      (WalletDb.accountOfKey c key) w := by
  have hfound : ∀ a e, w.accountOf a = some e → ∃ i, w.accounts.lookup i = some e := by
    intro a e he
    obtain ⟨i, -, hi⟩ := Option.bind_eq_some_iff.1 he
    exact ⟨i, hi⟩
  unfold WalletDb.accountOfKey WalletDb.lookupAccount
  refine WalletDb.lookupOpen_leads h fun hopen => ?_
  cases he : w.accountOf (c.address key.publicKey) with
  | some e =>
    refine Leads.pure ⟨rfl, fun e' he' => ?_⟩
    obtain rfl := Option.some.inj he'
    exact hfound _ _ he
  | none => exact .of_ok (WalletDb.lookupOpen_run hopen) ⟨rfl, fun e he => hfound _ e he⟩

theorem storeKeyWith_leads {storeAccount : AccountData → Db Unit}
    (hstore : StoresAccounts c w₀ p keys n storeAccount) :
    StoresKeys c w₀ p keys n (WalletDb.storeKeyWith c storeAccount) := by
  intro held w data h hkey hsafe
  unfold WalletDb.storeKeyWith WalletDb.assertOpen WalletDb.lookupKey
  refine WalletDb.lookupOpen_leads h.later fun hopen => WalletDb.fcAssert_leads h.later fun hne => ?_
  refine WalletDb.lookupOpen_leads h.later fun _ => (storeKeyEntry_leads h hkey (hsafe hopen hne)).bind ?_
  rintro e w₁ ⟨h₁, rfl, he, -⟩
  split_ifs
  swap
  · exact Leads.pure h₁
  refine (accountOfKey_leads h₁.later e.data).bind ?_
  rintro r w₂ ⟨hw₂, hr⟩
  obtain rfl : w₁ = w₂ := hw₂.symm
  cases r with
  | none => exact Leads.pure h₁
  | some account =>
    obtain ⟨i, hi⟩ := hr account rfl
    have hmine : ∀ w₂, Going c w₀ p keys n held w₂ → w₂.accounts = w₁.accounts →
        Leads (fun _ => Going c w₀ p keys n held) (Left c w₀ p)
          (if (!account.data.isMyAccount) = true then storeAccount { account.data with isMyAccount := true }
            else pure ()) w₂ := by
      intro w₂ h₂ hsame
      have hi₂ : w₂.accounts.lookup i = some account := hsame ▸ hi
      split_ifs
      · exact hstore held w₂ _ h₂ (h₂.known i account hi₂) (h₂.later.sound.owner i account hi₂)
      · exact Leads.pure h₂
    by_cases howner : e.data.accountAddress = account.data.ownerAddress c
    · simp only [howner, ne_eq, not_true_eq_false, if_false]
      exact hmine w₁ h₁ rfl
    · simp only [howner, ne_eq, not_false_eq_true, if_true]
      refine (restoreKey_leads { e.data with accountAddress := account.data.ownerAddress c } h₁ he
        fun _ => h₁.later.keepsKey_of_lookup he rfl).bind ?_
      rintro e' w₂ ⟨h₂, -, -, hsame⟩
      exact hmine w₂ h₂ hsame

/-- The account whose keys are claimed. -/
structure Claiming (c : Crypto PrivateKey ExtendedPrivateKey) (w₀ : WalletDb) (p : Password)
    (keys : Finset PublicKeyType) (n : Nat) (held : Set Int) (e : WalletAccountEntry) (w : WalletDb) :
    Prop where
  going : Going c w₀ p keys n held w
  held : e.walletEntryIndex ∈ held
  keys : ∀ key ∈ e.data.allKeys, key ∈ keys

theorem claimKey_leads {storeKey : KeyData → Db Unit} (hstore : StoresKeys c w₀ p keys n storeKey)
    {e : WalletAccountEntry} {key : PublicKeyType} (hkey : key ∈ keys)
    (h : Claiming c w₀ p keys n held e w) :
    Leads (Claiming c w₀ p keys n held) (Left c w₀ p) (WalletDb.claimKey c storeKey e key) w := by
  have hat := h.going.later.sound.keyAt_address key
  unfold WalletDb.claimKey WalletDb.lookupKey
  refine WalletDb.lookupOpen_leads h.going.later fun _ => ?_
  rw [hat]
  cases hk : w.keys.lookup (c.address key) with
  | none =>
    have hnone : w.keySecret c p (c.address key) = none := by
      rw [WalletDb.keySecret, hk]
      rfl
    refine (hstore held w _ h.going hkey fun _ _ _ => ?_).bind fun _ w' hw' => ?_
    · exact h.going.later.keepsKey_of_none hnone
    · exact Leads.pure ⟨hw', h.held, h.keys⟩
  | some k =>
    have haddress := (h.going.later.sound.key _ k hk).1
    have hpublic : k.data.publicKey = key := c.address_injective haddress
    have hat : w.keys.lookup (k.data.getAddress c) = some k := haddress.symm ▸ hk
    have hmove : ∀ e w', Claiming c w₀ p keys n held e w' → w'.keys = w.keys →
        Leads (Claiming c w₀ p keys n held) (Left c w₀ p)
          (if k.data.accountAddress ≠ e.data.ownerAddress c then
            storeKey { k.data with accountAddress := e.data.ownerAddress c } >>= fun _ => pure e
          else pure e) w' := by
      intro e w' h' hsame
      split_ifs
      · refine (hstore held w' _ h'.going (hpublic ▸ hkey) fun _ _ _ => ?_).bind fun _ w'' hw'' => ?_
        · exact h.going.later.keepsKey_of_lookup hat rfl
        · exact Leads.pure ⟨hw'', h'.held, h'.keys⟩
      · exact Leads.pure h'
    by_cases hprivate : k.data.hasPrivateKey = true
    · simp only [hprivate, if_true]
      split_ifs
      · exact hmove e w h rfl
      · refine (restoreAccount_leads { e.data with isMyAccount := true } h.going h.keys
          (h.going.account _ h.held)).bind ?_
        rintro _ w' ⟨rfl, hw', hsame⟩
        exact hmove _ w' ⟨hw'.mono (Set.subset_insert ..), h.held, h.keys⟩ hsame
    · simp only [hprivate]
      exact Leads.pure h

theorem keySecret_of_public {a : Address}
    (h : ¬ ((w.keys.lookup a).any fun e => e.data.hasPrivateKey) = true) : w.keySecret c p a = none := by
  unfold WalletDb.keySecret
  cases he : w.keys.lookup a with
  | none => rfl
  | some e =>
    rw [he] at h
    exact if_neg h

variable [DecidableEq PrivateKey]

theorem deriveKey_leads {storeKey : KeyData → Db Unit} (hstore : StoresKeys c w₀ p keys n storeKey)
    {owner : Address} {password : Password} {key : PublicKeyType} (hkey : key ∈ keys)
    (h : Going c w₀ p keys n held w) :
    Leads (fun _ => Going c w₀ p keys n held) (Left c w₀ p)
      (WalletDb.deriveKey c storeKey owner password key) w := by
  have hat := h.later.sound.keyAt_address key
  unfold WalletDb.deriveKey WalletDb.lookupKey
  refine WalletDb.lookupOpen_leads h.later fun _ => ?_
  rw [hat]
  split_ifs with hnone
  swap
  · exact Leads.pure h
  refine WalletDb.lookupOpen_leads h.later fun _ => ?_
  cases w.keyAt owner with
  | none => exact Leads.pure h
  | some ownerKey =>
    by_cases hprivate : ownerKey.data.hasPrivateKey = true
    · simp only [hprivate, if_true]
      refine WalletDb.returned_leads h.later fun ownerPrivateKey _ => ?_
      split_ifs with hchild
      · refine WalletDb.returned_leads h.later fun data hdata => ?_
        obtain ⟨-, rfl⟩ := KeyData.encryptPrivateKey_cases hdata
        refine hstore held w _ h (hchild ▸ hkey) fun _ _ _ => h.later.keepsKey_of_none ?_
        rw [KeyData.getAddress_sealed, hchild]
        refine keySecret_of_public fun hany => ?_
        rw [hany] at hnone
        exact Bool.noConfusion hnone.2
      · exact Leads.pure h
    · simp only [hprivate]
      exact Leads.pure h

theorem mem_accountPublicKeys {account : AccountData} {key : PublicKeyType}
    (h : key ∈ WalletDb.accountPublicKeys account) : key ∈ account.allKeys := by
  unfold WalletDb.accountPublicKeys at h
  rw [Finset.mem_sort, Finset.mem_erase, List.mem_toFinset] at h
  exact h.2

theorem storeAccountWith_leads {storeKey : KeyData → Db Unit} (hstore : StoresKeys c w₀ p keys n storeKey)
    {memory : Address} {account : AccountData} {password : Password} {m : Nat}
    (h : Going c w₀ p keys m held w) (hkeys : ∀ key ∈ account.allKeys, key ∈ keys) (hn : n ≤ m)
    (hm : (w.accountOf (account.ownerAddress c)).isSome ∨ n + 1 ≤ m) :
    Leads (fun _ => Going c w₀ p keys n held) (Left c w₀ p)
      (WalletDb.storeAccountWith c storeKey memory account password) w := by
  unfold WalletDb.storeAccountWith WalletDb.assertOpen WalletDb.lookupAccount
  refine WalletDb.lookupOpen_leads h.later fun _ => WalletDb.fcAssert_leads h.later fun _ => ?_
  refine WalletDb.fcAssert_leads h.later fun _ => WalletDb.lookupOpen_leads h.later fun _ => ?_
  refine (storeAccountEntry_leads h hkeys hn hm).bind ?_
  rintro e w₁ ⟨rfl, h₁⟩
  have hclaiming : Claiming c w₀ p keys n (insert e.walletEntryIndex held) e w₁ :=
    ⟨h₁, Set.mem_insert .., hkeys⟩
  refine (Leads.foldlM (fun key hkey _ _ h => ?_) hclaiming).bind fun e₂ w₂ h₂ => ?_
  · exact claimKey_leads hstore (hkeys key (mem_accountPublicKeys hkey)) h
  refine (Leads.forM (fun key hkey _ h => ?_) h₂.going).weaken (fun _ _ h => ?_) fun _ h => h
  · exact deriveKey_leads hstore (hkeys key (mem_accountPublicKeys hkey)) h
  · exact h.mono (Set.subset_insert ..)

/-- However deep the calls go, storing a key keeps what the wallet holds. -/
theorem storeKey_leads (memory : Address) :
    ∀ depth, StoresKeys c w₀ p keys n (WalletDb.storeKey c memory depth)
  | 0 => fun _ _ _ h _ _ => Leads.throw h.later
  | depth + 1 => storeKeyWith_leads fun _ _ _ h hkeys hsome =>
      storeAccountWith_leads (storeKey_leads memory depth) h hkeys le_rfl (.inl hsome)

end Nested

end Course

end Achain.Wallets
