import Achain.Wallet.WalletCalls

/-!
# What the wallet's database stores

A write that the file takes puts the entry under its index, and loading it changes the maps of its kind.
-/

namespace Achain.Wallets

open Table Stateful

variable {PrivateKey ExtendedPrivateKey : Type} {c : Crypto PrivateKey ExtendedPrivateKey}

/-! ## Encrypted keys -/

section Keys

variable {p q : Password} {data : KeyData} {k : PrivateKey}

/-- A record with a private key encrypted. -/
def KeyData.sealed (c : Crypto PrivateKey ExtendedPrivateKey) (data : KeyData) (p : Password)
    (k : PrivateKey) : KeyData :=
  { data with publicKey := c.getPublicKey k, encryptedPrivateKey := c.aesEncrypt p (c.pack k) }

theorem KeyData.hasPrivateKey_sealed : (data.sealed c p k).hasPrivateKey = true := by
  have h := c.encrypt_ne_nil p (c.pack k)
  simp [KeyData.hasPrivateKey, KeyData.sealed, h]

theorem KeyData.getAddress_sealed : (data.sealed c p k).getAddress c = c.address (c.getPublicKey k) := rfl

theorem KeyData.decrypt_sealed (hp : p ≠ 0) : (data.sealed c p k).decryptPrivateKey c p = some k := by
  simp [KeyData.decryptPrivateKey, KeyData.sealed, hp, c.decrypt_encrypt, c.unpack_pack]

theorem KeyData.encryptPrivateKey_eq [DecidableEq PrivateKey] (hp : p ≠ 0) :
    data.encryptPrivateKey c p k = some (data.sealed c p k) :=
  if_pos ⟨hp, KeyData.decrypt_sealed hp⟩

theorem KeyData.ne_zero_of_decrypt (h : data.decryptPrivateKey c p = some k) : p ≠ 0 := by
  rintro rfl
  simp [KeyData.decryptPrivateKey] at h

theorem KeyData.encryptPrivateKey_cases [DecidableEq PrivateKey] {data' : KeyData}
    (h : data.encryptPrivateKey c p k = some data') : p ≠ 0 ∧ data' = data.sealed c p k := by
  by_cases hp : p = 0
  · simp [KeyData.encryptPrivateKey, hp] at h
  · rw [KeyData.encryptPrivateKey_eq hp, Option.some.injEq] at h
    exact ⟨hp, h.symm⟩

theorem KeyData.unique_password (hp : data.decryptPrivateKey c p = some k)
    (hq : data.decryptPrivateKey c q = some k) : p = q := by
  have hp0 := KeyData.ne_zero_of_decrypt hp
  have hq0 := KeyData.ne_zero_of_decrypt hq
  rw [KeyData.decryptPrivateKey, if_neg hp0] at hp
  rw [KeyData.decryptPrivateKey, if_neg hq0] at hq
  exact c.unique_password p q _ k hp hq

end Keys

section Master

variable {p q : Password} {m : MasterKey} {k : ExtendedPrivateKey}

def MasterKey.sealed (c : Crypto PrivateKey ExtendedPrivateKey) (p : Password) (k : ExtendedPrivateKey) :
    MasterKey :=
  ⟨c.aesEncrypt p (c.packExtended k), c.hash p⟩

theorem MasterKey.decrypt_sealed (hp : p ≠ 0) : (MasterKey.sealed c p k).decryptKey c p = some k := by
  have h := c.encrypt_ne_nil p (c.packExtended k)
  simp [MasterKey.decryptKey, MasterKey.sealed, hp, h, c.decrypt_encrypt, c.unpackExtended_pack]

theorem MasterKey.encryptKey_eq [DecidableEq ExtendedPrivateKey] (hp : p ≠ 0) :
    MasterKey.encryptKey c p k = some (.sealed c p k) :=
  if_pos ⟨hp, MasterKey.decrypt_sealed hp⟩

theorem MasterKey.encryptKey_zero [DecidableEq ExtendedPrivateKey] : MasterKey.encryptKey c 0 k = none := by
  simp [MasterKey.encryptKey]

theorem MasterKey.unique_password (hp : m.decryptKey c p = some k) (hq : m.decryptKey c q = some k) :
    p = q := by
  unfold MasterKey.decryptKey at hp hq
  split_ifs at hp hq
  exact c.unique_extended_password p q _ k hp hq

end Master

/-- Cryptography small enough to evaluate: a password is so many zeros in front. -/
def Crypto.plain : Crypto Nat Nat where
  toPrimitives := { Primitives.plain with address := fun key => 2 * key
                                          ptsAddress := fun key _ _ => 2 * key + 1 }
  aesEncrypt p b := List.replicate p 0 ++ 1 :: b
  aesDecrypt p b := if (b.takeWhile (· = 0)).length = p then some (b.drop (p + 1)) else none
  hash p := p
  pack k := List.replicate k 0
  unpack b := some b.length
  packExtended k := List.replicate k 0
  unpackExtended b := some b.length
  getPublicKey k := k + 1
  walletChild k i := k + i
  accountChild k i := k + i
  decrypt_encrypt p b := by
    have hdrop : (List.replicate p 0 ++ 1 :: b).drop (p + 1) = b := by
      rw [List.drop_append]
      simp
    simp [hdrop]
  encrypt_ne_nil p b := by simp
  unpack_pack k := by simp
  unpackExtended_pack k := by simp
  unique_password p q b k hp hq := by
    by_cases h : (b.takeWhile (· = 0)).length = p
    · by_contra hne
      rw [if_neg (h ▸ hne)] at hq
      exact (nomatch hq)
    · rw [if_neg h] at hp
      exact (nomatch hp)
  unique_extended_password p q b k hp hq := by
    by_cases h : (b.takeWhile (· = 0)).length = p
    · by_contra hne
      rw [if_neg (h ▸ hne)] at hq
      exact (nomatch hq)
    · rw [if_neg h] at hp
      exact (nomatch hp)
  getPublicKey_injective := Nat.succ_injective
  address_injective := fun a b h => Nat.eq_of_mul_eq_mul_left Nat.two_pos h
  ptsAddress_ne key _ _ key' h := by
    have hparity : 2 * key + 1 = 2 * key' := h
    exact Nat.two_mul_ne_two_mul_add_one hparity.symm

/-- A new wallet's file, which is open. -/
def emptyWallet : WalletDb where
  entrysOpen := true
  entrys := ∅
  refused _ := false
  properties := ∅
  walletMasterKey := none
  accounts := ∅
  keys := ∅
  contacts := ∅
  transactions := ∅
  settings := ∅
  addressToAccountWalletEntryIndex := ∅
  nameToAccountWalletEntryIndex := ∅
  accountIdToWalletEntryIndex := ∅
  btcToAlpAddress := ∅
  labelToAccountOrContact := ∅
  idToTransactionEntryIndex := ∅
  contractsOfWallet := ∅
  idToEntryForContract := ∅

/-! ## Stores -/

namespace WalletDb

variable {w w' : WalletDb} {α : Type}

/-- The database with a write behind it. -/
def nextWrite (w : WalletDb) : WalletDb := { w with refused := fun n => w.refused (n + 1) }

/-- The database with an entry stored and loaded. -/
def storing (c : Crypto PrivateKey ExtendedPrivateKey) (w : WalletDb) (e : GenericWalletEntry) : WalletDb :=
  { w.nextWrite with entrys := w.entrys.insert e.getWalletEntryIndex e }.loadGenericEntry c e

theorem entrys_storing {e : GenericWalletEntry} :
    (w.storing c e).entrys = w.entrys.insert e.getWalletEntryIndex e := by
  cases e <;> rfl

section Key

variable {e : WalletKeyEntry}

@[simp] theorem keys_storing_key :
    (w.storing c (.key e)).keys = w.keys.insert (e.data.getAddress c) e := rfl

@[simp] theorem entrys_storing_key :
    (w.storing c (.key e)).entrys = w.entrys.insert e.walletEntryIndex (.key e) := rfl

@[simp] theorem refused_storing_key (n : Nat) :
    (w.storing c (.key e)).refused n = w.refused (n + 1) := rfl

end Key

theorem fcAssert_run {p : Prop} [Decidable p] (hp : p) (f : Unit → Db α) :
    (fcAssert p >>= f) w = f () w := by
  rw [fcAssert, if_pos hp]
  rfl

theorem fcAssert_fail {p : Prop} [Decidable p] (hp : ¬ p) (f : Unit → Db α) :
    (fcAssert p >>= f) w = .error .fcAssert w := by
  rw [fcAssert, if_neg hp]
  rfl

@[simp] theorem returned_some (a : α) : returned (some a) = pure a := rfl

theorem write_run {f : Tab Int GenericWalletEntry → Tab Int GenericWalletEntry}
    (hopen : w.entrysOpen = true) (hwrite : w.refused 0 = false) :
    write f w = .ok () { w.nextWrite with entrys := f w.entrys } := by
  unfold write
  rw [get_bind, fcAssert_run hopen]
  simp only [hwrite]
  rfl

theorem write_refused {f : Tab Int GenericWalletEntry → Tab Int GenericWalletEntry}
    (hopen : w.entrysOpen = true) (hwrite : w.refused 0 = true) :
    write f w = .error .levelMapFailure w.nextWrite := by
  unfold write
  rw [get_bind, fcAssert_run hopen]
  simp only [hwrite]
  rfl

section Entry

variable {Data : Type} {make : WalletEntry Data → GenericWalletEntry} {e : WalletEntry Data}

theorem storeGeneric_run {e : GenericWalletEntry} (hopen : w.entrysOpen = true)
    (hindex : e.getWalletEntryIndex ≠ 0) (hwrite : w.refused 0 = false) :
    storeAndReloadGenericEntry c e w = .ok () (w.storing c e) := by
  unfold storeAndReloadGenericEntry
  rw [fcAssert_run hindex, bind_of_ok (write_run hopen hwrite)]
  rfl

theorem storeGeneric_refused {e : GenericWalletEntry} (hopen : w.entrysOpen = true)
    (hindex : e.getWalletEntryIndex ≠ 0) (hwrite : w.refused 0 = true) :
    storeAndReloadGenericEntry c e w = .error .levelMapFailure w.nextWrite := by
  unfold storeAndReloadGenericEntry
  rw [fcAssert_run hindex, bind_of_error (write_refused hopen hwrite)]

/-- An entry that has an index keeps it. -/
theorem storeEntry_eq (he : e.walletEntryIndex ≠ 0) :
    storeAndReloadEntry c make e = (storeAndReloadGenericEntry c (make e) >>= fun _ => pure e) := by
  unfold storeAndReloadEntry
  rw [if_neg he, pure_bind]

theorem storeEntry_run (he : e.walletEntryIndex ≠ 0)
    (hmake : (make e).getWalletEntryIndex = e.walletEntryIndex) (hopen : w.entrysOpen = true)
    (hwrite : w.refused 0 = false) :
    storeAndReloadEntry c make e w = .ok e (w.storing c (make e)) := by
  rw [storeEntry_eq he, bind_of_ok (storeGeneric_run hopen (hmake ▸ he) hwrite)]
  rfl

theorem storeEntry_refused (he : e.walletEntryIndex ≠ 0)
    (hmake : (make e).getWalletEntryIndex = e.walletEntryIndex) (hopen : w.entrysOpen = true)
    (hwrite : w.refused 0 = true) :
    storeAndReloadEntry c make e w = .error .levelMapFailure w.nextWrite := by
  rw [storeEntry_eq he, bind_of_error (storeGeneric_refused hopen (hmake ▸ he) hwrite)]

end Entry

/-! ## Lookups -/

theorem lookupOpen_run {f : WalletDb → α} (hopen : w.isOpen = true) : lookupOpen f w = .ok (f w) w := by
  unfold lookupOpen
  rw [get_bind, fcAssert_run hopen]
  rfl

theorem lookupOpen_closed {f : WalletDb → α} (hopen : ¬ w.isOpen = true) :
    lookupOpen f w = .error .fcAssert w := by
  unfold lookupOpen
  rw [get_bind, fcAssert_fail hopen]

theorem entrysOpen_of_isOpen (hopen : w.isOpen = true) : w.entrysOpen = true := by
  unfold isOpen at hopen
  exact (Bool.and_eq_true_iff.1 hopen).1

/-! ## What a call leads to -/

section Leads

variable {β : Type} {Q : α → WalletDb → Prop} {E : WalletDb → Prop}

theorem fcAssert_leads {p : Prop} [Decidable p] {f : Unit → Db α} (hE : E w) (hf : p → Leads Q E (f ()) w) :
    Leads Q E (fcAssert p >>= f) w := by
  by_cases hp : p
  · rw [Leads, fcAssert_run hp]
    exact hf hp
  · exact .of_error (fcAssert_fail hp f) hE

theorem lookupOpen_leads {f : WalletDb → β} {g : β → Db α} (hE : E w)
    (hg : w.isOpen = true → Leads Q E (g (f w)) w) : Leads Q E (lookupOpen f >>= g) w := by
  by_cases hopen : w.isOpen = true
  · rw [Leads, bind_of_ok (lookupOpen_run hopen)]
    exact hg hopen
  · exact .of_error (bind_of_error (lookupOpen_closed hopen)) hE

theorem returned_leads {a : Option β} {f : β → Db α} (hE : E w)
    (hf : ∀ b, a = some b → Leads Q E (f b) w) : Leads Q E (returned a >>= f) w := by
  cases a with
  | none => exact hE
  | some b => exact hf b rfl

variable {Q : Unit → WalletDb → Prop}

theorem write_leads {f : Tab Int GenericWalletEntry → Tab Int GenericWalletEntry} (hE : E w)
    (hnext : E w.nextWrite) (hrun : w.refused 0 = false → Q () { w.nextWrite with entrys := f w.entrys }) :
    Leads Q E (write f) w := by
  by_cases hopen : w.entrysOpen = true
  · cases hwrite : w.refused 0 with
    | true => exact .of_error (write_refused hopen hwrite) hnext
    | false => exact .of_ok (write_run hopen hwrite) (hrun hwrite)
  · unfold write
    refine Leads.of_error ?_ hE (e := .fcAssert)
    rw [get_bind, fcAssert_fail hopen]

theorem storeGeneric_leads {e : GenericWalletEntry} (hE : E w) (hnext : E w.nextWrite)
    (hrun : w.refused 0 = false → Q () (w.storing c e)) :
    Leads Q E (storeAndReloadGenericEntry c e) w := by
  unfold storeAndReloadGenericEntry
  refine fcAssert_leads hE fun _ => ?_
  refine (write_leads (Q := fun _ w' => Q () (w'.loadGenericEntry c e)) hE hnext hrun).bind ?_
  exact fun _ _ h => h

theorem storeEntry_leads {Data : Type} {make : WalletEntry Data → GenericWalletEntry} {e : WalletEntry Data}
    {Q : WalletEntry Data → WalletDb → Prop} (he : e.walletEntryIndex ≠ 0) (hE : E w)
    (hnext : E w.nextWrite) (hrun : w.refused 0 = false → Q e (w.storing c (make e))) :
    Leads Q E (storeAndReloadEntry c make e) w := by
  rw [storeEntry_eq he]
  refine (storeGeneric_leads (Q := fun _ w' => Q e w') hE hnext hrun).bind ?_
  exact fun _ _ h => h

end Leads

end WalletDb

end Achain.Wallets
