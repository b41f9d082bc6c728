import Achain.Wallet.WalletDb

/-!
# The calls of the wallet's database

Keys and accounts are stored under their addresses, an account with a private key in the wallet is marked as
mine, new keys are generated or imported, the password is changed, and an account is removed with what
belongs to it.
-/

namespace Achain.Wallets

open Table

namespace WalletDb

variable {PrivateKey ExtendedPrivateKey : Type} (c : Crypto PrivateKey ExtendedPrivateKey)

def assertOpen : Db Unit := lookupOpen fun _ => ()

/-! ## Keys and accounts -/

section Store

/-- The account of a key that has a private key: its address or its record says so. -/
def accountOfKey (key : KeyData) : Db (Option WalletAccountEntry) := do
  match ← lookupAccount (c.address key.publicKey) with
  | some account => return some account
  | none => lookupAccount key.accountAddress

/-- `store_key`, which calls `store_account` for an account that was not mine. -/
def storeKeyWith (storeAccount : AccountData → Db Unit) (key : KeyData) : Db Unit := do
  assertOpen
  fcAssert (key.publicKey ≠ 0)
  let old ← lookupKey (key.getAddress c)
  let e ← storeAndReloadEntry c .key ⟨old.elim 0 fun e => e.walletEntryIndex, key⟩
  if e.data.hasPrivateKey then
    match ← accountOfKey c key with
    | none => pure ()
    | some account =>
      let owner := account.data.ownerAddress c
      if e.data.accountAddress ≠ owner then
        let _ ← storeAndReloadEntry c .key ⟨e.walletEntryIndex, { e.data with accountAddress := owner }⟩
      if !account.data.isMyAccount then
        storeAccount { account.data with isMyAccount := true }

/-- The public keys of an account, in the order of a `set`. -/
def accountPublicKeys (account : AccountData) : List PublicKeyType :=
  (account.allKeys.toFinset.erase 0).sort

/-- A key of an account that is stored: a record of its own, or one more private key that makes the account
mine. -/
def claimKey (storeKey : KeyData → Db Unit) (e : WalletAccountEntry) (publicKey : PublicKeyType) :
    Db WalletAccountEntry := do
  let address := c.address publicKey
  match ← lookupKey address with
  | none =>
    storeKey { KeyData.empty with accountAddress := address, publicKey := publicKey }
    return e
  | some key =>
    if key.data.hasPrivateKey then
      let e ← if e.data.isMyAccount then pure e
        else storeAndReloadEntry c .account ⟨e.walletEntryIndex, { e.data with isMyAccount := true }⟩
      if key.data.accountAddress ≠ e.data.ownerAddress c then
        storeKey { key.data with accountAddress := e.data.ownerAddress c }
      return e
    else return e

variable [DecidableEq PrivateKey]

/-- A key without a private key, where it is the first child of the owner's. -/
def deriveKey (storeKey : KeyData → Db Unit) (owner : Address) (password : Password)
    (publicKey : PublicKeyType) : Db Unit := do
  let key ← lookupKey (c.address publicKey)
  if password ≠ 0 ∧ !key.any fun e => e.data.hasPrivateKey then
    match ← lookupKey owner with
    | none => pure ()
    | some ownerKey =>
      if ownerKey.data.hasPrivateKey then
        let ownerPrivateKey ← returned (ownerKey.data.decryptPrivateKey c password)
        let child := c.accountChild ownerPrivateKey 0
        if c.getPublicKey child = publicKey then
          let data := { KeyData.empty with accountAddress := c.address publicKey }
          storeKey (← returned (data.encryptPrivateKey c password child))

/-- `store_account`. With a password and a new account it reads the owner address of an empty `optional`,
which is whatever the memory holds. -/
def storeAccountWith (storeKey : KeyData → Db Unit) (memory : Address) (account : AccountData)
    (password : Password) : Db Unit := do
  assertOpen
  fcAssert (account.name ≠ [])
  fcAssert (account.ownerKey ≠ 0)
  let old ← lookupAccount (account.ownerAddress c)
  let e ← storeAndReloadEntry c .account ⟨old.elim 0 fun e => e.walletEntryIndex, account⟩
  let _ ← (accountPublicKeys account).foldlM (claimKey c storeKey) e
  let owner := old.elim memory fun e => e.data.ownerAddress c
  (accountPublicKeys account).forM (deriveKey c storeKey owner password)

/-- `store_key`, with as many calls inside of each other as the stack holds. -/
def storeKey (memory : Address) : Nat → KeyData → Db Unit
  | 0 => fun _ => throw .callDepth
  | depth + 1 => storeKeyWith c fun account => storeAccountWith c (storeKey memory depth) memory account 0

def storeAccount (memory : Address) (depth : Nat) : AccountData → Password → Db Unit :=
  storeAccountWith c (storeKey c memory depth) memory

end Store

/-! ## New keys -/

section NewKeys

variable [DecidableEq PrivateKey] (memory : Address) (depth : Nat)

def importKey (password : Password) (accountName : Str) (privateKey : PrivateKey)
    (moveExisting : Bool) : Db Unit := do
  assertOpen
  match ← lookupAccountName accountName with
  | none => throw .fcAssert
  | some account =>
    let owner := account.data.ownerAddress c
    let old ← lookupKey (c.address (c.getPublicKey privateKey))
    fcAssert (moveExisting ∨ old.all fun e => e.data.accountAddress == owner)
    let data := { old.elim .empty (·.data) with accountAddress := owner }
    storeKey c memory depth (← returned (data.encryptPrivateKey c password privateKey))

/-- Whether the wallet has an account or a private key for an address. -/
def taken (address : Address) : Db Bool := do
  let account ← lookupAccount address
  let key ← lookupKey address
  return account.isSome || key.any fun e => e.data.hasPrivateKey

def getWalletChildKey (password : Password) (keyIndex : Nat) : Db PrivateKey := do
  assertOpen
  let w ← get
  let master ← returned (w.walletMasterKey.bind fun e => e.data.decryptKey c password)
  return c.walletChild master keyIndex

/-- The first child of the master key whose address and whose first child's address are free, with that
child: the index overflows after as many as remain. -/
def freeWalletChild (password : Password) : Nat → Nat → Db (Nat × PrivateKey × PrivateKey)
  | 0, _ => throw .fcAssert
  | remaining + 1, keyIndex => do
    let ownerKey ← getWalletChildKey c password (keyIndex + 1)
    if ← taken (c.address (c.getPublicKey ownerKey)) then freeWalletChild password remaining (keyIndex + 1)
    else
      let activeKey := c.accountChild ownerKey 0
      if ← taken (c.address (c.getPublicKey activeKey)) then
        freeWalletChild password remaining (keyIndex + 1)
      else return (keyIndex + 1, ownerKey, activeKey)

/-- `get_last_wallet_child_key_index`. -/
def lastWalletChildKeyIndex (w : WalletDb) : Nat :=
  ((w.getProperty .nextChildKeyIndex).getD 0 % 2 ^ 32).toNat

/-- `generate_new_account`, at a time. -/
def generateNewAccount (now : TimePointSec) (password : Password) (accountName : Str)
    (privateData : Variant) : Db PublicKeyType := do
  assertOpen
  fcAssert ((← lookupAccountName accountName).isNone)
  let last := (← get).lastWalletChildKeyIndex
  let (keyIndex, ownerPrivateKey, activePrivateKey) ← freeWalletChild c password (2 ^ 32 - 1 - last) last
  let ownerKey := c.getPublicKey ownerPrivateKey
  let data := { KeyData.empty with accountAddress := c.address ownerKey }
  let active ← returned (data.encryptPrivateKey c password activePrivateKey)
  let owner ← returned
    ({ data with genSeqNumber := keyIndex }.encryptPrivateKey c password ownerPrivateKey)
  fcAssert (now ≠ 0)
  let account : AccountData :=
    { id := 0, name := accountName, publicData := 0, ownerKey
      activeKeyHistory := .single now (c.getPublicKey activePrivateKey), registrationDate := 0
      lastUpdate := now, delegateInfo := none, metaData := none, isMyAccount := true, approved := 0
      isFavorite := false, blockProductionEnabled := false, lastUsedGenSequence := 0, privateData }
  storeKey c memory depth active
  setProperty c .nextChildKeyIndex keyIndex
  storeKey c memory depth owner
  storeAccount c memory depth account 0
  return ownerKey

/-- The first child of an account's active key whose address has no private key in the wallet. -/
def freeAccountChild (activePrivateKey : PrivateKey) : Nat → Nat → Db (Nat × PrivateKey)
  | 0, _ => throw .fcAssert
  | remaining + 1, seqNum => do
    let child := c.accountChild activePrivateKey (seqNum + 1)
    let key ← lookupKey (c.address (c.getPublicKey child))
    if key.any fun e => e.data.hasPrivateKey then freeAccountChild activePrivateKey remaining (seqNum + 1)
    else return (seqNum + 1, child)

def generateNewAccountChildKey (password : Password) (accountName : Str) : Db PrivateKey := do
  assertOpen
  match ← lookupAccountName accountName with
  | none => throw .fcAssert
  | some account =>
    fcAssert (!account.data.isRetracted)
    fcAssert account.data.isMyAccount
    match ← lookupKey (account.data.activeAddress c) with
    | none => throw .fcAssert
    | some key =>
      fcAssert key.data.hasPrivateKey
      let activePrivateKey ← returned (key.data.decryptPrivateKey c password)
      let last := account.data.lastUsedGenSequence
      let (seqNum, child) ← freeAccountChild c activePrivateKey (2 ^ 32 - 1 - last) last
      let data :=
        { KeyData.empty with accountAddress := account.data.ownerAddress c, genSeqNumber := seqNum }
      let childKey ← returned (data.encryptPrivateKey c password child)
      storeAccount c memory depth { account.data with lastUsedGenSequence := seqNum } 0
      storeKey c memory depth childKey
      return child

/-- `generate_new_one_time_key`, with the key generated. -/
def generateNewOneTimeKey (password : Password) (oneTimePrivateKey : PrivateKey) : Db Unit := do
  assertOpen
  fcAssert ((← lookupKey (c.address (c.getPublicKey oneTimePrivateKey))).isNone)
  storeKey c memory depth (← returned (KeyData.empty.encryptPrivateKey c password oneTimePrivateKey))

end NewKeys

/-! ## The password -/

section Password

variable [DecidableEq ExtendedPrivateKey]

def setMasterKey (extendedKey : ExtendedPrivateKey) (newPassword : Password) : Db Unit := do
  let key ← returned (MasterKey.encryptKey c newPassword extendedKey)
  let _ ← storeAndReloadEntry c .masterKey ⟨-1, key⟩

variable [DecidableEq PrivateKey]

/-- The key at an address is decrypted, encrypted and stored, if it is there and has a private key. -/
def changeKey (oldPassword newPassword : Password) (address : Address) : Db Unit := do
  match (← get).keys.lookup address with
  | none => pure ()
  | some e =>
    if e.data.hasPrivateKey then
      let privKey ← returned (e.data.decryptPrivateKey c oldPassword)
      let key ← returned (e.data.encryptPrivateKey c newPassword privKey)
      let _ ← storeAndReloadEntry c .key ⟨e.walletEntryIndex, key⟩

/-- `change_password`. The keys come in some order. -/
def changePassword (order : List Address) (oldPassword newPassword : Password) : Db Unit := do
  assertOpen
  let w ← get
  let master ← returned (w.walletMasterKey.bind fun e => e.data.decryptKey c oldPassword)
  setMasterKey c master newPassword
  order.forM (changeKey c oldPassword newPassword)

end Password

/-! ## Removing an account -/

section Remove

/-- The maps that lead to an account lose it. -/
def forgetAccount (e : WalletAccountEntry) (w : WalletDb) : WalletDb :=
  { w with
    accounts := w.accounts.erase e.walletEntryIndex
    addressToAccountWalletEntryIndex :=
      e.data.allKeys.foldl (fun t key => t.erase (c.address key)) w.addressToAccountWalletEntryIndex }

def removeContract (e : WalletContractEntry) : Db Unit := do
  modify fun w => { w with idToEntryForContract := w.idToEntryForContract.erase e.data.id }
  removeGenericWalletEntry (.contract e)

def removeContracts (owner : Address) : Db Unit := do
  let w ← get
  ((w.contractsOfWallet.lookup owner).getD []).forM removeContract
  modify fun w => { w with contractsOfWallet := w.contractsOfWallet.erase owner }

/-- The owner, active and signing keys an account has now. -/
def currentKeys (account : AccountData) : List PublicKeyType :=
  account.ownerKey :: account.activeKey :: account.signingKey.toList

/-- The addresses of a key lead to it no longer. -/
def forgetDerived (key : PublicKeyType) (w : WalletDb) : WalletDb :=
  { w with btcToAlpAddress := (derivedAddresses c key).foldl (fun t a => t.erase a) w.btcToAlpAddress }

/-- The entry of a key that is still found by its address. -/
def removeFoundKey (key : PublicKeyType) : Db Unit := do
  match ← lookupKey (c.address key) with
  | none => pure ()
  | some e => removeGenericWalletEntry (.key e)

def removeKey (key : PublicKeyType) : Db Unit := do
  match (← get).keys.lookup (c.address key) with
  | none => pure ()
  | some e =>
    removeGenericWalletEntry (.key e)
    modify fun w => { w with keys := w.keys.erase (c.address key) }

def removeTransactionAt (id : TransactionIdType) : Db Unit := do
  match (← get).transactions.lookup id with
  | none => pure ()
  | some e =>
    removeGenericWalletEntry (.transaction e)
    modify fun w => { w with transactions := w.transactions.erase id }

/-- `remove_account`. The transactions come in some order, and all of them go. -/
def removeAccount (order : List TransactionIdType) (accountName : Str) : Db Unit := do
  match ← lookupAccountName accountName with
  | none => pure ()
  | some e =>
    modify (forgetAccount c e)
    removeContracts (e.data.ownerAddress c)
    modify fun w => { w with
      nameToAccountWalletEntryIndex := w.nameToAccountWalletEntryIndex.erase e.data.name
      accountIdToWalletEntryIndex := w.accountIdToWalletEntryIndex.erase e.data.id }
    removeGenericWalletEntry (.account e)
    (currentKeys e.data).forM fun key => modify (forgetDerived c key)
    (currentKeys e.data).forM (removeFoundKey c)
    (currentKeys e.data).forM (removeKey c)
    order.forM removeTransactionAt

end Remove

end WalletDb

end Achain.Wallets
