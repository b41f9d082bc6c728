import Achain.Memos

/-!
# Reading back a memo

The receiver of a deposit reads the message, the key of the sender and the flags that were written. The
signature of a memo is checked with the key derived for the deposit, with which it was made only for a
stealth address.
-/

namespace Achain.Memos

/-! ## Packing -/

theorem readBytes_append {n : Nat} (l rest : Bytes) (h : l.length = n) :
    readBytes n (l ++ rest) = .ok (⟨l, h⟩, rest) := by
  subst h
  simp [readBytes]

theorem readBytes_toList {n : Nat} (v : List.Vector UInt8 n) (rest : Bytes) :
    readBytes n (v.toList ++ rest) = .ok (v, rest) :=
  readBytes_append v.toList rest v.2

theorem length_packWord (w : UInt64) : (packWord w).length = 8 := by simp [packWord]

theorem unpackWord_packWord (w : UInt64) : unpackWord (packWord w) = w := by
  have hlt := w.toNat_lt
  refine UInt64.toNat_inj.1 ?_
  simp only [unpackWord, packWord, List.range, List.range.loop, List.map_cons, List.map_nil,
    List.foldr_cons, List.foldr_nil, UInt8.toNat_ofNat', UInt64.toNat_ofNat']
  omega

theorem readBytes_word (w : UInt64) (rest : Bytes) :
    readBytes 8 (packWord w ++ rest) = .ok (⟨packWord w, length_packWord w⟩, rest) :=
  readBytes_append _ _ _

theorem readBytes_flags (b : UInt8) (rest : Bytes) :
    readBytes 1 (b :: rest) = .ok (⟨[b], rfl⟩, rest) :=
  readBytes_append [b] rest rfl

theorem unpack_pack (m : MemoData) : MemoData.unpack m.pack = .ok m := by
  simp only [MemoData.unpack, MemoData.pack, List.append_assoc, readBytes_toList, readBytes_word,
    readBytes_flags, Result.ok_bind]
  exact congrArg (fun w => Except.ok (MemoData.mk m.from w m.message m.memoFlags))
    (unpackWord_packWord m.fromSignature)

theorem unpack_pack_extended (m : ExtendedMemoData) : ExtendedMemoData.unpack m.pack = .ok m := by
  have hextra := readBytes_append m.extraMemo.toList [] m.extraMemo.2
  rw [List.append_nil] at hextra
  simp only [ExtendedMemoData.unpack, ExtendedMemoData.pack, List.append_assoc, readBytes_toList,
    readBytes_word, List.singleton_append, readBytes_flags, hextra, Result.ok_bind]
  exact congrArg (fun w => Except.ok (ExtendedMemoData.mk m.from w m.message m.memoFlags m.extraMemo))
    (unpackWord_packWord m.fromSignature)

theorem length_pack (m : MemoData) : m.pack.length = 61 := by
  have hmessage : m.message.toList.length = 19 := m.message.2
  simp [MemoData.pack, length_packWord, hmessage]

theorem length_pack_extended (m : ExtendedMemoData) : m.pack.length = 93 := by
  have hmessage : m.message.toList.length = 19 := m.message.2
  have hextra : m.extraMemo.toList.length = 32 := m.extraMemo.2
  simp [ExtendedMemoData.pack, length_packWord, hmessage, hextra]

/-! ## Messages -/

section Messages

variable {m : Bytes}

theorem toList_copied {n : Nat} (h : m.length ≤ n) :
    (copied n m).toList = m ++ List.replicate (n - m.length) 0 := by
  change (m ++ List.replicate n 0).take n = _
  rw [List.take_append, List.take_of_length_le h, List.take_replicate, min_eq_left (Nat.sub_le n _)]

/-- A message is read back from in front of zeros. -/
theorem cString_append_zeros (h : 0 ∉ m) (n : Nat) : cString (m ++ List.replicate n 0) = m := by
  have hpos : ∀ b ∈ m, decide (b ≠ 0) = true := fun b hb => decide_eq_true fun hzero => h (hzero ▸ hb)
  rw [cString, List.takeWhile_append_of_pos hpos]
  cases n with
  | zero => simp
  | succ n => simp [List.replicate_succ]

theorem cString_short (h : 0 ∉ m) (hlen : m.length ≤ maxMemoSize) :
    cString ((copied maxMemoSize m).toList ++ (copied extendedMemoSize []).toList) = m := by
  rw [toList_copied hlen, toList_copied (Nat.zero_le _), List.nil_append, List.append_assoc,
    List.replicate_append_replicate]
  exact cString_append_zeros h _

theorem cString_long (h : 0 ∉ m) (hlong : maxMemoSize < m.length)
    (hlen : m.length ≤ maxMemoSize + extendedMemoSize) :
    cString ((copied maxMemoSize (m.take maxMemoSize)).toList ++
      (copied extendedMemoSize (m.drop maxMemoSize)).toList) = m := by
  have htake : (m.take maxMemoSize).length = maxMemoSize := by
    rw [List.length_take, min_eq_left hlong.le]
  have hdrop : (m.drop maxMemoSize).length ≤ extendedMemoSize := by
    rw [List.length_drop]
    omega
  rw [toList_copied htake.le, toList_copied hdrop, htake, Nat.sub_self, List.replicate_zero,
    List.append_nil, ← List.append_assoc, List.take_append_drop]
  exact cString_append_zeros h _

end Messages

/-! ## The round trip -/

/-- What is known of the keys and the cipher: a key pair is not the empty one, shared secrets are
symmetric, the child of a public key is the public key of the child, and the cipher, which pads to
blocks of 16 bytes, is inverted. -/
structure Crypto.Lawful {PrivateKey PublicKey : Type} (c : Crypto PrivateKey PublicKey) : Prop where
  ofData_serialize : ∀ k, c.ofData (c.serialize k) = k
  serialize_ne_null : ∀ k, k ≠ c.nullKey → c.serialize (c.getPublicKey k) ≠ nullKeyData
  sharedSecret_comm : ∀ k k',
    c.getSharedSecret k (c.getPublicKey k') = c.getSharedSecret k' (c.getPublicKey k)
  publicKey_generateFromSeed : ∀ k offset,
    c.getPublicKey (c.generateFromSeed k offset) = c.add (c.getPublicKey k) offset
  aesDecrypt_aesEncrypt : ∀ secret plain, c.aesDecrypt secret (c.aesEncrypt secret plain) = some plain
  length_aesEncrypt : ∀ secret plain,
    (c.aesEncrypt secret plain).length = 16 * (plain.length / 16 + 1)

namespace WithdrawWithSignature

variable {PrivateKey PublicKey : Type} {c : Crypto PrivateKey PublicKey}
  {receiver oneTime sender : PrivateKey} {message : Bytes} {memoKey : PublicKey} {flags : MemoFlagsEnum}
  {stealth : Bool}

theorem publicKey_child (hc : c.Lawful) (k : PrivateKey) (chainCode childIdx : Sha256) :
    c.getPublicKey (ExtendedPrivateKey.child c ⟨k, chainCode⟩ childIdx).privKey =
      (ExtendedPublicKey.child c ⟨c.getPublicKey k, chainCode⟩ childIdx).pubKey :=
  hc.publicKey_generateFromSeed _ _

/-- The address mode of a deposit decides for which key of the receiver it is. -/
def ownerKey (c : Crypto PrivateKey PublicKey) (receiver oneTime : PrivateKey) (stealth : Bool) :
    PrivateKey :=
  if stealth then
    secretPrivateKey c receiver (c.getSharedSecret oneTime (c.getPublicKey receiver))
  else receiver

theorem decryptMemo_short (hc : c.Lawful) (secret : Sha512) (oneTimeKey : PublicKeyData)
    (content : MemoData) :
    decryptMemo c secret ⟨oneTimeKey, c.aesEncrypt secret content.pack⟩ =
      .ok ⟨content.from, content.fromSignature, content.message, content.memoFlags, copied _ []⟩ := by
  have hsize : ¬ sizeofMemoData < (c.aesEncrypt secret content.pack).length := by
    rw [hc.length_aesEncrypt, length_pack]
    decide
  simp only [decryptMemo, hc.aesDecrypt_aesEncrypt, Option.elim_some, Result.ok_bind, if_neg hsize,
    unpack_pack]
  rfl

theorem decryptMemo_long (hc : c.Lawful) (secret : Sha512) (oneTimeKey : PublicKeyData)
    (content : ExtendedMemoData) :
    decryptMemo c secret ⟨oneTimeKey, c.aesEncrypt secret content.pack⟩ = .ok content := by
  have hsize : sizeofMemoData < (c.aesEncrypt secret content.pack).length := by
    rw [hc.length_aesEncrypt, length_pack_extended]
    decide
  simp only [decryptMemo, hc.aesDecrypt_aesEncrypt, Option.elim_some, Result.ok_bind, if_pos hsize,
    unpack_pack_extended]

variable [DecidableEq PrivateKey]

variable (receiver oneTime sender memoKey flags stealth) in
/-- What is written, and what the shared secret makes of it. -/
theorem encryptMemoData_ok (hc : c.Lawful) (hlen : message.length ≤ maxMemoSize + extendedMemoSize)
    (hzero : 0 ∉ message) : ∃ (w : WithdrawWithSignature) (tm : TransferMemo) (memo : ExtendedMemoData),
      encryptMemoData c oneTime (c.getPublicKey receiver) sender message memoKey flags stealth =
        .ok (w, c.getPublicKey (ownerKey c receiver oneTime stealth)) ∧
      w.owner = c.address (c.serialize (c.getPublicKey (ownerKey c receiver oneTime stealth))) ∧
      w.memo = some tm ∧ tm.oneTimeKey = c.serialize (c.getPublicKey oneTime) ∧
      decryptMemo c (c.getSharedSecret oneTime (c.getPublicKey receiver)) tm = .ok memo ∧
      memo.getMessage = message ∧ memo.from = c.serialize memoKey ∧ memo.memoFlags = flags.value ∧
      memo.fromSignature =
        checkWord c sender (c.getPublicKey (ownerKey c receiver oneTime stealth)) := by
  have howner : (if stealth = true then (ExtendedPublicKey.child c ⟨c.getPublicKey receiver, fun _ => 0⟩
      (c.sha256 (c.getSharedSecret oneTime (c.getPublicKey receiver)))).pubKey
      else c.getPublicKey receiver) = c.getPublicKey (ownerKey c receiver oneTime stealth) := by
    unfold ownerKey
    split_ifs
    · exact (publicKey_child hc _ _ _).symm
    · rfl
  unfold encryptMemoData
  simp only [howner]
  by_cases hshort : message.length ≤ maxMemoSize
  · have hset : setMessage message = .ok (copied _ message) := by
      unfold setMessage
      split_ifs with hnil
      · rw [hnil]
      · rfl
    simp only [if_pos hshort, hset, Result.ok_bind]
    exact ⟨_, _, _, rfl, rfl, rfl, rfl, decryptMemo_short hc _ _ _, cString_short hzero hshort, rfl, rfl,
      rfl⟩
  · have hnil : message ≠ [] := by
      rintro rfl
      exact hshort (Nat.zero_le _)
    have hset : setExtendedMessage message =
        .ok (copied _ (message.take maxMemoSize), copied _ (message.drop maxMemoSize)) := by
      rw [setExtendedMessage, if_neg hnil, if_pos hlen, if_neg hshort]
    simp only [if_neg hshort, hset, Result.ok_bind]
    exact ⟨_, _, _, rfl, rfl, rfl, rfl, decryptMemo_long hc _ _ _,
      cString_long hzero (not_le.1 hshort) hlen, rfl, rfl, rfl⟩

/-- The receiver reads what was written, and a signature of the sender as valid. A memo for a plain address
is read with `ignore_owner`. -/
def RoundTrips (c : Crypto PrivateKey PublicKey) (receiver oneTime sender : PrivateKey) (message : Bytes)
    (memoKey : PublicKey) (flags : MemoFlagsEnum) (stealth : Bool) : Prop :=
  ∃ (w : WithdrawWithSignature) (key : PublicKey) (status : MemoStatus PrivateKey),
    encryptMemoData c oneTime (c.getPublicKey receiver) sender message memoKey flags stealth =
      .ok (w, key) ∧
    decryptMemoData c w receiver (!stealth) = .ok (some status) ∧
    status.memo.getMessage = message ∧ status.memo.from = c.serialize memoKey ∧
    status.memo.memoFlags = flags.value ∧
    (memoKey = c.getPublicKey sender → status.hasValidSignature = true)

/-- The private key by which the receiver checks the signature, whatever the address mode. -/
def checkKey (c : Crypto PrivateKey PublicKey) (receiver oneTime : PrivateKey) : PrivateKey :=
  ownerKey c receiver oneTime true

variable (receiver oneTime sender memoKey flags stealth) in
/-- What the receiver reads. -/
theorem decryptMemoData_encrypted (hc : c.Lawful) (hlen : message.length ≤ maxMemoSize + extendedMemoSize)
    (hzero : 0 ∉ message) : ∃ (w : WithdrawWithSignature) (memo : ExtendedMemoData),
      encryptMemoData c oneTime (c.getPublicKey receiver) sender message memoKey flags stealth =
        .ok (w, c.getPublicKey (ownerKey c receiver oneTime stealth)) ∧
      decryptMemoData c w receiver (!stealth) = .ok (some ⟨memo,
        validSignature c (checkKey c receiver oneTime) memo, checkKey c receiver oneTime⟩) ∧
      memo.getMessage = message ∧ memo.from = c.serialize memoKey ∧ memo.memoFlags = flags.value ∧
      memo.fromSignature =
        checkWord c sender (c.getPublicKey (ownerKey c receiver oneTime stealth)) := by
  obtain ⟨w, tm, memo, hencrypt, howner, htm, hkey, hdecrypt, hmessage, hfrom, hflags, hword⟩ :=
    encryptMemoData_ok receiver oneTime sender memoKey flags stealth hc hlen hzero
  refine ⟨w, memo, hencrypt, ?_, hmessage, hfrom, hflags, hword⟩
  have hsecret : c.getSharedSecret receiver (c.ofData tm.oneTimeKey) =
      c.getSharedSecret oneTime (c.getPublicKey receiver) := by
    rw [hkey, hc.ofData_serialize, hc.sharedSecret_comm]
  have hcheck : secretPrivateKey c receiver (c.getSharedSecret oneTime (c.getPublicKey receiver)) =
      checkKey c receiver oneTime := rfl
  have howned : (!!stealth && w.owner != c.address
      (c.serialize (c.getPublicKey (checkKey c receiver oneTime)))) = false := by
    cases stealth with
    | false => rfl
    | true => simp [howner, checkKey]
  simp only [decryptMemoData, htm, hsecret, hcheck, howned, hdecrypt]
  rfl

/-- The words that the writer and the reader of a signed memo compare are those of the key that owns the
deposit and of the key derived for it. -/
theorem validSignature_iff (hc : c.Lawful) (hsender : sender ≠ c.nullKey) {memo : ExtendedMemoData}
    (hfrom : memo.from = c.serialize (c.getPublicKey sender)) (hflags : memo.memoFlags = flags.value)
    (hword : memo.fromSignature =
      checkWord c sender (c.getPublicKey (ownerKey c receiver oneTime stealth))) (key : PrivateKey) :
    validSignature c key memo = true ↔ flags = .toMemo ∨
      c.getSharedSecret key (c.getPublicKey sender) 0 =
        c.getSharedSecret (ownerKey c receiver oneTime stealth) (c.getPublicKey sender) 0 := by
  have hkey := hc.serialize_ne_null sender hsender
  rw [checkWord, if_pos hsender, hc.sharedSecret_comm] at hword
  cases flags with
  | toMemo => simp [validSignature, hflags, MemoFlagsEnum.value]
  | fromMemo => simp [validSignature, hflags, hfrom, hkey, hword, hc.ofData_serialize]

/-- A memo comes back unless its signature is taken for invalid. -/
theorem roundTrips_iff (hc : c.Lawful) (hsender : sender ≠ c.nullKey)
    (hlen : message.length ≤ maxMemoSize + extendedMemoSize) (hzero : 0 ∉ message) :
    RoundTrips c receiver oneTime sender message memoKey flags stealth ↔
      (memoKey = c.getPublicKey sender → flags = .toMemo ∨
        c.getSharedSecret (checkKey c receiver oneTime) (c.getPublicKey sender) 0 =
          c.getSharedSecret (ownerKey c receiver oneTime stealth) (c.getPublicKey sender) 0) := by
  obtain ⟨w, memo, hencrypt, hdecrypt, hmessage, hfrom, hflags, hword⟩ :=
    decryptMemoData_encrypted receiver oneTime sender memoKey flags stealth hc hlen hzero
  have hvalid : (memoKey = c.getPublicKey sender → flags = .toMemo ∨
      c.getSharedSecret (checkKey c receiver oneTime) (c.getPublicKey sender) 0 =
        c.getSharedSecret (ownerKey c receiver oneTime stealth) (c.getPublicKey sender) 0) ↔
      (memoKey = c.getPublicKey sender → validSignature c (checkKey c receiver oneTime) memo = true) := by
    refine forall_congr' fun hkey => ?_
    rw [hkey] at hfrom
    exact (validSignature_iff hc hsender hfrom hflags hword _).symm
  rw [hvalid]
  constructor
  · rintro ⟨w', key', status, hencrypt', hdecrypt', -, -, -, hvalid⟩
    rw [hencrypt, Except.ok.injEq, Prod.mk.injEq] at hencrypt'
    rw [← hencrypt'.1, hdecrypt, Except.ok.injEq, Option.some.injEq] at hdecrypt'
    rw [← hdecrypt'] at hvalid
    exact hvalid
  · intro hvalid
    refine ⟨w, _, _, hencrypt, hdecrypt, hmessage, hfrom, hflags, ?_⟩
    exact hvalid

/-- A memo comes back unless it is for a plain address and has a signature of the sender, and the first
words of the secrets that the sender shares with the derived key and with the receiver's are different. -/
theorem memo_roundTrips_iff (hc : c.Lawful) (hsender : sender ≠ c.nullKey)
    (hlen : message.length ≤ maxMemoSize + extendedMemoSize) (hzero : 0 ∉ message) :
    RoundTrips c receiver oneTime sender message memoKey flags stealth ↔
      stealth = true ∨ flags = .toMemo ∨ memoKey ≠ c.getPublicKey sender ∨
        c.getSharedSecret (checkKey c receiver oneTime) (c.getPublicKey sender) 0 =
          c.getSharedSecret receiver (c.getPublicKey sender) 0 := by
  rw [roundTrips_iff hc hsender hlen hzero]
  cases stealth with
  | true => exact iff_of_true (fun _ => .inr rfl) (.inl rfl)
  | false =>
    have howner : ownerKey c receiver oneTime false = receiver := rfl
    rw [howner]
    tauto

/-- A deposit that `deposit_to_account` makes is for the plain address, and its signature is valid for the
receiver only where those words are the same. -/
theorem depositToAccount_signed_iff (hc : c.Lawful) (hsender : sender ≠ c.nullKey)
    (hlen : message.length ≤ maxMemoSize + extendedMemoSize) (hzero : 0 ∉ message) :
    (∃ (w : WithdrawWithSignature) (key : PublicKey) (status : MemoStatus PrivateKey),
      depositToAccount c (c.getPublicKey receiver) sender message (c.getPublicKey sender) oneTime
        .fromMemo stealth = .ok (w, key) ∧
      decryptMemoData c w receiver true = .ok (some status) ∧ status.hasValidSignature = true) ↔
        c.getSharedSecret (checkKey c receiver oneTime) (c.getPublicKey sender) 0 =
          c.getSharedSecret receiver (c.getPublicKey sender) 0 := by
  obtain ⟨w, memo, hencrypt, hdecrypt, -, hfrom, hflags, hword⟩ :=
    decryptMemoData_encrypted receiver oneTime sender (c.getPublicKey sender) .fromMemo false hc hlen
      hzero
  rw [Bool.not_false] at hdecrypt
  have hvalid := validSignature_iff hc hsender hfrom hflags hword (checkKey c receiver oneTime)
  simp only [reduceCtorEq, false_or] at hvalid
  refine Iff.trans ⟨?_, fun hsigned => ?_⟩ hvalid
  · rintro ⟨w', key', status, hencrypt', hdecrypt', hsigned⟩
    rw [depositToAccount, hencrypt, Except.ok.injEq, Prod.mk.injEq] at hencrypt'
    rw [← hencrypt'.1, hdecrypt, Except.ok.injEq, Option.some.injEq] at hdecrypt'
    rw [← hdecrypt'] at hsigned
    exact hsigned
  · exact ⟨w, _, _, hencrypt, hdecrypt, hsigned⟩

section Example

/-- Keys that are words, shared secrets that are their products, and a cipher that pads and combines the
bytes with one of the secret. -/
def wordCrypto : Crypto UInt64 UInt64 where
  nullKey := 0
  getPublicKey k := k
  serialize k := ⟨packWord k ++ List.replicate 25 0, by simp [length_packWord]⟩
  ofData d := unpackWord (d.toList.take 8)
  getSharedSecret k k' := fun _ => k * k'
  add k offset := k + offset 0
  generateFromSeed k offset := k + offset 0
  sha256 secret := fun i => left secret i + 1
  sha512 key childIdx chainCode := fun _ => unpackWord (key.toList.take 8) + childIdx 0 + chainCode 0 + 1
  aesEncrypt secret plain :=
    let pad := 16 - plain.length % 16
    (plain ++ List.replicate pad (UInt8.ofNat pad)).map (· ^^^ (left secret 0).toUInt8)
  aesDecrypt secret cipher :=
    let plain := cipher.map (· ^^^ (left secret 0).toUInt8)
    plain.getLast?.map fun pad => plain.take (plain.length - pad.toNat)
  address key := (unpackWord (key.toList.take 8)).toNat

theorem wordCrypto_lawful : wordCrypto.Lawful := by
  have hofData : ∀ k, wordCrypto.ofData (wordCrypto.serialize k) = k := by
    intro k
    have htake : (packWord k ++ List.replicate 25 0).take 8 = packWord k :=
      List.take_left' (length_packWord k)
    exact (congrArg unpackWord htake).trans (unpackWord_packWord k)
  refine ⟨hofData, fun k hk hnull => ?_, fun k k' => ?_, fun _ _ => rfl, fun secret plain => ?_,
    fun secret plain => ?_⟩
  · have hzero := hofData k
    rw [show wordCrypto.serialize k = nullKeyData from hnull] at hzero
    exact hk (hzero.symm.trans (by decide))
  · funext i
    exact UInt64.mul_comm k k'
  · have hcancel : ∀ l : Bytes, (l.map (· ^^^ (left secret 0).toUInt8)).map (· ^^^ (left secret 0).toUInt8) = l := by
      intro l
      rw [List.map_map]
      refine (List.map_congr_left fun b _ => ?_).trans (List.map_id l)
      show (b ^^^ _) ^^^ _ = b
      rw [UInt8.xor_assoc, UInt8.xor_self, UInt8.xor_zero]
    obtain ⟨pad, hpad⟩ : ∃ pad, 16 - plain.length % 16 = pad + 1 :=
      ⟨15 - plain.length % 16, by omega⟩
    have hlast : (plain ++ List.replicate (pad + 1) (UInt8.ofNat (pad + 1))).getLast? =
        some (UInt8.ofNat (pad + 1)) := by
      rw [List.replicate_succ', ← List.append_assoc, List.getLast?_append]
      rfl
    have hbyte : (UInt8.ofNat (pad + 1)).toNat = pad + 1 := by
      rw [UInt8.toNat_ofNat']
      omega
    simp only [wordCrypto, hcancel, hpad, hlast, Option.map_some, hbyte]
    rw [List.length_append, List.length_replicate, Nat.add_sub_cancel, List.take_left]
  · simp only [wordCrypto, List.length_map, List.length_append, List.length_replicate]
    omega

/-- For a plain address the sender's memo comes back with a signature taken for invalid. -/
theorem plain_memo_not_valid :
    ¬ RoundTrips wordCrypto 5 7 11 [72, 105] (wordCrypto.getPublicKey 11) .fromMemo false := by
  rw [roundTrips_iff wordCrypto_lawful (by decide) (by decide) (by decide)]
  intro hvalid
  exact absurd (hvalid rfl) (by decide)

theorem memo_roundTrips_words :
    RoundTrips wordCrypto 5 7 11 [72, 105] 11 .fromMemo true :=
  (memo_roundTrips_iff wordCrypto_lawful (by decide) (by decide) (by decide)).2 (.inl rfl)

end Example

end WithdrawWithSignature

end Achain.Memos
