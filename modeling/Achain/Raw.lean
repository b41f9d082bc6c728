import Achain.ChainDatabase
import Achain.Lib.Codecs
import Mathlib.Data.Nat.Bitwise
import Mathlib.Data.UInt

/-!
# The bytes of blocks

`fc::raw::pack` writes transactions and blocks as bytes, field after field, and `fc::raw::unpack` reads
them. Numbers that are mostly small are written seven bits a byte. Containers come after how many
elements they have, and are read only if these take less than `MAX_ARRAY_ALLOC_SIZE` bytes of memory.
The fields of transactions and blocks are in the order in which they are reflected.

`fc::raw::pack_size` says beforehand how many bytes are written for a transaction and for a block.
The numbers of fixed width take theirs, hashes 20 or 32 bytes and signatures 65.
-/

namespace Achain

/-! ## Packed sizes -/

/-- An `unsigned_int`, of which a byte holds seven bits. -/
def packedUnsigned (val : Nat) : Nat :=
  if val / 128 = 0 then 1 else packedUnsigned (val / 128) + 1
termination_by val

/-- The number of elements of a container, cast to 32 bits. -/
def packedCount (size : Nat) : Nat := packedUnsigned (size % 2 ^ 32)

/-- A `signed_int`: the bit of the sign goes last. -/
def packedSigned (value : Int) : Nat :=
  packedUnsigned (if value < 0 then 2 * value.natAbs - 1 else 2 * value.natAbs)

def packedString (v : Str) : Nat := packedCount v.length + v.length

def Asset.packedSize (a : Asset) : Nat := 8 + packedSigned a.assetId

/-- `SignedTransaction::data_size`, from the sizes of the operations. -/
def SignedTransaction.packedSize (operationSize : Operation → Nat) (t : SignedTransaction) : Nat :=
  4 + (if t.reserved.isSome then 9 else 1) + packedString t.alpAccount +
    t.alpInportAsset.packedSize + packedCount t.operations.length +
    (t.operations.map operationSize).sum + 1 + 20 + packedCount t.signatures.length +
    65 * t.signatures.length

/-- A `SignedBlockHeader`, whose fields all have a fixed width. -/
def blockHeaderSize : Nat := 20 + 4 + 4 + 32 + 20 + 20 + 65

/-- `FullBlock::block_size`. -/
def FullBlock.blockSize (P : Primitives) (b : FullBlock) : Nat :=
  blockHeaderSize + packedCount b.userTransactions.length +
    (b.userTransactions.map P.dataSize).sum

/-- A default constructed block. -/
def FullBlock.empty : FullBlock := ⟨.empty, []⟩

theorem packedUnsigned_mono {m n : Nat} (h : m ≤ n) : packedUnsigned m ≤ packedUnsigned n := by
  induction n using Nat.strong_induction_on generalizing m with
  | _ n ih =>
    have hdiv : m / 128 ≤ n / 128 := Nat.div_le_div_right h
    unfold packedUnsigned
    by_cases hm : m / 128 = 0
    · rw [if_pos hm]
      split_ifs
      · exact le_refl 1
      · exact Nat.le_add_left _ _
    · have hn : n / 128 ≠ 0 := by omega
      rw [if_neg hm, if_neg hn]
      exact Nat.succ_le_succ (ih (n / 128) (by omega) hdiv)

theorem packedUnsigned_pos (n : Nat) : 0 < packedUnsigned n := by
  rw [packedUnsigned]
  split_ifs <;> omega

theorem packedCount_mono {m n : Nat} (h : m ≤ n) (hn : n < 2 ^ 32) : packedCount m ≤ packedCount n := by
  rw [packedCount, packedCount, Nat.mod_eq_of_lt (h.trans_lt hn), Nat.mod_eq_of_lt hn]
  exact packedUnsigned_mono h

theorem packedCount_pos (n : Nat) : 0 < packedCount n := packedUnsigned_pos _

end Achain

namespace Achain.Raw

open Sources Codecs

/-- Reading ends with the bytes or at an assertion, or a number is shifted by more bits than it has. -/
inductive Fault where
  | outOfRange | assertion | undefined
  deriving DecidableEq

abbrev Unpack := StateT (List UInt8) (Except Fault)

abbrev Codec := Codecs.Codec Fault.outOfRange UInt8

/-! ## Streams -/

/-- `datastream::get`. -/
def get : Unpack UInt8 := fun s =>
  match s with
  | [] => .error .outOfRange
  | b :: s => .ok (b, s)

/-- `datastream::read`. -/
def read (size : Nat) : Unpack (List UInt8) := fun s =>
  if size ≤ s.length then .ok (s.take size, s.drop size) else .error .outOfRange

theorem recovers_get (b : UInt8) : Recovers head .outOfRange get [b] b where
  returns s s' h := by
    rw [feeds_head.1 h]
    rfl
  starves bs s s' hbs hne h hend := by
    cases s' with
    | cons c s' => cases hend
    | nil =>
      have hlt : bs.length < 1 := lt_of_le_of_ne hbs.length_le fun hlen => hne (hbs.eq_of_length hlen)
      rw [feeds_head.1 h, List.append_nil, List.length_eq_zero_iff.1 (Nat.lt_one_iff.1 hlt)]
      rfl

theorem recovers_read (bs : List UInt8) : Recovers head .outOfRange (read bs.length) bs bs where
  returns s s' h := by
    rw [feeds_head.1 h, read, if_pos (by simp), List.take_left, List.drop_left]
  starves l s s' hl hne h hend := by
    cases s' with
    | cons c s' => cases hend
    | nil =>
      rw [feeds_head.1 h, List.append_nil, read, if_neg]
      exact fun hlen => hne (hl.eq_of_length_le hlen)

/-! ## Numbers -/

/-- The bytes of an `unsigned_int`, of which all but the last have their highest bit set. -/
def packVarint (val : Nat) : List UInt8 :=
  if 0 < val / 128 then UInt8.ofNat (val % 128 ||| 128) :: packVarint (val / 128)
  else [UInt8.ofNat (val % 128)]
termination_by val

/-- The loop that reads them. The seven bits of a byte go to `shift`, within 32 bits. -/
def unpackVarint (v shift : Nat) : Unpack Nat
  | [] => .error .outOfRange
  | b :: s =>
    if shift < 32 then
      let v := v ||| ((b.toNat % 128) <<< shift) % 2 ^ 32
      if 128 ≤ b.toNat then unpackVarint v (shift + 7) s else .ok (v, s)
    else .error .undefined

/-- The size of a container is cast to 32 bits. -/
def packUnsigned (val : Nat) : List UInt8 := packVarint (val % 2 ^ 32)

def unpackUnsigned : Unpack Nat := unpackVarint 0 0

/-- The number that is written for a `signed_int`. -/
def zigzag (value : Int32) : UInt32 := ((value <<< 1) ^^^ (value >>> 31)).toUInt32

/-- The `signed_int` that is made of the number that is read. -/
def unzigzag (v : UInt32) : Int32 :=
  let value := (((v >>> 1) ^^^ (v >>> 31)) + (v &&& 1)).toInt32
  if v &&& 1 ≠ 0 then -value else - -value

def packSigned (value : Int32) : List UInt8 := packVarint (zigzag value).toNat

def unpackSigned : Unpack Int32 := do return unzigzag (UInt32.ofNat (← unpackVarint 0 0))

/-- One pass of the loop. -/
theorem unpackVarint_eq (v shift : Nat) : unpackVarint v shift = (do
    let b ← get
    if shift < 32 then
      let v := v ||| ((b.toNat % 128) <<< shift) % 2 ^ 32
      if 128 ≤ b.toNat then unpackVarint v (shift + 7) else return v
    else throw .undefined) := by
  funext s
  cases s with
  | nil => rfl
  | cons b s =>
    rw [unpackVarint]
    show _ = (if shift < 32 then _ else throw .undefined : Unpack Nat) s
    by_cases hshift : shift < 32
    · rw [if_pos hshift, if_pos hshift]
      by_cases hb : 128 ≤ b.toNat
      · simp only [hb, if_true]
      · simp only [hb, if_false]
        rfl
    · rw [if_neg hshift, if_neg hshift]
      rfl

theorem or_shiftLeft {v shift b : Nat} (hv : v < 2 ^ shift) (hb : b * 2 ^ shift < 2 ^ 32) :
    v ||| (b <<< shift) % 2 ^ 32 = v + b * 2 ^ shift := by
  rw [Nat.mod_eq_of_lt (by rwa [Nat.shiftLeft_eq]), Nat.or_comm, ← Nat.shiftLeft_add_eq_or_of_lt hv,
    Nat.shiftLeft_eq, Nat.add_comm]

theorem toNat_packed {b : Nat} (h : b < 128) : (UInt8.ofNat b).toNat = b :=
  UInt8.toNat_ofNat_of_lt' (h.trans (by decide))

theorem toNat_continued {b : Nat} (h : b < 128) : (UInt8.ofNat (b ||| 128)).toNat = b + 128 := by
  have hor : 1 <<< 7 + b = 1 <<< 7 ||| b := Nat.shiftLeft_add_eq_or_of_lt h 1
  have hlt : b + 128 < 2 ^ 8 := by omega
  rw [Nat.or_comm, ← show 1 <<< 7 ||| b = 128 ||| b from rfl, ← hor, Nat.add_comm]
  exact UInt8.toNat_ofNat_of_lt' hlt

/-- The induction is on the number, whose lowest bits go to `shift`. -/
theorem recovers_varint {val v shift : Nat} (hv : v < 2 ^ shift) (hshift : shift < 32)
    (hval : val * 2 ^ shift < 2 ^ 32) :
    Recovers head .outOfRange (unpackVarint v shift) (packVarint val) (v + val * 2 ^ shift) := by
  induction val using Nat.strong_induction_on generalizing v shift with
  | _ val ih =>
    have hmod : val % 128 < 128 := Nat.mod_lt val (by decide)
    have hsplit : val * 2 ^ shift = val % 128 * 2 ^ shift + val / 128 * 2 ^ (shift + 7) := by
      conv_lhs => rw [← Nat.mod_add_div val 128]
      rw [Nat.add_mul, Nat.pow_add, Nat.mul_comm 128, Nat.mul_assoc, Nat.mul_comm 128]
    have hlow : val % 128 * 2 ^ shift < 2 ^ 32 := by omega
    rw [unpackVarint_eq]
    unfold packVarint
    split_ifs with hmore
    · have hbyte := toNat_continued hmod
      have hhigh : 2 ^ (shift + 7) ≤ val / 128 * 2 ^ (shift + 7) := Nat.le_mul_of_pos_left _ hmore
      have hv' : v + val % 128 * 2 ^ shift < 2 ^ (shift + 7) := by
        have hle : val % 128 * 2 ^ shift ≤ 127 * 2 ^ shift := Nat.mul_le_mul_right _ (by omega)
        rw [Nat.pow_add]
        omega
      have hpow : 2 ^ (shift + 7) < 2 ^ 32 := by omega
      have hshift' : shift + 7 < 32 := (Nat.pow_lt_pow_iff_right (by decide)).1 hpow
      refine (recovers_get _).bind (?_ : Recovers _ _ _ (packVarint (val / 128)) _)
      simp only [hbyte, Nat.le_add_left, if_true, Nat.add_mod_right, Nat.mod_mod,
        or_shiftLeft hv hlow]
      rw [hsplit, ← Nat.add_assoc]
      exact ih _ (by omega) hv' hshift' (by omega)
    · have hbyte := toNat_packed hmod
      have hzero : val / 128 = 0 := by omega
      refine (recovers_get _).bind ?_
      simp only [hbyte, Nat.not_le.2 hmod, if_false, Nat.mod_mod, or_shiftLeft hv hlow]
      rw [hsplit, hzero, Nat.zero_mul, Nat.add_zero]
      exact .pure

/-! ## The sign -/

theorem toNat_zigzag {x : Int32} :
    ((zigzag x).toNat : Int) = if x.toInt < 0 then -2 * x.toInt - 1 else 2 * x.toInt := by
  have hx : x.toInt = x.toBitVec.toInt := rfl
  have hz : (zigzag x).toNat = ((x.toBitVec <<< 1) ^^^ x.toBitVec.sshiftRight 31).toNat := rfl
  have hlt := x.toBitVec.isLt
  rw [hz, hx]
  generalize x.toBitVec = b at *
  cases hmsb : b.msb with
  | false =>
    have hb := BitVec.msb_eq_false_iff_two_mul_lt.1 hmsb
    have hzero : b.toNat >>> 31 = 0 := by
      rw [Nat.shiftRight_eq_div_pow]
      omega
    rw [BitVec.sshiftRight_eq_of_msb_false hmsb, BitVec.toInt_eq_toNat_of_msb hmsb, BitVec.toNat_xor,
      BitVec.toNat_ushiftRight, hzero, Nat.xor_zero, BitVec.toNat_shiftLeft, Nat.shiftLeft_eq]
    omega
  | true =>
    have hb := BitVec.msb_eq_true_iff_two_mul_ge.1 hmsb
    have hzero : (~~~b) >>> 31 = 0#32 := by
      apply BitVec.eq_of_toNat_eq
      rw [BitVec.toNat_ushiftRight, BitVec.toNat_not, Nat.shiftRight_eq_div_pow, BitVec.toNat_ofNat]
      omega
    rw [BitVec.sshiftRight_eq_of_msb_true hmsb, hzero, BitVec.not_zero, BitVec.xor_allOnes,
      BitVec.toNat_not, BitVec.toInt_eq_toNat_cond, BitVec.toNat_shiftLeft, Nat.shiftLeft_eq]
    omega

theorem toInt_unzigzag {v : UInt32} : (unzigzag v).toInt =
    if v.toNat % 2 = 0 then ((v.toNat / 2 ^^^ v.toNat / 2 ^ 31 : Nat) : Int)
    else -((v.toNat / 2 ^^^ v.toNat / 2 ^ 31 : Nat) : Int) - 1 := by
  have hand : (v &&& 1).toNat = v.toNat % 2 := by simp [UInt32.toNat_and]
  have hsign : (v >>> 31).toNat = v.toNat / 2 ^ 31 := by
    simp [UInt32.toNat_shiftRight, Nat.shiftRight_eq_div_pow]
  have hhalf : (v >>> 1).toNat = v.toNat / 2 := by
    simp [UInt32.toNat_shiftRight, Nat.shiftRight_eq_div_pow]
  have hlt := v.toNat_lt
  have hx : v.toNat / 2 ^^^ v.toNat / 2 ^ 31 < 2 ^ 31 := Nat.xor_lt_two_pow (by omega) (by omega)
  have hint : ∀ u : UInt32, u.toInt32.toInt = (u.toNat : Int).bmod (2 ^ 32) := fun u =>
    BitVec.toInt_eq_toNat_bmod _
  have hodd : v &&& 1 ≠ 0 ↔ ¬v.toNat % 2 = 0 := by
    rw [Ne, ← UInt32.toNat_inj, hand]
    rfl
  have hsum : ((v >>> 1 ^^^ v >>> 31) + (v &&& 1)).toNat =
      (v.toNat / 2 ^^^ v.toNat / 2 ^ 31) + v.toNat % 2 := by
    rw [UInt32.toNat_add, UInt32.toNat_xor, hand, hhalf, hsign]
    omega
  unfold unzigzag
  generalize v.toNat / 2 ^^^ v.toNat / 2 ^ 31 = w at hx hsum ⊢
  simp only [hodd]
  by_cases h0 : v.toNat % 2 = 0
  · rw [if_neg (not_not.2 h0), if_pos h0, Int32.neg_neg, hint, hsum, h0]
    exact Int.bmod_eq_of_le_mul_two (by omega) (by omega)
  · rw [if_pos h0, if_neg h0, Int32.toInt_neg, hint, hsum, Int.bmod_neg_bmod,
      Int.bmod_eq_of_le_mul_two (by omega) (by omega)]
    omega

/-- Only numbers of 31 bits are read again. The sign is lost where the highest bit of what is written is
shifted down as if it were a sign. -/
theorem unzigzag_zigzag {x : Int32} :
    unzigzag (zigzag x) = x ↔ -2 ^ 30 ≤ x.toInt ∧ x.toInt < 2 ^ 30 := by
  have hz := toNat_zigzag (x := x)
  have hlo := x.le_toInt
  have hhi := x.toInt_lt
  rw [← Int32.toInt_inj, toInt_unzigzag]
  generalize (zigzag x).toNat = v at hz
  obtain hv | hv : v / 2 ^ 31 = 0 ∨ v / 2 ^ 31 = 1 := by split_ifs at hz <;> omega
  · rw [hv, Nat.xor_zero]
    split_ifs at hz ⊢ <;> omega
  · have hne : v / 2 ^^^ 1 ≠ v / 2 := fun h => by
      have hone := Nat.xor_right_injective (h.trans (Nat.xor_zero _).symm)
      cases hone
    rw [hv]
    generalize v / 2 ^^^ 1 = w at hne ⊢
    split_ifs at hz ⊢ <;> omega

/-! ## Codecs of values -/

theorem recovers_unsigned {val : Nat} (h : val < 2 ^ 32) :
    Recovers head .outOfRange unpackUnsigned (packVarint val) val := by
  have hval : val * 2 ^ 0 < 2 ^ 32 := by omega
  have hvarint := recovers_varint (v := 0) (by decide) (by decide) hval
  rwa [Nat.zero_add, Nat.pow_zero, Nat.mul_one] at hvarint

/-- The `unsigned_int` of a size. -/
def unsignedInt : Codec Nat where
  pack := packUnsigned
  unpack := unpackUnsigned
  Fits n := n < 2 ^ 32
  recovers {n} h := by
    rw [packUnsigned, Nat.mod_eq_of_lt h]
    exact recovers_unsigned h
  strays {n} hn l l' h := by
    have hlt : n % 2 ^ 32 < 2 ^ 32 := Nat.mod_lt n (by decide)
    rw [packUnsigned, (recovers_unsigned hlt).get_append, Except.ok.injEq, Prod.mk.injEq] at h
    exact hn (h.1 ▸ hlt)

theorem recovers_signed (x : Int32) :
    Recovers head .outOfRange unpackSigned (packSigned x) (unzigzag (zigzag x)) := by
  have h := (recovers_unsigned (zigzag x).toNat_lt).last (f := fun v => unzigzag (UInt32.ofNat v))
  rwa [UInt32.ofNat_toNat] at h

def signedInt : Codec Int32 where
  pack := packSigned
  unpack := unpackSigned
  Fits x := -2 ^ 30 ≤ x.toInt ∧ x.toInt < 2 ^ 30
  recovers {x} h := by
    have hx := recovers_signed x
    rwa [unzigzag_zigzag.2 h] at hx
  strays {x} hfits l l' h := by
    rw [(recovers_signed x).get_append, Except.ok.injEq, Prod.mk.injEq] at h
    exact hfits (unzigzag_zigzag.1 h.1)

/-- The bytes of a value as they are in memory. -/
def memory {α : Type} (size : Nat) (toNat : α → Nat) (ofNat : Nat → α)
    (h : ∀ x, ofNat (toNat x) = x) (hlt : ∀ x, toNat x < 256 ^ size) : Codec α where
  pack x := littleEndian size (toNat x)
  unpack := do return ofNat (ofLittleEndian (← read size))
  Fits _ := True
  recovers {x} _ := by
    have hread := (recovers_read (littleEndian size (toNat x))).last
      (f := fun bs => ofNat (ofLittleEndian bs))
    rwa [length_littleEndian, ofLittleEndian_littleEndian (hlt x), h] at hread
  strays h := absurd trivial h

def uint8 : Codec UInt8 := memory 1 UInt8.toNat UInt8.ofNat (fun _ => UInt8.ofNat_toNat) UInt8.toNat_lt

def uint32 : Codec UInt32 :=
  memory 4 UInt32.toNat UInt32.ofNat (fun _ => UInt32.ofNat_toNat) UInt32.toNat_lt

def uint64 : Codec UInt64 :=
  memory 8 UInt64.toNat UInt64.ofNat (fun _ => UInt64.ofNat_toNat) UInt64.toNat_lt

def int64 : Codec Int64 :=
  memory 8 (fun x => x.toUInt64.toNat) (fun n => (UInt64.ofNat n).toInt64)
    (fun x => congrArg UInt64.toInt64 (UInt64.ofNat_toNat (x := x.toUInt64))) fun x => x.toUInt64.toNat_lt

/-- A flag, of which no bit but the lowest may be set. -/
def bool : Codec Bool where
  pack v := [if v then 1 else 0]
  unpack := do
    let b ← get
    if b &&& ~~~1 = 0 then return b != 0 else throw .assertion
  Fits _ := True
  recovers {v} _ := by
    refine (recovers_get _).bind ?_
    cases v <;> exact .pure
  strays h := absurd trivial h

/-- An `fc::array` of bytes, as hashes and signatures are. -/
abbrev ByteArray (n : Nat) := {bs : List UInt8 // bs.length = n}

def array (n : Nat) : Codec (ByteArray n) where
  pack bs := bs.1
  unpack s :=
    if h : n ≤ s.length then .ok (⟨s.take n, List.length_take_of_le h⟩, s.drop n)
    else .error .outOfRange
  Fits _ := True
  recovers {bs} _ :=
    { returns := by
        intro s s' h
        obtain rfl := feeds_head.1 h
        rw [dif_pos (by simp [bs.2])]
        refine congrArg _ (Prod.ext (Subtype.ext ?_) ?_)
        · exact List.take_left' bs.2
        · exact List.drop_left' bs.2
      starves := by
        intro l s s' hl hne h hend
        cases s' with
        | cons c s' => cases hend
        | nil =>
          obtain rfl := feeds_head.1 h
          rw [List.append_nil, dif_neg]
          exact fun hlen => hne (hl.eq_of_length_le (bs.2.trans_le hlen)) }
  strays h := absurd trivial h

/-! ## Containers -/

def maxArrayAllocSize : Nat := 1024 * 1024 * 10

/-- A `vector<char>` or a string. -/
def bytes : Codec (List UInt8) :=
  Codec.counted unsignedInt (· < maxArrayAllocSize) .assertion List.length id read (fun _ => True)
    (fun {bs} _ => recovers_read bs) (fun h => absurd trivial h) (by
      intro n bs s s' h
      unfold read at h
      split_ifs at h with hlen
      obtain ⟨rfl, rfl⟩ := Prod.mk.inj (Except.ok.inj h)
      exact List.length_take_of_le hlen)

/-- A vector of elements that take `sizeof` bytes of memory. -/
def vector {α : Type} (sizeof : Nat) (c : Codec α) : Codec (List α) :=
  c.list unsignedInt (fun n => n * sizeof < maxArrayAllocSize) .assertion

def optional {α : Type} (c : Codec α) : Codec (Option α) := c.option bool

/-- `fc::raw::unpack` of all the bytes. There is nothing to read in no bytes. -/
def unpackAll {α : Type} [Inhabited α] (c : Codec α) (s : List UInt8) : Except Fault α :=
  if s = [] then .ok default else (c.unpack s).map Prod.fst

/-! ## Transactions and blocks -/

/-- What an operation and a transaction take of the memory of a vector. -/
structure Layout where
  operation : Nat
  signedTransaction : Nat
  operation_pos : 0 < operation
  signedTransaction_pos : 0 < signedTransaction

structure Asset where
  amount : Int64
  assetId : Int32
  deriving DecidableEq

/-- An operation: its type and the bytes of its data. -/
structure Operation where
  type : UInt8
  data : List UInt8
  deriving DecidableEq

structure SignedTransaction where
  expiration : UInt32
  reserved : Option UInt64
  alpAccount : List UInt8
  alpInportAsset : Asset
  operations : List Operation
  resultTrxType : UInt8
  resultTrxId : ByteArray 20
  signatures : List (ByteArray 65)
  deriving DecidableEq

structure SignedBlockHeader where
  previous : ByteArray 20
  blockNum : UInt32
  timestamp : UInt32
  transactionDigest : ByteArray 32
  nextSecretHash : ByteArray 20
  previousSecret : ByteArray 20
  delegateSignature : ByteArray 65
  deriving DecidableEq

structure FullBlock extends SignedBlockHeader where
  userTransactions : List SignedTransaction
  deriving DecidableEq

instance {n : Nat} : Inhabited (ByteArray n) := ⟨⟨List.replicate n 0, List.length_replicate⟩⟩

/-- A default constructed block. -/
instance : Inhabited FullBlock := ⟨⟨⟨default, 0, 0, default, default, default, default⟩, []⟩⟩

/-! ## Codecs -/

def Asset.codec : Codec Asset :=
  (int64.pair signedInt).iso
    { toFun := fun x => ⟨x.1, x.2⟩
      invFun := fun a => (a.amount, a.assetId)
      left_inv := fun _ => rfl
      right_inv := fun _ => rfl }

def Operation.codec : Codec Operation :=
  (uint8.pair bytes).iso
    { toFun := fun x => ⟨x.1, x.2⟩
      invFun := fun o => (o.type, o.data)
      left_inv := fun _ => rfl
      right_inv := fun _ => rfl }

def SignedTransaction.codec (L : Layout) : Codec SignedTransaction :=
  (uint32.pair ((optional uint64).pair (bytes.pair (Asset.codec.pair
      ((vector L.operation Operation.codec).pair (uint8.pair ((array 20).pair
        (vector 65 (array 65))))))))).iso
    { toFun := fun x =>
        ⟨x.1, x.2.1, x.2.2.1, x.2.2.2.1, x.2.2.2.2.1, x.2.2.2.2.2.1, x.2.2.2.2.2.2.1, x.2.2.2.2.2.2.2⟩
      invFun := fun t =>
        (t.expiration, t.reserved, t.alpAccount, t.alpInportAsset, t.operations, t.resultTrxType,
          t.resultTrxId, t.signatures)
      left_inv := fun _ => rfl
      right_inv := fun _ => rfl }

def SignedBlockHeader.codec : Codec SignedBlockHeader :=
  ((array 20).pair (uint32.pair (uint32.pair ((array 32).pair ((array 20).pair ((array 20).pair
      (array 65))))))).iso
    { toFun := fun x => ⟨x.1, x.2.1, x.2.2.1, x.2.2.2.1, x.2.2.2.2.1, x.2.2.2.2.2.1, x.2.2.2.2.2.2⟩
      invFun := fun h =>
        (h.previous, h.blockNum, h.timestamp, h.transactionDigest, h.nextSecretHash, h.previousSecret,
          h.delegateSignature)
      left_inv := fun _ => rfl
      right_inv := fun _ => rfl }

def FullBlock.codec (L : Layout) : Codec FullBlock :=
  (SignedBlockHeader.codec.pair (vector L.signedTransaction (SignedTransaction.codec L))).iso
    { toFun := fun x => ⟨x.1, x.2⟩
      invFun := fun b => (b.toSignedBlockHeader, b.userTransactions)
      left_inv := fun _ => rfl
      right_inv := fun _ => rfl }

/-- `fc::raw::pack` and `fc::raw::unpack` of a block. -/
def FullBlock.pack (L : Layout) (b : FullBlock) : List UInt8 := (FullBlock.codec L).pack b

def FullBlock.unpack (L : Layout) (s : List UInt8) : Except Fault FullBlock :=
  unpackAll (FullBlock.codec L) s

/-! ## What fits -/

/-- An id of at most 31 bits, and containers that may be read. -/
structure SignedTransaction.Fits (L : Layout) (t : SignedTransaction) : Prop where
  assetId : -2 ^ 30 ≤ t.alpInportAsset.assetId.toInt ∧ t.alpInportAsset.assetId.toInt < 2 ^ 30
  alpAccount : t.alpAccount.length < maxArrayAllocSize
  operations : t.operations.length * L.operation < maxArrayAllocSize
  data : ∀ o ∈ t.operations, o.data.length < maxArrayAllocSize
  signatures : t.signatures.length * 65 < maxArrayAllocSize

structure FullBlock.Fits (L : Layout) (b : FullBlock) : Prop where
  userTransactions : b.userTransactions.length * L.signedTransaction < maxArrayAllocSize
  transactions : ∀ t ∈ b.userTransactions, t.Fits L

end Achain.Raw
