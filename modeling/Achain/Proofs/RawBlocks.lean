import Achain.Raw
import Mathlib.Tactic.Ring

/-!
# Blocks that are read as they were written

A block is read from its bytes just if the ids of its transactions have no more than 31 bits and its
containers take no more memory than may be allocated (`unpack_pack_block`). Bytes that end too early are
not read, and a block takes as many bytes as `block_size` says.
-/

namespace Achain.Raw

open Sources Codecs

theorem lt_of_mul_lt {n size : Nat} (hsize : 0 < size) (h : n * size < maxArrayAllocSize) : n < 2 ^ 32 :=
  lt_of_le_of_lt (Nat.le_mul_of_pos_right n hsize) (h.trans (by decide))

theorem bytes_fits {bs : List UInt8} : bytes.Fits bs ↔ bs.length < maxArrayAllocSize :=
  ⟨fun h => h.2.1, fun h => ⟨h.trans (by decide), h, trivial⟩⟩

theorem vector_fits {α : Type} {size : Nat} {c : Codec α} {as : List α} (hsize : 0 < size) :
    (vector size c).Fits as ↔ as.length * size < maxArrayAllocSize ∧ ∀ a ∈ as, c.Fits a :=
  ⟨fun h => h.2, fun h => ⟨lt_of_mul_lt hsize h.1, h⟩⟩

theorem optional_fits {o : Option UInt64} : (optional uint64).Fits o := by
  cases o
  · exact trivial
  · exact ⟨trivial, trivial⟩

theorem codec_fits_transaction {L : Layout} {t : SignedTransaction} :
    (SignedTransaction.codec L).Fits t ↔ t.Fits L := by
  constructor
  · rintro ⟨-, -, haccount, ⟨-, hasset⟩, hops, -, -, hsigs⟩
    have hops := (vector_fits L.operation_pos).1 hops
    exact ⟨hasset, bytes_fits.1 haccount, hops.1, fun o ho => bytes_fits.1 (hops.2 o ho).2,
      ((vector_fits (by decide)).1 hsigs).1⟩
  · intro h
    refine ⟨trivial, optional_fits, bytes_fits.2 h.alpAccount, ⟨trivial, h.assetId⟩, ?_, trivial,
      trivial, ?_⟩
    · exact (vector_fits L.operation_pos).2
        ⟨h.operations, fun o ho => ⟨trivial, bytes_fits.2 (h.data o ho)⟩⟩
    · exact (vector_fits (by decide)).2 ⟨h.signatures, fun _ _ => trivial⟩

theorem codec_fits_block {L : Layout} {b : FullBlock} : (FullBlock.codec L).Fits b ↔ b.Fits L := by
  constructor
  · rintro ⟨-, htrxs⟩
    have htrxs := (vector_fits L.signedTransaction_pos).1 htrxs
    exact ⟨htrxs.1, fun t ht => codec_fits_transaction.1 (htrxs.2 t ht)⟩
  · intro h
    refine ⟨⟨trivial, trivial, trivial, trivial, trivial, trivial, trivial⟩, ?_⟩
    exact (vector_fits L.signedTransaction_pos).2
      ⟨h.userTransactions, fun t ht => codec_fits_transaction.2 (h.transactions t ht)⟩

theorem unpackAll_pack {α : Type} [Inhabited α] {c : Codec α} {a : α} (h : c.pack a ≠ []) :
    unpackAll c (c.pack a) = .ok a ↔ c.Fits a := by
  rw [unpackAll, if_neg h]
  constructor
  · intro hunpack
    by_contra hfits
    have hstrays := c.strays hfits []
    rw [List.append_nil] at hstrays
    cases hrun : c.unpack (c.pack a) with
    | error e =>
      rw [hrun] at hunpack
      cases hunpack
    | ok x =>
      rw [hrun] at hunpack
      exact hstrays x.2 (hrun.trans (congrArg (fun b => Except.ok (b, x.2)) (Except.ok.inj hunpack)))
  · intro hfits
    have hunpack := c.unpack_pack (l := []).2 hfits
    rw [List.append_nil] at hunpack
    rw [hunpack]
    rfl

theorem pack_ne_nil {L : Layout} (b : FullBlock) : b.pack L ≠ [] := by
  intro h
  have hprevious : b.previous.1 = [] := by
    have happend : b.previous.1 ++ _ = [] := (List.append_assoc _ _ _).symm.trans h
    exact (List.append_eq_nil_iff.1 happend).1
  have hlen := b.previous.2
  rw [hprevious] at hlen
  cases hlen

/-- A block is read again from its bytes just if it fits. -/
theorem unpack_pack_block (L : Layout) (b : FullBlock) :
    FullBlock.unpack L (b.pack L) = .ok b ↔ b.Fits L :=
  (unpackAll_pack (pack_ne_nil b)).trans codec_fits_block

/-- Of the bytes of a block nothing but all of them is read as a block, and no bytes at all. -/
theorem unpack_prefix_block {L : Layout} {b : FullBlock} {bs : List UInt8} (h : b.Fits L)
    (hbs : bs <+: b.pack L) (hne : bs ≠ b.pack L) (hnil : bs ≠ []) :
    FullBlock.unpack L bs = .error .outOfRange := by
  rw [FullBlock.unpack, unpackAll, if_neg hnil,
    ((FullBlock.codec L).recovers (codec_fits_block.2 h)).get_short hbs hne]
  rfl

/-- A block with the result of a call. -/
def resultBlock : FullBlock :=
  { (default : FullBlock) with
    userTransactions :=
      [⟨1500000000, none, [0x61, 0x62], ⟨5, -3⟩, [⟨110, []⟩], 1, default, [default]⟩] }

theorem unpack_prefix_resultBlock :
    FullBlock.unpack ⟨32, 152, by decide, by decide⟩
        (resultBlock.pack ⟨32, 152, by decide, by decide⟩).dropLast = .error .outOfRange := by
  have hfits : resultBlock.Fits ⟨32, 152, by decide, by decide⟩ := by
    refine ⟨by decide, fun t ht => ?_⟩
    obtain rfl := List.mem_singleton.1 ht
    exact ⟨by decide, by decide, by decide, by decide, by decide⟩
  exact unpack_prefix_block hfits (List.dropLast_prefix _) (by decide +kernel) (by decide +kernel)

/-! ## Sizes -/

theorem length_packVarint (val : Nat) : (packVarint val).length = packedUnsigned val := by
  induction val using Nat.strong_induction_on with
  | _ val ih =>
    unfold packVarint packedUnsigned
    split_ifs with hmore hzero hzero
    · omega
    · rw [List.length_cons, ih _ (by omega)]
    · rfl
    · omega

theorem length_packSigned (x : Int32) : (packSigned x).length = packedSigned x.toInt := by
  have hz := toNat_zigzag (x := x)
  rw [packSigned, length_packVarint, packedSigned]
  refine congrArg packedUnsigned ?_
  split_ifs at hz ⊢ <;> omega

theorem length_pair {α γ : Type} {c : Codec α} {d : Codec γ} {x : α × γ} {m n : Nat}
    (hm : (c.pack x.1).length = m) (hn : (d.pack x.2).length = n) :
    ((c.pair d).pack x).length = m + n :=
  (List.length_append ..).trans (congrArg₂ (· + ·) hm hn)

theorem length_memory {α : Type} {size : Nat} {toNat : α → Nat} {ofNat : Nat → α} {h : ∀ x, _ = x}
    {hlt : ∀ x, toNat x < 256 ^ size} (x : α) :
    ((memory size toNat ofNat h hlt).pack x).length = size := length_littleEndian _ _

theorem length_bytes (bs : List UInt8) : (bytes.pack bs).length = packedCount bs.length + bs.length :=
  (List.length_append ..).trans (congrArg (· + bs.length) (length_packVarint _))

theorem length_vector {α : Type} {n : Nat} {c : Codec α} (as : List α) :
    ((vector n c).pack as).length =
      packedCount as.length + (as.map fun a => (c.pack a).length).sum := by
  refine (List.length_append ..).trans (congrArg₂ _ (length_packVarint _) ?_)
  exact List.length_flatMap

theorem length_array {n : Nat} (bs : ByteArray n) : ((array n).pack bs).length = n := bs.2

theorem length_arrays {n : Nat} (as : List (ByteArray n)) :
    (as.map fun a => ((array n).pack a).length).sum = n * as.length := by
  simp only [length_array, List.map_const', List.sum_replicate_nat, Nat.mul_comm]

/-- A transaction of the chain whose bytes are those of `t`, as far as they matter for its size. -/
structure SignedTransaction.Shapes (operationSize : Achain.Operation → Nat) (t : SignedTransaction)
    (trx : Achain.SignedTransaction) : Prop where
  reserved : t.reserved.isSome = trx.reserved.isSome
  alpAccount : t.alpAccount.length = trx.alpAccount.length
  assetId : t.alpInportAsset.assetId.toInt = trx.alpInportAsset.assetId
  operations : t.operations.map (fun o => (Operation.codec.pack o).length) =
    trx.operations.map operationSize
  signatures : t.signatures.length = trx.signatures.length

/-- The size that `data_size` gives is the number of bytes. -/
theorem length_pack_transaction {L : Layout} {operationSize : Achain.Operation → Nat}
    {t : SignedTransaction} {trx : Achain.SignedTransaction} (h : t.Shapes operationSize trx) :
    ((SignedTransaction.codec L).pack t).length = trx.packedSize operationSize := by
  have hlen : t.operations.length = trx.operations.length := by
    simpa using congrArg List.length h.operations
  have hreserved : ((optional uint64).pack t.reserved).length =
      if trx.reserved.isSome then 9 else 1 := by
    rw [← h.reserved]
    cases t.reserved <;> rfl
  have hops := (length_vector (n := L.operation) (c := Operation.codec) t.operations).trans
    (congrArg₂ (fun n ns => packedCount n + List.sum ns) hlen h.operations)
  have hsigs := (length_vector (n := 65) t.signatures).trans
    (congrArg₂ (fun n m => packedCount n + m) h.signatures (length_arrays t.signatures))
  have hasset : (Asset.codec.pack t.alpInportAsset).length = trx.alpInportAsset.packedSize := by
    rw [Achain.Asset.packedSize, ← h.assetId]
    exact length_pair (length_memory _) (length_packSigned _)
  have haccount := length_bytes t.alpAccount
  have hsize : ((SignedTransaction.codec L).pack t).length = _ :=
    length_pair (length_memory _) (length_pair hreserved (length_pair haccount
      (length_pair hasset (length_pair hops (length_pair (length_memory _)
        (length_pair (length_array _) hsigs))))))
  rw [hsize, Achain.SignedTransaction.packedSize, packedString, h.alpAccount, h.signatures]
  ring

/-- A block has as many bytes as `block_size` says. -/
theorem length_pack_block {L : Layout} {P : Primitives} {operationSize : Achain.Operation → Nat}
    {b : FullBlock} {block : Achain.FullBlock}
    (hsize : ∀ trx, P.dataSize trx = trx.packedSize operationSize)
    (h : List.Forall₂ (SignedTransaction.Shapes operationSize) b.userTransactions
      block.userTransactions) :
    (b.pack L).length = block.blockSize P := by
  have hmap : b.userTransactions.map (fun t => ((SignedTransaction.codec L).pack t).length) =
      block.userTransactions.map P.dataSize := by
    rw [← List.forall₂_eq_eq_eq, List.forall₂_map_left_iff, List.forall₂_map_right_iff]
    exact h.imp fun t trx ht => (length_pack_transaction ht).trans (hsize trx).symm
  have htrxs := (length_vector (n := L.signedTransaction) (c := SignedTransaction.codec L)
    b.userTransactions).trans (congrArg₂ (fun n ns => packedCount n + List.sum ns) h.length_eq hmap)
  have hheader : (SignedBlockHeader.codec.pack b.toSignedBlockHeader).length = _ :=
    length_pair (length_array _) (length_pair (length_memory _) (length_pair (length_memory _)
      (length_pair (length_array _) (length_pair (length_array _) (length_pair (length_array _)
        (length_array _))))))
  have htotal : (b.pack L).length = _ := length_pair hheader htrxs
  rw [htotal, Achain.FullBlock.blockSize, blockHeaderSize, Nat.add_assoc (_ + _ + _)]

/-- The block of the chain whose bytes these are. -/
def resultChainBlock : Achain.FullBlock :=
  ⟨.empty, [⟨1500000000, none, ['a', 'b'], ⟨5, -3⟩, [.onCallSuccess], .complete, 0, [0]⟩]⟩

theorem length_pack_resultBlock :
    (resultBlock.pack ⟨32, 152, by decide, by decide⟩).length = resultChainBlock.blockSize
      { Primitives.plain with dataSize := Achain.SignedTransaction.packedSize fun _ => 2 } :=
  length_pack_block (fun _ => rfl) (.cons ⟨rfl, rfl, rfl, by decide +kernel, rfl⟩ .nil)

end Achain.Raw
