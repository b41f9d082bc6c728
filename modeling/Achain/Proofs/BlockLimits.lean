import Achain.Raw
import Achain.Proofs.Forms

/-!
# The limits of a generated block

`generate_block` tests the size of a pending transaction, and puts in the block and counts what the
transaction is carried as: itself, or the result it leads to, whole or cut. Nor does it count the
bytes that the number of the transactions takes beyond the first. A block keeps the delegate's
limits exactly if every transaction taken passes the two tests that are not made: a result that was
cut is small enough, and the block has room for what it carries.
-/

namespace Achain

open Table Result

/-- A block is within the limits of a delegate's configuration. -/
structure DelegateConfig.Keeps (P : Primitives) (c : DelegateConfig) (b : FullBlock) : Prop where
  blockSize : b.blockSize P ≤ max c.blockMaxSize (FullBlock.empty.blockSize P)
  transactionCount : b.userTransactions.length ≤ c.blockMaxTransactionCount
  transactionSize : ∀ t ∈ b.userTransactions, P.dataSize t ≤ c.transactionMaxSize

section Rounds

variable (P : Primitives) (V : Vm) (c : DelegateConfig) (db : ChainDatabase)

/-- What a block carries for a pending transaction whose evaluation has led to `s`. -/
def DelegateConfig.carried (t : SignedTransaction) (s : EvalState) : SignedTransaction :=
  match s.st.pResultTrx.operations with
  | [] => t
  | _ =>
    if c.transactionMaxSize < P.dataSize s.st.pResultTrx then incompleteForm P s.st.pResultTrx
    else completeForm P s.st.pResultTrx

/-- A pending transaction, whose evaluation leads to `s`, is put in the block. -/
def Takes (d : BlockDraft) (t : SignedTransaction) (s : EvalState) : Prop :=
  c.admits P db d t = true ∧ evaluateOrigin P V d.pending t = .ok s ∧
    ∃ x, generateTransaction P V c d.pending t = .ok (some x)

/-- The size of the block with one more transaction of so many bytes. -/
def BlockDraft.sizeWith (d : BlockDraft) (size : Nat) : Nat :=
  d.size + size + (packedCount (d.transactions.length + 1) - 1)

/-- The tests that `generate_block` does not make. -/
structure DelegateConfig.Fits (d : BlockDraft) (t : SignedTransaction) (s : EvalState) : Prop where
  cut : s.st.pResultTrx.operations ≠ [] → c.transactionMaxSize < P.dataSize s.st.pResultTrx →
    P.dataSize (incompleteForm P s.st.pResultTrx) ≤ c.transactionMaxSize
  room : d.sizeWith (P.dataSize (c.carried P t s)) ≤ c.blockMaxSize

/-- The rounds of the loop: the draft before each, and the pending transaction looked at. -/
def BlockDraft.rounds (inTime : Nat → Bool) :
    Nat → List SignedTransaction → BlockDraft → List (BlockDraft × SignedTransaction)
  | _, [], _ => []
  | i, t :: ts, d =>
    if inTime i && d.transactions.length < c.blockMaxTransactionCount then
      (d, t) :: rounds inTime (i + 1) ts (d.add P V c db t)
    else []

end Rounds

/-- The rounds of `generate_block`. -/
def generateRounds (N : Node) (c : DelegateConfig) (db : ChainDatabase) (clock : TimePointSec)
    (inTime : Nat → Bool) (emptySize : Nat) (pendingTrx : List SignedTransaction) :
    List (BlockDraft × SignedTransaction) :=
  if 0 < c.blockMaxTransactionCount ∧ emptySize < c.blockMaxSize then
    BlockDraft.rounds N.P N.V c db inTime 0 pendingTrx ⟨db.pending clock, [], emptySize⟩
  else []

variable {P : Primitives} {V : Vm} {c : DelegateConfig} {db : ChainDatabase} {d : BlockDraft}
  {t : SignedTransaction} {s : EvalState} {inTime : Nat → Bool} {size : Operation → Nat}

/-! ## One transaction -/

theorem SignedTransaction.packedSize_completeForm (r : SignedTransaction) :
    (completeForm P r).packedSize size = r.packedSize size := rfl

theorem generateTransaction_carried {p : PendingChainState} {form : SignedTransaction}
    {q : PendingChainState} (h : generateTransaction P V c p t = .ok (some (form, q))) :
    ∃ s, evaluateOrigin P V p t = .ok s ∧ form = c.carried P t s := by
  rw [generateTransaction, bind_eq_ok] at h
  obtain ⟨s, hs, h⟩ := h
  refine ⟨s, hs, ?_⟩
  rw [DelegateConfig.carried]
  cases hops : s.st.pResultTrx.operations with
  | nil =>
    simp only [hops, pure_eq_ok] at h
    split_ifs at h with hfee
    exact (Prod.mk.inj (Option.some.inj h)).1.symm
  | cons op ops =>
    simp only [hops, bind_eq_ok, pure_eq_ok] at h
    obtain ⟨s', -, h⟩ := h
    by_cases hfee : c.acceptsFee s.st.imessageLength s' = true
    · rw [if_pos hfee] at h
      exact (Prod.mk.inj (Option.some.inj h)).1.symm
    · rw [if_neg hfee] at h
      cases h

namespace BlockDraft

/-- A transaction that is taken is added in the form the block carries. -/
theorem add_takes (h : Takes P V c db d t s) :
    (d.add P V c db t).transactions = d.transactions ++ [c.carried P t s] ∧
      (d.add P V c db t).size = d.size + P.dataSize (c.carried P t s) := by
  obtain ⟨hadmits, hs, ⟨form, q⟩, hform⟩ := h
  obtain ⟨s₁, hs₁, rfl⟩ := generateTransaction_carried hform
  obtain rfl := Except.ok.inj (hs.symm.trans hs₁)
  rw [add, if_pos hadmits, hform]
  exact ⟨rfl, rfl⟩

theorem add_not_takes (h : ∀ s, ¬ Takes P V c db d t s) : d.add P V c db t = d := by
  rw [add]
  split_ifs with hadmits
  · split
    · rename_i form q hform
      obtain ⟨s, hs, -⟩ := generateTransaction_carried hform
      exact absurd ⟨hadmits, hs, _, hform⟩ (h s)
    · rfl
  · rfl

/-- The limits, for a draft: the size counted leaves out what the number of transactions takes
beyond one byte. -/
structure Keeps (P : Primitives) (c : DelegateConfig) (d : BlockDraft) : Prop where
  size : d.size + (packedCount d.transactions.length - 1) ≤ c.blockMaxSize
  transactionCount : d.transactions.length ≤ c.blockMaxTransactionCount
  transactionSize : ∀ t ∈ d.transactions, P.dataSize t ≤ c.transactionMaxSize

end BlockDraft

/-- What the block carries is small enough if a result that was cut is. -/
theorem DelegateConfig.dataSize_carried_le (hsize : ∀ t, P.dataSize t = t.packedSize size)
    (ht : P.dataSize t ≤ c.transactionMaxSize) :
    P.dataSize (c.carried P t s) ≤ c.transactionMaxSize ↔
      (s.st.pResultTrx.operations ≠ [] → c.transactionMaxSize < P.dataSize s.st.pResultTrx →
        P.dataSize (incompleteForm P s.st.pResultTrx) ≤ c.transactionMaxSize) := by
  rw [carried]
  cases hops : s.st.pResultTrx.operations with
  | nil => simpa using ht
  | cons op ops =>
    simp only
    split_ifs with hlarge
    · simp [hlarge]
    · rw [hsize, SignedTransaction.packedSize_completeForm, ← hsize]
      exact iff_of_true (not_lt.1 hlarge) fun _ hover => absurd hover hlarge

namespace BlockDraft

/-- The step: a draft that takes a transaction keeps the limits if it did and the transaction
fits. -/
theorem keeps_add (hsize : ∀ t, P.dataSize t = t.packedSize size)
    (hcount : c.blockMaxTransactionCount < 2 ^ 32)
    (hroom : d.transactions.length < c.blockMaxTransactionCount) (h : Takes P V c db d t s) :
    (d.add P V c db t).Keeps P c ↔ d.Keeps P c ∧ c.Fits P d t s := by
  obtain ⟨htrxs, hadd⟩ := add_takes h
  have ht : P.dataSize t ≤ c.transactionMaxSize := by
    have hadmits := h.1
    simp only [DelegateConfig.admits, Bool.and_eq_true, decide_eq_true_eq] at hadmits
    exact hadmits.1.1.1.1
  have hcarried := DelegateConfig.dataSize_carried_le (s := s) hsize ht
  have hmono : packedCount d.transactions.length ≤ packedCount (d.transactions.length + 1) :=
    packedCount_mono (Nat.le_succ _) (by omega)
  constructor
  · intro hk
    have hk₁ := hk.size
    have hk₃ := hk.transactionSize
    rw [htrxs, hadd, List.length_append, List.length_singleton] at hk₁
    rw [htrxs] at hk₃
    refine ⟨⟨by omega, hroom.le, fun t' ht' => hk₃ t' (List.mem_append_left _ ht')⟩, ?_, hk₁⟩
    exact hcarried.1 (hk₃ _ (by simp))
  · rintro ⟨hd, hfits⟩
    refine ⟨?_, ?_, ?_⟩
    · rw [htrxs, hadd, List.length_append, List.length_singleton]
      exact hfits.room
    · rw [htrxs, List.length_append, List.length_singleton]
      exact hroom
    · intro t' ht'
      rw [htrxs, List.mem_append, List.mem_singleton] at ht'
      obtain ht' | rfl := ht'
      · exact hd.transactionSize t' ht'
      · exact hcarried.2 hfits.cut

/-- The run: the loop keeps the limits if every transaction it takes fits. -/
theorem keeps_addAll (hsize : ∀ t, P.dataSize t = t.packedSize size)
    (hcount : c.blockMaxTransactionCount < 2 ^ 32) :
    ∀ {ts : List SignedTransaction} {i : Nat} {d : BlockDraft},
      (d.addAll P V c db inTime i ts).Keeps P c ↔ d.Keeps P c ∧
        ∀ d' t s, (d', t) ∈ rounds P V c db inTime i ts d → Takes P V c db d' t s →
          c.Fits P d' t s
  | [], i, d => by simp [addAll, rounds]
  | t :: ts, i, d => by
    rw [addAll, rounds]
    split_ifs with hguard
    · rw [keeps_addAll hsize hcount]
      have hroom : d.transactions.length < c.blockMaxTransactionCount := by
        simpa using (Bool.and_eq_true_iff.1 hguard).2
      by_cases htakes : ∃ s, Takes P V c db d t s
      · obtain ⟨s, hs⟩ := htakes
        rw [keeps_add hsize hcount hroom hs, and_assoc]
        refine and_congr_right fun _ => ⟨?_, ?_⟩
        · rintro ⟨hfits, hrest⟩ d' t' s' hmem hs'
          obtain heq | hmem := List.mem_cons.1 hmem
          · obtain ⟨rfl, rfl⟩ := Prod.mk.inj heq
            obtain rfl := Except.ok.inj (hs.2.1.symm.trans hs'.2.1)
            exact hfits
          · exact hrest d' t' s' hmem hs'
        · intro hall
          refine ⟨hall d t s (List.mem_cons_self ..) hs, fun d' t' s' hmem => ?_⟩
          exact hall d' t' s' (List.mem_cons_of_mem _ hmem)
      · rw [not_exists] at htakes
        rw [add_not_takes htakes]
        refine and_congr_right fun _ => ⟨?_, ?_⟩
        · intro hrest d' t' s' hmem hs'
          obtain heq | hmem := List.mem_cons.1 hmem
          · obtain ⟨rfl, rfl⟩ := Prod.mk.inj heq
            exact absurd hs' (htakes s')
          · exact hrest d' t' s' hmem hs'
        · exact fun hall d' t' s' hmem => hall d' t' s' (List.mem_cons_of_mem _ hmem)
    · simp

/-- The size counted is that of the transactions and of an empty block. -/
def Counts (P : Primitives) (emptySize : Nat) (d : BlockDraft) : Prop :=
  d.size = emptySize + (d.transactions.map P.dataSize).sum

theorem counts_add {emptySize : Nat} (h : d.Counts P emptySize) :
    (d.add P V c db t).Counts P emptySize := by
  by_cases htakes : ∃ s, Takes P V c db d t s
  · obtain ⟨s, hs⟩ := htakes
    obtain ⟨htrxs, hadd⟩ := add_takes hs
    rw [Counts, htrxs, hadd, h, List.map_append, List.sum_append, ← Nat.add_assoc]
    rfl
  · rw [add_not_takes (not_exists.1 htakes)]
    exact h

theorem counts_addAll {emptySize : Nat} : ∀ {ts : List SignedTransaction} {i : Nat} {d : BlockDraft},
    d.Counts P emptySize → (d.addAll P V c db inTime i ts).Counts P emptySize
  | [], _, _, h => h
  | t :: ts, i, d, h => by
    rw [addAll]
    split_ifs
    · exact counts_addAll (counts_add h)
    · exact h

/-- The limits of a block are those of the draft it is made of. -/
theorem keeps_iff {b : FullBlock} (h : d.Counts P (FullBlock.empty.blockSize P))
    (hb : b.userTransactions = d.transactions)
    (hempty : FullBlock.empty.blockSize P < c.blockMaxSize) : c.Keeps P b ↔ d.Keeps P c := by
  have hone : FullBlock.empty.blockSize P = blockHeaderSize + 1 := by
    simp [FullBlock.blockSize, FullBlock.empty, packedCount, packedUnsigned]
  have hsize : b.blockSize P = d.size + (packedCount d.transactions.length - 1) := by
    have hpos := packedCount_pos d.transactions.length
    rw [h, hone, FullBlock.blockSize, hb]
    omega
  have hmax : max c.blockMaxSize (FullBlock.empty.blockSize P) = c.blockMaxSize :=
    max_eq_left hempty.le
  constructor
  · intro hk
    exact ⟨by rw [← hsize, ← hmax]; exact hk.blockSize, hb ▸ hk.transactionCount,
      hb ▸ hk.transactionSize⟩
  · intro hk
    exact ⟨by rw [hsize, hmax]; exact hk.size, hb ▸ hk.transactionCount, hb ▸ hk.transactionSize⟩

end BlockDraft

/-! ## The block -/

/-- A generated block keeps the limits of the configuration, whatever is pending, exactly if in
every round in which the loop takes a transaction a result that was cut is small enough and the
block has room for what is carried and for the count. -/
theorem generateBlock_keeps_iff (N : Node) (size : Operation → Nat)
    (hsize : ∀ t, N.P.dataSize t = t.packedSize size) (c : DelegateConfig)
    (hcount : c.blockMaxTransactionCount < 2 ^ 32) (db : ChainDatabase) (clock : TimePointSec)
    (inTime : Nat → Bool) (timestamp : TimePointSec) (pendingTrx : List SignedTransaction) :
    c.Keeps N.P (generateBlock N c db clock inTime (FullBlock.empty.blockSize N.P) timestamp
        pendingTrx) ↔
      ∀ d t s, (d, t) ∈ generateRounds N c db clock inTime (FullBlock.empty.blockSize N.P)
        pendingTrx → Takes N.P N.V c db d t s → c.Fits N.P d t s := by
  rw [generateRounds]
  by_cases hruns : 0 < c.blockMaxTransactionCount ∧ FullBlock.empty.blockSize N.P < c.blockMaxSize
  · have hcounts : (BlockDraft.mk (db.pending clock) [] (FullBlock.empty.blockSize N.P)).Counts N.P
        (FullBlock.empty.blockSize N.P) := rfl
    have hkeeps : (BlockDraft.mk (db.pending clock) [] (FullBlock.empty.blockSize N.P)).Keeps N.P c :=
      ⟨by simpa [packedCount, packedUnsigned] using hruns.2.le, Nat.zero_le _, by simp⟩
    have hb : (generateBlock N c db clock inTime (FullBlock.empty.blockSize N.P) timestamp
        pendingTrx).userTransactions = (BlockDraft.addAll N.P N.V c db inTime 0 pendingTrx
          ⟨db.pending clock, [], FullBlock.empty.blockSize N.P⟩).transactions := by
      simp only [generateBlock, if_pos hruns]
    rw [BlockDraft.keeps_iff (BlockDraft.counts_addAll hcounts) hb hruns.2,
      BlockDraft.keeps_addAll hsize hcount, if_pos hruns]
    exact and_iff_right hkeeps
  · have hb : (generateBlock N c db clock inTime (FullBlock.empty.blockSize N.P) timestamp
        pendingTrx).userTransactions = [] := by
      simp only [generateBlock, if_neg hruns]
    rw [if_neg hruns]
    refine iff_of_true ⟨?_, ?_, ?_⟩ fun d t s hmem => absurd hmem (List.not_mem_nil)
    · rw [FullBlock.blockSize, hb]
      exact le_max_right _ _
    · rw [hb]
      exact Nat.zero_le _
    · rw [hb]
      exact fun t ht => absurd ht (List.not_mem_nil)

/-! ## A call of a contract -/

/-- The kind of an operation, and its data as a container of bytes. -/
def operationSize (data : Nat) : Nat := 1 + packedCount data + data

/-- A public key of 33 bytes and an address of 20; every balance takes an address and an amount. -/
def callDataSize (op : CallContractOperation) : Nat :=
  33 + packedCount op.balances.keys.length + 28 * op.balances.keys.length + 20 +
    op.costlimit.packedSize + op.transactionFee.packedSize + packedString op.method +
    packedString op.args

/-- The sizes of a call and of the operations of its result. -/
def callResultSize : Operation → Nat
  | .callContract op => operationSize (callDataSize op)
  | .transaction t => operationSize (t.packedSize fun
    | .callContract op => operationSize (callDataSize op)
    | _ => 0)
  | .balancesWithdraw op =>
    operationSize (packedCount op.balances.keys.length + 28 * op.balances.keys.length)
  | .onCallSuccess => operationSize 0
  | _ => 0

def packingNode : Node :=
  { Node.plain with
    P := { Primitives.plain with dataSize := fun t => t.packedSize callResultSize } }

/-- A chain with contract 7 and a balance of key 1. -/
def callDatabase : ChainDatabase where
  tables :=
    { ChainTables.empty false with
      assetIdToEntry :=
        (∅ : Tab AssetIdType AssetEntry).insert 0 { (default : AssetEntry) with id := 0 }
      balanceIdToEntry := (∅ : Tab BalanceIdType BalanceEntry).insert 3
        ⟨⟨0, 0, .common, .signature 1 none⟩, 5000, 0, 0, none⟩
      contractIdToEntry := (∅ : Tab ContractIdType ContractEntry).insert 7
        { (default : ContractEntry) with
          id := 7
          owner := 1
          code := { (default : Code) with abi := [['g', 'o']] } } }
  verifyTransactionSignatures := true
  generatingBlock := false
  headBlockId := 1
  headBlockHeader := { SignedBlockHeader.empty with
    blockNum := 1
    timestamp := 50 }
  blockIdToFullBlock := ∅
  blockIdToUndoState := ∅
  blockNumToId := ∅
  forkDb := ∅
  forkNumberDb := ∅
  futureBlocks := []

/-- A configuration for transactions of `size` bytes and a block of one of them. -/
def configOfSize (size : Nat) : DelegateConfig :=
  { plainConfig with
    blockMaxSize := 166 + size
    transactionMaxSize := size }

/-- The block generated when the call of the contract is pending. -/
def blockOfCall (c : DelegateConfig) : FullBlock :=
  generateBlock packingNode c callDatabase 60 (fun _ => true)
    (FullBlock.empty.blockSize packingNode.P) 60 [theftOrigin]

theorem emptyBlock_blockSize : FullBlock.empty.blockSize packingNode.P = 166 := by
  simp [FullBlock.blockSize, FullBlock.empty, packedCount, packedUnsigned, blockHeaderSize]

/-- With room for the whole result, 283 bytes, the block keeps the limits, and the call fits in every
round. -/
theorem generateBlock_keeps_call :
    (configOfSize 283).Keeps packingNode.P (blockOfCall (configOfSize 283)) ∧
      ∀ d t s, (d, t) ∈ generateRounds packingNode (configOfSize 283) callDatabase 60
          (fun _ => true) (FullBlock.empty.blockSize packingNode.P) [theftOrigin] →
        Takes packingNode.P packingNode.V (configOfSize 283) callDatabase d t s →
          (configOfSize 283).Fits packingNode.P d t s := by
  have hkeeps : (configOfSize 283).Keeps packingNode.P (blockOfCall (configOfSize 283)) := by
    rw [blockOfCall, emptyBlock_blockSize]
    exact ⟨by decide +kernel, by decide +kernel, by decide +kernel⟩
  refine ⟨hkeeps, ?_⟩
  exact (generateBlock_keeps_iff packingNode callResultSize (fun _ => rfl) (configOfSize 283)
    (by decide) callDatabase 60 (fun _ => true) 60 [theftOrigin]).1 hkeeps

/-- The call takes 209 bytes and passes the tests of a configuration of that size. Its result is
over the limit and cut, to 250 bytes: neither the transaction nor the block is within its limit. -/
theorem cut_result_over_limits :
    packingNode.P.dataSize theftOrigin = 209 ∧ (configOfSize 209).validate = true ∧
      ¬ (configOfSize 209).Keeps packingNode.P (blockOfCall (configOfSize 209)) ∧
      (∃ t ∈ (blockOfCall (configOfSize 209)).userTransactions,
        (configOfSize 209).transactionMaxSize < packingNode.P.dataSize t) := by
  refine ⟨by decide +kernel, by decide +kernel, fun h => ?_, ?_⟩
  · have hsize := h.blockSize
    rw [blockOfCall, emptyBlock_blockSize] at hsize
    exact absurd hsize (by decide +kernel)
  · rw [blockOfCall, emptyBlock_blockSize]
    decide +kernel

end Achain
