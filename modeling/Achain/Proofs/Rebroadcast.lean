import Achain.Client
import Mathlib.Data.List.Nodup

/-!
# The batches of a rebroadcast

A pending transaction that the loop comes to with a full batch is in no batch. So a rebroadcast leaves out
nothing only if one batch is enough.
-/

namespace Achain.Client

section Loop

variable (broadcast : List (List SignedTransaction) → Except ClientExn Unit)

theorem length_le_of_mem_rebroadcast {batches : List (List SignedTransaction)}
    {tempVec pending batch : List SignedTransaction}
    (hbatches : ∀ batch ∈ batches, batch.length ≤ rebroadcastBatchSize)
    (htemp : tempVec.length ≤ rebroadcastBatchSize)
    (h : batch ∈ (rebroadcast broadcast batches tempVec pending).1) :
    batch.length ≤ rebroadcastBatchSize := by
  have hadd : ∀ batch ∈ batches ++ [tempVec], batch.length ≤ rebroadcastBatchSize := by
    intro batch hmem
    rw [List.mem_append, List.mem_singleton] at hmem
    obtain hmem | rfl := hmem
    · exact hbatches batch hmem
    · exact htemp
  induction pending generalizing batches tempVec with
  | nil =>
    rw [rebroadcast] at h
    split_ifs at h
    · exact hbatches batch h
    · exact hadd batch h
  | cons trx pending ih =>
    rw [rebroadcast] at h
    split_ifs at h with hroom
    · have htemp' : (tempVec ++ [trx]).length ≤ rebroadcastBatchSize := by
        rw [List.length_append]
        exact hroom
      refine ih hbatches htemp' h fun batch hmem => ?_
      rw [List.mem_append, List.mem_singleton] at hmem
      obtain hmem | rfl := hmem
      · exact hbatches batch hmem
      · exact htemp'
    · split at h
      · refine ih hadd (Nat.zero_le _) h fun batch hmem => ?_
        rw [List.mem_append, List.mem_singleton] at hmem
        obtain hmem | rfl := hmem
        · exact hadd batch hmem
        · exact Nat.zero_le _
      · exact hadd batch h

/-- What fits in one batch is passed on. -/
theorem flatten_rebroadcast_of_le (tempVec pending : List SignedTransaction)
    (h : tempVec.length + pending.length ≤ rebroadcastBatchSize) :
    (rebroadcast broadcast [] tempVec pending).1.flatten = tempVec ++ pending := by
  induction pending generalizing tempVec with
  | nil =>
    rw [rebroadcast, List.append_nil]
    split_ifs with hnil
    · exact hnil.symm
    · exact List.flatten_singleton
  | cons trx pending ih =>
    rw [List.length_cons] at h
    rw [rebroadcast, if_pos (by omega), ih _ (by rw [List.length_append, List.length_singleton]; omega),
      List.append_assoc, List.singleton_append]

theorem length_flatten_rebroadcast_le (batches : List (List SignedTransaction))
    (tempVec pending : List SignedTransaction) :
    (rebroadcast broadcast batches tempVec pending).1.flatten.length ≤
      batches.flatten.length + tempVec.length + pending.length := by
  induction pending generalizing batches tempVec with
  | nil =>
    rw [rebroadcast]
    split_ifs <;> simp
  | cons trx pending ih =>
    rw [rebroadcast, List.length_cons]
    split_ifs
    · have hrest := ih batches (tempVec ++ [trx])
      rw [List.length_append, List.length_singleton] at hrest
      omega
    · split
      · have hrest := ih (batches ++ [tempVec]) []
        rw [List.flatten_append, List.flatten_singleton, List.length_append, List.length_nil] at hrest
        omega
      · rw [List.flatten_append, List.flatten_singleton, List.length_append]
        omega

/-- The transaction met with a full batch is lost. -/
theorem length_flatten_rebroadcast_lt (batches : List (List SignedTransaction))
    (tempVec pending : List SignedTransaction) (htemp : tempVec.length ≤ rebroadcastBatchSize)
    (h : rebroadcastBatchSize < tempVec.length + pending.length) :
    (rebroadcast broadcast batches tempVec pending).1.flatten.length <
      batches.flatten.length + tempVec.length + pending.length := by
  induction pending generalizing tempVec with
  | nil => exact absurd h (Nat.not_lt.2 htemp)
  | cons trx pending ih =>
    rw [rebroadcast]
    rw [List.length_cons] at h ⊢
    split_ifs with hroom
    · have hrest := ih (tempVec ++ [trx]) (by rw [List.length_append]; exact hroom)
        (by rw [List.length_append, List.length_singleton]; omega)
      rw [List.length_append, List.length_singleton] at hrest
      omega
    · split
      · have hrest := length_flatten_rebroadcast_le broadcast (batches ++ [tempVec]) [] pending
        rw [List.flatten_append, List.flatten_singleton, List.length_append, List.length_nil] at hrest
        omega
      · rw [List.flatten_append, List.flatten_singleton, List.length_append]
        omega

end Loop

/-! ## A pass of the loop -/

variable (broadcast : List (List SignedTransaction) → Except ClientExn Unit) (c : Client)

/-- The transactions that are pending. -/
def pending : List SignedTransaction := c.chainDb.getPendingTransactions.map EvalState.trx

/-- What a pass of the loop passes on. -/
def batches : List (List SignedTransaction) := (c.rebroadcastPendingLoop broadcast).1

variable {c}

theorem batches_of_skip (h : c.syncMode = true ∨ c.isInSandbox = true) :
    c.batches broadcast = [] := by
  rw [batches, rebroadcastPendingLoop]
  by_cases hsync : c.syncMode = true
  · rw [if_pos hsync]
  · have hsandbox : c.listPendingTransactions = .error .sandboxCommandForbidden := by
      rw [listPendingTransactions, h.resolve_left hsync]
      rfl
    rw [if_neg hsync, hsandbox]

theorem batches_of_run (hsync : c.syncMode = false) (hsandbox : c.isInSandbox = false) :
    c.batches broadcast = (rebroadcast broadcast [] [] c.pending).1 := by
  have hlist : c.listPendingTransactions = .ok c.pending := by
    rw [listPendingTransactions, hsandbox]
    rfl
  rw [batches, rebroadcastPendingLoop, hsync, if_neg Bool.false_ne_true, hlist]

theorem flatten_batches_ne (hlong : rebroadcastBatchSize < c.pending.length) :
    (c.batches broadcast).flatten ≠ c.pending := by
  intro heq
  have hlength := congrArg List.length heq
  by_cases hskip : c.syncMode = true ∨ c.isInSandbox = true
  · rw [batches_of_skip broadcast hskip, List.flatten_nil, List.length_nil] at hlength
    omega
  · rw [not_or, Bool.not_eq_true, Bool.not_eq_true] at hskip
    have hlt := length_flatten_rebroadcast_lt broadcast [] [] c.pending (Nat.zero_le _)
      (by rwa [List.length_nil, Nat.zero_add])
    rw [batches_of_run broadcast hskip.1 hskip.2] at hlength
    rw [List.flatten_nil, List.length_nil] at hlt
    omega

variable (c)

/-- A rebroadcast passes on everything if it takes place and one batch is enough. -/
theorem rebroadcast_covers_iff :
    (∀ batch ∈ c.batches broadcast, batch.length ≤ rebroadcastBatchSize) ∧
        (c.batches broadcast).flatten = c.pending ↔
      c.pending = [] ∨
        c.syncMode = false ∧ c.isInSandbox = false ∧ c.pending.length ≤ rebroadcastBatchSize := by
  by_cases hskip : c.syncMode = true ∨ c.isInSandbox = true
  · have hrun : ¬ (c.syncMode = false ∧ c.isInSandbox = false ∧
        c.pending.length ≤ rebroadcastBatchSize) := by
      rintro ⟨hsync, hsandbox, -⟩
      simp [hsync, hsandbox] at hskip
    rw [batches_of_skip broadcast hskip, or_iff_left hrun, List.flatten_nil, eq_comm,
      and_iff_right (by simp)]
  · rw [not_or, Bool.not_eq_true, Bool.not_eq_true] at hskip
    constructor
    · rintro ⟨-, hflatten⟩
      refine .inr ⟨hskip.1, hskip.2, ?_⟩
      by_contra hlong
      exact flatten_batches_ne broadcast (Nat.lt_of_not_le hlong) hflatten
    · intro h
      have hlength : c.pending.length ≤ rebroadcastBatchSize := by
        obtain hnil | ⟨-, -, hlength⟩ := h
        · rw [hnil]
          exact Nat.zero_le _
        · exact hlength
      rw [batches_of_run broadcast hskip.1 hskip.2]
      refine ⟨fun batch hbatch => ?_, ?_⟩
      · exact length_le_of_mem_rebroadcast broadcast (by simp) (Nat.zero_le _) hbatch
      · exact flatten_rebroadcast_of_le broadcast [] c.pending (by rwa [List.length_nil, Nat.zero_add])

/-- A client with so many pending transactions. -/
def withPending (n : Nat) : Client where
  clientQuit := false
  syncMode := false
  isInSandbox := false
  chainDb :=
    { pendingTrxState := .ofView .empty
      pendingTransactionDb := ∅
      pendingFeeIndex :=
        { entries := (List.range n).map fun id => ⟨(1000, id), .init (.ofView .empty) false true⟩
          nodupKeys := by
            rw [List.NodupKeys, List.keys, List.map_map]
            exact List.nodup_range.map fun i j h => (Prod.ext_iff.1 h).2 }
      relayFee := 1000
      generatingBlock := false
      nodeVmEnabled := .ok false }

theorem length_pending_withPending (n : Nat) : (withPending n).pending.length = n := by
  simp [pending, PendingPool.getPendingTransactions, withPending]

/-- Of 1001 pending transactions, one is not broadcast. -/
theorem rebroadcast_loses_one : ¬ ∀ c : Client, c.syncMode = false → c.isInSandbox = false →
    (c.batches fun _ => .ok ()).flatten = c.pending := by
  intro h
  refine flatten_batches_ne _ ?_ (h (withPending 1001) rfl rfl)
  rw [length_pending_withPending]
  decide

end Achain.Client
