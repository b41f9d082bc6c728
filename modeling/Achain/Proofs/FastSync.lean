import Achain.Net.ChainDownloader
import Mathlib.Data.List.Range
import Mathlib.Data.List.Infix

/-!
# The blocks of a fast synchronisation

A session gives the blocks from the number asked for up to some number, and if it gets to its end up to
the head that the server had last. The next server is asked for the blocks from the same number on. So
the blocks come in order if only one server gives any, and end with the head of a server that gets to its
end if it is that one.
-/

namespace Achain.Net

/-! ## A stream -/

theorem receive_blocks (startBlock n : Nat) (items : List StreamItem) :
    receive n ((List.range' startBlock n).map .block ++ items) =
      (List.range' startBlock n ++ (receive 0 items).1, (receive 0 items).2) := by
  induction n generalizing startBlock with
  | zero => rfl
  | succ n ih =>
    rw [List.range'_succ, List.map_cons, List.cons_append, receive, ih]
    rfl

/-- What is behind the end of a stream is not read. -/
theorem receive_append {n : Nat} {items : List StreamItem} (rest : List StreamItem)
    (h : (receive n items).2 = true) : receive n (items ++ rest) = receive n items := by
  fun_induction receive n items with
  | case1 => rfl
  | case2 n items ih =>
    rw [List.cons_append, receive]
    exact ih h
  | case3 n b items ih =>
    rw [List.cons_append, receive, ih h]
  | case4 => cases h

/-- What is received of a stream that is cut off are the first blocks of it. -/
theorem receive_prefix (n : Nat) (items rest : List StreamItem) :
    (receive n items).1 <+: (receive n (items ++ rest)).1 := by
  fun_induction receive n items with
  | case1 => exact List.nil_prefix
  | case2 n items ih => exact ih
  | case3 n b items ih =>
    rw [List.cons_append, receive]
    exact List.cons_prefix_cons.2 ⟨rfl, ih⟩
  | case4 => exact List.nil_prefix

namespace ChainServer

variable (s : ChainServer)

/-- The number of the head that the loop reads last. -/
def lastHeadFrom (i startBlock : Nat) : Nat :=
  if startBlock ≤ s.head i then
    if s.head (i + 1) = maxBlockNum then maxBlockNum
    else lastHeadFrom (i + 2) (s.head (i + 1) + 1)
  else s.head i
termination_by 2 ^ 32 - startBlock
decreasing_by
  have hmono := s.mono (Nat.le_succ i)
  have hbound := s.bound (i + 1)
  rw [Nat.succ_eq_add_one] at hmono
  omega

theorem head_le_lastHeadFrom (i startBlock : Nat) : s.head i ≤ s.lastHeadFrom i startBlock := by
  fun_induction lastHeadFrom s i startBlock with
  | case1 i startBlock _ hmax => exact hmax ▸ s.mono (Nat.le_succ i)
  | case2 i startBlock _ _ ih => exact (s.mono (Nat.le_add_right i 2)).trans ih
  | case3 => exact le_rfl

/-- All rounds together send the blocks up to the last head. -/
theorem receive_sendFrom (i startBlock : Nat) : (receive 0 (s.sendFrom i startBlock)).1 =
    List.range' startBlock (s.lastHeadFrom i startBlock + 1 - startBlock) := by
  fun_induction lastHeadFrom s i startBlock with
  | case1 i startBlock hle hmax =>
    have hmono := s.mono (Nat.le_succ i)
    have hend : s.head (i + 1) - startBlock + 1 = maxBlockNum + 1 - startBlock := by
      rw [Nat.succ_eq_add_one] at hmono
      omega
    rw [sendFrom, if_pos hle]
    dsimp only
    rw [if_pos hmax, receive, receive_blocks, hend]
    exact List.append_nil _
  | case2 i startBlock hle hmax ih =>
    have hmono := s.mono (Nat.le_succ i)
    have hmono' : s.head (i + 1) ≤ s.head (i + 2) := s.mono (Nat.le_succ (i + 1))
    have hlast := s.head_le_lastHeadFrom (i + 2) (s.head (i + 1) + 1)
    rw [Nat.succ_eq_add_one] at hmono
    have hnext : s.head (i + 1) + 1 = startBlock + (s.head (i + 1) - startBlock + 1) := by omega
    rw [sendFrom, if_pos hle]
    dsimp only
    rw [if_neg hmax, receive, receive_blocks, ih]
    dsimp only
    rw [hnext, List.range'_append_1, ← hnext]
    congr 1
    omega
  | case3 i startBlock hlt =>
    have hnone : s.head i + 1 - startBlock = 0 := by omega
    rw [sendFrom, if_neg hlt, receive, hnone]
    rfl

/-! ## A session -/

/-- The number of the first block that a server sends. -/
def firstBlock (n : Nat) : Nat := if n = 0 then 1 else n

variable (n : Nat)

/-- The blocks that the client gets from the server. -/
def delivered : List Nat := if s.contact = .ok then (s.session n).1 else []

/-- The session gets to its end. -/
def Completes : Prop := s.contact = .ok ∧ (s.session n).2 = true

/-- The server's head at the end. -/
def lastHead : Nat := s.lastHeadFrom 0 (firstBlock n)

/-- The server can be connected to, has the block asked for and sends a block before a failure. -/
def delivers : Bool :=
  s.contact = .ok && firstBlock n ≤ s.head 0 && s.failsAfter.all (2 ≤ ·)

theorem stream_prefix : ∃ rest, s.handleGetBlocksFromNumber n = s.stream n ++ rest := by
  rw [stream]
  cases s.failsAfter with
  | none => exact ⟨[], (List.append_nil _).symm⟩
  | some k => exact ⟨_, (List.take_append_drop k _).symm⟩

theorem delivered_eq : ∃ k, s.delivered n = List.range' (firstBlock n) k := by
  rw [delivered]
  split_ifs
  · obtain ⟨rest, hrest⟩ := s.stream_prefix n
    have hprefix := receive_prefix 0 (s.stream n) rest
    rw [← hrest, handleGetBlocksFromNumber, receive_sendFrom] at hprefix
    obtain ⟨behind, hbehind⟩ := hprefix
    obtain ⟨k, -, hk, -⟩ := List.range'_eq_append_iff.1 hbehind.symm
    exact ⟨k, hk⟩
  · exact ⟨0, rfl⟩

theorem delivered_of_completes (h : s.Completes n) :
    s.delivered n = List.range' (firstBlock n) (s.lastHead n + 1 - firstBlock n) := by
  obtain ⟨rest, hrest⟩ := s.stream_prefix n
  rw [delivered, if_pos h.1, session, ← receive_append rest h.2, ← hrest, handleGetBlocksFromNumber,
    receive_sendFrom]
  rfl

theorem handleGetBlocksFromNumber_eq : ∃ blocksToSend rest,
    s.handleGetBlocksFromNumber n =
      if firstBlock n ≤ s.head 0 then
        .count (blocksToSend + 1) :: .block (firstBlock n) :: rest
      else [.count 0] := by
  rw [handleGetBlocksFromNumber, ← firstBlock, sendFrom]
  split_ifs
  · exact ⟨_, _, rfl⟩
  · exact ⟨0, [], rfl⟩

/-- A server delivers a block if it can. -/
theorem delivered_ne_nil_iff : s.delivered n ≠ [] ↔ s.delivers n = true := by
  obtain ⟨blocksToSend, rest, hblocks⟩ := s.handleGetBlocksFromNumber_eq n
  rw [delivered, delivers]
  by_cases hcontact : s.contact = .ok
  · rw [if_pos hcontact, session, stream, hblocks]
    by_cases hle : firstBlock n ≤ s.head 0
    · rw [if_pos hle]
      cases hfails : s.failsAfter with
      | none => simp [hcontact, hle, receive]
      | some k =>
        match k with
        | 0 => simp [receive]
        | 1 => simp [receive]
        | k + 2 => simp [hcontact, hle, receive]
    · rw [if_neg hle]
      cases hfails : s.failsAfter with
      | none => simp [hle, receive]
      | some k => cases k <;> simp [hle, receive]
  · simp [hcontact]

end ChainServer

/-! ## The servers one after the other -/

theorem getBlocksFrom_eq (n : Nat) (servers : List ChainServer) :
    getBlocksFrom n servers = servers.flatMap fun s => s.delivered n := by
  have hconnect : ∀ servers : List ChainServer,
      (servers.flatMap fun s => s.delivered n) =
        ((connectToChainServer servers).1.elim [] fun server => (server.session n).1) ++
          (connectToChainServer servers).2.flatMap fun s => s.delivered n := by
    intro servers
    induction servers with
    | nil => rfl
    | cons s servers ih =>
      rw [List.flatMap_cons, ChainServer.delivered, connectToChainServer]
      cases hcontact : s.contact
      · exact ih
      · rfl
      · exact ih
      · rfl
  induction hlen : servers.length using Nat.strong_induction_on generalizing servers with
  | _ k ih =>
    subst hlen
    cases servers with
    | nil => rw [getBlocksFrom, List.flatMap_nil]
    | cons s servers =>
      rw [getBlocksFrom, ih _ (length_connectToChainServer_lt s servers) _ rfl, hconnect (s :: servers)]
      cases (connectToChainServer (s :: servers)).1 <;> rfl

open ChainServer

theorem getAllBlocks_eq (n : Nat) (servers : List ChainServer) :
    getAllBlocks servers n = servers.reverse.flatMap fun s => s.delivered n :=
  getBlocksFrom_eq n servers.reverse

/-- Each server that delivers a block delivers the first. -/
theorem count_firstBlock (n : Nat) (servers : List ChainServer) :
    (servers.flatMap fun s => s.delivered n).count (firstBlock n) =
      servers.countP fun s => s.delivers n := by
  induction servers with
  | nil => rfl
  | cons s servers ih =>
    have hone : (s.delivered n).count (firstBlock n) = if s.delivers n = true then 1 else 0 := by
      obtain ⟨k, hk⟩ := s.delivered_eq n
      have hiff := s.delivered_ne_nil_iff n
      rw [hk] at hiff ⊢
      cases k with
      | zero => simpa using hiff
      | succ k =>
        rw [if_pos (hiff.1 (by simp)), List.range'_succ, List.count_cons_self,
          List.count_eq_zero_of_not_mem (by simp)]
    rw [List.flatMap_cons, List.count_append, ih, hone, List.countP_cons, Nat.add_comm]

theorem flatMap_delivered_of_none {n : Nat} {servers : List ChainServer}
    (h : ∀ s ∈ servers, s.delivers n = false) : (servers.flatMap fun s => s.delivered n) = [] := by
  refine List.flatMap_eq_nil_iff.2 fun s hs => ?_
  by_contra hne
  exact Bool.false_ne_true ((h s hs).symm.trans ((s.delivered_ne_nil_iff n).1 hne))

/-- If only one server delivers blocks, there are no others. -/
theorem flatMap_delivered_of_one {n : Nat} {servers : List ChainServer} {s : ChainServer}
    (hone : (servers.countP fun s => s.delivers n) ≤ 1) (hs : s ∈ servers)
    (hdelivers : s.delivers n = true) : (servers.flatMap fun s => s.delivered n) = s.delivered n := by
  obtain ⟨front, back, rfl⟩ := List.append_of_mem hs
  rw [List.countP_append, List.countP_cons, if_pos hdelivers] at hone
  have hnone : ∀ l : List ChainServer, (l.countP fun s => s.delivers n) = 0 →
      ∀ t ∈ l, t.delivers n = false := by
    intro l hl t ht
    exact Bool.eq_false_of_not_eq_true (List.countP_eq_zero.1 hl t ht)
  rw [List.flatMap_append, List.flatMap_cons,
    flatMap_delivered_of_none (hnone front (by omega)),
    flatMap_delivered_of_none (hnone back (by omega)), List.nil_append, List.append_nil]

/-! ## All blocks -/

/-- The blocks have consecutive numbers from the first on, and end with the head of each server that gets
to its end. -/
def InOrder (servers : List ChainServer) (n : Nat) : Prop :=
  (∃ k, getAllBlocks servers n = List.range' (max n 1) k) ∧
    ∀ s ∈ servers, s.Completes n →
      getAllBlocks servers n = List.range' (max n 1) (s.lastHead n + 1 - max n 1)

theorem firstBlock_eq (n : Nat) : firstBlock n = max n 1 := by
  rw [firstBlock]
  split_ifs <;> omega

/-- Blocks that come in order are those of one server. -/
theorem countP_delivers_le_one {servers : List ChainServer} {n : Nat} (h : InOrder servers n) :
    (servers.countP fun s => s.delivers n) ≤ 1 := by
  obtain ⟨⟨k, hk⟩, -⟩ := h
  have hcount := count_firstBlock n servers.reverse
  rw [List.countP_reverse] at hcount
  rw [getAllBlocks_eq] at hk
  rw [← hcount, hk]
  exact List.nodup_iff_count.1 List.nodup_range' _

/-- The blocks come in order if at most one server delivers any, and then no other gets to its end. -/
theorem inOrder_iff (servers : List ChainServer) (n : Nat) :
    InOrder servers n ↔ (servers.countP fun s => s.delivers n) ≤ 1 ∧
      ∀ s ∈ servers, s.Completes n → ∀ t ∈ servers, t.delivers n = true → s.delivers n = true := by
  constructor
  · intro h
    refine ⟨countP_delivers_le_one h, fun s hs hcompletes t ht hdelivers => ?_⟩
    have hend := h.2 s hs hcompletes
    rw [← firstBlock_eq, getAllBlocks_eq] at hend
    rw [← s.delivered_ne_nil_iff, s.delivered_of_completes n hcompletes, ← hend]
    intro hnil
    have hzero := List.flatMap_eq_nil_iff.1 hnil t (List.mem_reverse.2 ht)
    exact (t.delivered_ne_nil_iff n).2 hdelivers hzero
  · rintro ⟨hone, hother⟩
    rw [InOrder, getAllBlocks_eq, ← firstBlock_eq]
    rw [← List.countP_reverse] at hone
    by_cases hany : ∃ t ∈ servers, t.delivers n = true
    · obtain ⟨t, ht, hdelivers⟩ := hany
      have hall := flatMap_delivered_of_one hone (List.mem_reverse.2 ht) hdelivers
      refine ⟨(t.delivered_eq n).imp fun k hk => hall.trans hk, fun s hs hcompletes => ?_⟩
      rw [flatMap_delivered_of_one hone (List.mem_reverse.2 hs) (hother s hs hcompletes t ht hdelivers),
        s.delivered_of_completes n hcompletes]
    · have hnone : ∀ s ∈ servers, s.delivers n = false :=
        fun s hs => Bool.eq_false_of_not_eq_true fun hdelivers => hany ⟨s, hs, hdelivers⟩
      have hnil := flatMap_delivered_of_none fun s hs => hnone s (List.mem_reverse.1 hs)
      refine ⟨⟨0, hnil⟩, fun s hs hcompletes => ?_⟩
      rw [hnil, ← s.delivered_of_completes n hcompletes]
      by_contra hne
      exact Bool.false_ne_true
        ((hnone s hs).symm.trans ((s.delivered_ne_nil_iff n).1 (Ne.symm hne)))

/-- A server with the first two blocks. -/
def twoBlocks : ChainServer where
  contact := .ok
  head _ := 2
  mono _ _ _ := le_rfl
  bound _ := by decide
  failsAfter := none

/-- Two servers that do not fail both send their blocks. -/
theorem both_servers_send : ¬ InOrder [twoBlocks, twoBlocks] 1 := by
  intro h
  exact absurd (countP_delivers_le_one h) (by decide)

end Achain.Net
