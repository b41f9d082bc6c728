import Achain.Net.Node

/-!
# Offers of too many blocks

A peer that claims to have more blocks than there can be by now is disconnected. The time of the last
block it offers and the time until which blocks are accepted are both computed in 32 bits, so the
peer is kept when the first has wrapped around more often than the second and is not after it.
-/

namespace Achain.Net

/-- Numbers in order are in order after they wrap around, unless the greater one wraps around more
often and does not end up after the other. -/
theorem mod_lt_mod_of_lt_iff {a b m : Nat} :
    (a < b → a % m < b % m) ↔ (a / m < b / m → a % m < b % m) := by
  refine ⟨fun h hdiv => h (Nat.lt_of_div_lt_div hdiv), fun h hab => ?_⟩
  rcases (Nat.div_le_div_right (c := m) hab.le).lt_or_eq with hlt | heq
  · exact h hlt
  · have ha := Nat.div_add_mod a m
    have hb := Nat.div_add_mod b m
    rw [heq] at ha
    omega

namespace NodeImpl

variable (s : NodeImpl) (p : PeerId) (ids : List ItemHashType) (n : Nat)

/-- What the list of a peer that answers becomes, and whether this ends without an exception. -/
def extendedByReply : Bool × PeerConnection :=
  s.extendItemsToGet p ids
    { s.peer p with itemIdsRequestedFromPeer := false, numberOfUnfetchedItemIds := n }

/-- The answer was asked for, offers blocks, and its list is put after that of the peer. -/
structure ReachesPlausibilityTest : Prop where
  requested : (s.peer p).itemIdsRequestedFromPeer
  offers : ¬ s.upToDate { s.peer p with itemIdsRequestedFromPeer := false } ids n
  extended : (s.extendedByReply p ids n).1

/-- The exact time of the last block offered. -/
def timeOfLastOfferedBlock : Nat :=
  (s.extendedByReply p ids n).2.lastBlockTimeDelegateHasSeen + n * blockIntervalSec

/-- The exact time after which no block is accepted. -/
def latestPlausibleTime : Nat := s.delegate.getBlockchainNow + netFutureSyncBlocksGracePeriodSec

def Disconnected : Prop := p ∈ s.closingConnections ∧ p ∉ s.activeConnections

variable {s p ids n}

theorem disconnected_disconnectFromPeer : (s.disconnectFromPeer p).Disconnected p := by
  simp [Disconnected, disconnectFromPeer, movePeerToClosingList, removeConnection]

theorem disconnected_fetchNextBatch {q : PeerId} :
    (s.fetchNextBatchOfItemIdsFromPeer q).Disconnected p ↔ s.Disconnected p := by
  unfold fetchNextBatchOfItemIdsFromPeer
  dsimp only
  split
  · rfl
  · rfl

/-- A peer that stands the test is not disconnected. -/
theorem disconnected_continueWithPeer (h : ¬ s.offersImplausibleBlocks p n) :
    (s.continueWithPeer p n).Disconnected p ↔ s.Disconnected p := by
  unfold continueWithPeer
  rw [if_neg h]
  split_ifs
  · rfl
  · exact disconnected_fetchNextBatch
  · rfl
  · exact disconnected_fetchNextBatch

/-- What becomes of a reply that reaches the test. -/
theorem ReachesPlausibilityTest.reply (h : s.ReachesPlausibilityTest p ids n) :
    s.onBlockchainItemIdsInventoryMessage p ids n =
      (s.modifyPeer p fun _ => (s.extendedByReply p ids n).2).continueWithPeer p n := by
  have hextended := h.extended
  unfold onBlockchainItemIdsInventoryMessage
  rw [if_neg (by simp [h.requested])]
  dsimp only
  rw [if_neg h.offers]
  unfold extendedByReply at hextended ⊢
  rw [if_pos hextended]

/-- The test compares the two times in 32 bits. -/
theorem offersImplausibleBlocks_reply_iff :
    (s.modifyPeer p fun _ => (s.extendedByReply p ids n).2).offersImplausibleBlocks p n ↔
      s.latestPlausibleTime % 2 ^ 32 < s.timeOfLastOfferedBlock p ids n % 2 ^ 32 := by
  simp [offersImplausibleBlocks, addSeconds, modifyPeer, latestPlausibleTime, timeOfLastOfferedBlock]

/-- Among the peers that are not disconnected already, those whose offer is implausible are, exactly
when the time of the last block does not wrap around past the latest plausible one. -/
theorem refuses_implausible_offer_iff (h : s.ReachesPlausibilityTest p ids n) :
    (s.latestPlausibleTime < s.timeOfLastOfferedBlock p ids n →
        (s.onBlockchainItemIdsInventoryMessage p ids n).Disconnected p) ↔
      s.Disconnected p ∨
        (s.latestPlausibleTime / 2 ^ 32 < s.timeOfLastOfferedBlock p ids n / 2 ^ 32 →
          s.latestPlausibleTime % 2 ^ 32 < s.timeOfLastOfferedBlock p ids n % 2 ^ 32) := by
  rw [h.reply, ← mod_lt_mod_of_lt_iff, ← offersImplausibleBlocks_reply_iff]
  by_cases himplausible :
      (s.modifyPeer p fun _ => (s.extendedByReply p ids n).2).offersImplausibleBlocks p n
  · have hrefused : ((s.modifyPeer p fun _ => (s.extendedByReply p ids n).2).continueWithPeer p
        n).Disconnected p := by
      unfold continueWithPeer
      rw [if_pos himplausible]
      exact disconnected_disconnectFromPeer
    exact ⟨fun _ => .inr fun _ => himplausible, fun _ _ => hrefused⟩
  · rw [disconnected_continueWithPeer himplausible]
    change (_ → s.Disconnected p) ↔ _
    tauto

/-- A node with one active peer that was asked for the ids of its blocks, in November 2023. -/
def askingNode : NodeImpl :=
  let delegate : NodeDelegate :=
    { hasItem := fun _ => false, getBlockNumber := fun _ => none, getBlockTime := fun _ => 0,
      getBlockchainNow := 1700000000, getBlockchainSynopsis := fun _ _ => none,
      getItem := fun _ => none }
  { NodeImpl.start delegate 0 with
    peer := fun _ => { PeerConnection.fresh 0 with itemIdsRequestedFromPeer := true }
    activeConnections := [7] }

theorem askingNode_reaches : askingNode.ReachesPlausibilityTest 7 [] 429496730 := by
  refine ⟨rfl, ?_, rfl⟩
  decide

/-- More than 429 million blocks, with the last one in the year 2106, are plausible. -/
theorem keeps_implausible_peer :
    askingNode.ReachesPlausibilityTest 7 [] 429496730 ∧
      askingNode.latestPlausibleTime < askingNode.timeOfLastOfferedBlock 7 [] 429496730 ∧
      ¬ (askingNode.onBlockchainItemIdsInventoryMessage 7 [] 429496730).Disconnected 7 := by
  refine ⟨askingNode_reaches, by decide, ?_⟩
  rw [askingNode_reaches.reply, disconnected_continueWithPeer]
  · simp [Disconnected, modifyPeer, askingNode]
  · rw [offersImplausibleBlocks_reply_iff]
    decide

/-- 300 million blocks, with the last one in the year 2065, are not. -/
theorem refuses_implausible_offer_asking :
    askingNode.latestPlausibleTime < askingNode.timeOfLastOfferedBlock 7 [] 300000000 ∧
      (askingNode.onBlockchainItemIdsInventoryMessage 7 [] 300000000).Disconnected 7 := by
  have hreaches : askingNode.ReachesPlausibilityTest 7 [] 300000000 := ⟨rfl, by decide, rfl⟩
  have hlate : askingNode.latestPlausibleTime < askingNode.timeOfLastOfferedBlock 7 [] 300000000 := by
    decide
  exact ⟨hlate, (refuses_implausible_offer_iff hreaches).2 (.inr (by decide)) hlate⟩

end NodeImpl

end Achain.Net
