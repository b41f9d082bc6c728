import Mathlib.Order.Monotone.Basic
import Mathlib.Algebra.Order.Group.Nat
import Mathlib.Data.List.Basic

/-!
# Fast synchronisation

What a chain server sends to a client that asks for the blocks from a number on, and what the client makes
of what it gets from one server after the other. A block is given by its number, since the servers hold the
first blocks of one chain.
-/

namespace Achain.Net

/-! ## The server -/

/-- How a server meets a client: it cannot be connected to, it does not send its version, it has another
version, or it takes requests. -/
inductive Contact where
  | refused | silent | otherProtocol | ok
  deriving DecidableEq

/-- A server: what it reads as the number of its head block time after time, and after how many values sent
the connection fails. -/
structure ChainServer where
  contact : Contact
  head : Nat → Nat
  mono : Monotone head
  bound : ∀ i, head i < 2 ^ 32
  failsAfter : Option Nat

/-- A value of the stream to the client. -/
inductive StreamItem where
  | count (blocksToSend : Nat)
  | block (blockNum : Nat)
  deriving DecidableEq

namespace ChainServer

variable (s : ChainServer)

def maxBlockNum : Nat := 2 ^ 32 - 1

/-- The loop of `handle_get_blocks_from_number`, from the `i`-th read of the head on. After the last number
that there is comes block 0, which no chain has. -/
def sendFrom (i startBlock : Nat) : List StreamItem :=
  if startBlock ≤ s.head i then
    let endBlock := s.head (i + 1)
    let blocksToSend := endBlock - startBlock + 1
    .count blocksToSend :: ((List.range' startBlock blocksToSend).map .block ++
      if endBlock = maxBlockNum then [] else sendFrom (i + 2) (endBlock + 1))
  else [.count 0]
termination_by 2 ^ 32 - startBlock
decreasing_by
  have hmono := s.mono (Nat.le_succ i)
  have hbound := s.bound (i + 1)
  show 2 ^ 32 - (s.head (i + 1) + 1) < 2 ^ 32 - startBlock
  rw [Nat.succ_eq_add_one] at hmono
  omega

/-- `handle_get_blocks_from_number`. -/
def handleGetBlocksFromNumber (startBlock : Nat) : List StreamItem :=
  s.sendFrom 0 (if startBlock = 0 then 1 else startBlock)

/-- What reaches the client. -/
def stream (startBlock : Nat) : List StreamItem :=
  match s.failsAfter with
  | none => s.handleGetBlocksFromNumber startBlock
  | some n => (s.handleGetBlocksFromNumber startBlock).take n

end ChainServer

/-! ## The client -/

/-- The worker of `get_all_blocks` with so many blocks to retrieve: the blocks passed to the callback, and
whether it gets to its end. -/
def receive : Nat → List StreamItem → List Nat × Bool
  | 0, .count 0 :: _ => ([], true)
  | 0, .count (n + 1) :: items => receive (n + 1) items
  | n + 1, .block b :: items => (b :: (receive n items).1, (receive n items).2)
  | _, _ => ([], false)

/-- What the client gets from a server that it is connected to. -/
def ChainServer.session (s : ChainServer) (firstBlockNumber : Nat) : List Nat × Bool :=
  receive 0 (s.stream firstBlockNumber)

/-- `connect_to_chain_server`: the server connected to, if there is one, and those not tried yet. -/
def connectToChainServer : List ChainServer → Option ChainServer × List ChainServer
  | [] => (none, [])
  | s :: servers =>
    match s.contact with
    | .refused | .otherProtocol => connectToChainServer servers
    | .silent => (none, servers)
    | .ok => (some s, servers)

theorem length_connectToChainServer_lt (s : ChainServer) (servers : List ChainServer) :
    (connectToChainServer (s :: servers)).2.length < (s :: servers).length := by
  induction servers generalizing s with
  | nil =>
    rw [connectToChainServer]
    cases s.contact <;> exact Nat.zero_lt_one
  | cons t servers ih =>
    rw [connectToChainServer]
    cases s.contact
    · exact (ih t).trans (Nat.lt_succ_self _)
    · exact Nat.lt_succ_self _
    · exact (ih t).trans (Nat.lt_succ_self _)
    · exact Nat.lt_succ_self _

/-- The loop of `get_all_blocks`: the blocks passed to the callback. A failure ends only the session that
it comes in. -/
def getBlocksFrom (firstBlockNumber : Nat) : List ChainServer → List Nat
  | [] => []
  | s :: servers =>
    let r := connectToChainServer (s :: servers)
    (match r.1 with
      | some server => (server.session firstBlockNumber).1
      | none => []) ++ getBlocksFrom firstBlockNumber r.2
termination_by servers => servers.length
decreasing_by exact length_connectToChainServer_lt s servers

/-- `get_all_blocks`, which takes the servers from the back. -/
def getAllBlocks (chainServers : List ChainServer) (firstBlockNumber : Nat) : List Nat :=
  getBlocksFrom firstBlockNumber chainServers.reverse

end Achain.Net
