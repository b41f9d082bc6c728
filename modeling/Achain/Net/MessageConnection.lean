import Achain.Lib.Streams

/-!
# Messages over an encrypted connection

A `StcpSocket` encrypts what is written to a TCP socket and decrypts what is read from it, and a
`MessageOrientedConnection` sends messages over it, padded to whole blocks, and reads them back.

The streams of fc and the AES coders are not part of the repository: what `read` and `write` make of
a `readsome` and a `writesome`, and what the coders compute, are parameters.
-/

namespace Achain.Net

abbrev Bytes := List UInt8

inductive NetException where
  | eof
  | canceled
  | assertion (condition : String)
  | fcAssert (condition : String)
  | other (what : String)
  deriving DecidableEq

abbrev NetIo (σ α : Type) := EStateM NetException σ α

/-- `fc::istream::read` and `fc::ostream::write`, made of the virtual `readsome` and `writesome`. -/
structure FcStreams where
  read : {σ : Type} → (Nat → NetIo σ Bytes) → Nat → NetIo σ Bytes
  write : {σ : Type} → (Bytes → NetIo σ Nat) → Bytes → NetIo σ Unit

/-- `fc::aes_encoder` and `fc::aes_decoder`. -/
structure Aes where
  Encoder : Type
  Decoder : Type
  encode : Bytes → Encoder → Bytes × Encoder
  decode : Bytes → Decoder → Bytes × Decoder

/-! ## The TCP socket -/

/-- A TCP socket: the bytes still to come from the other side and the ones sent to it. `arrivals` and
`departures` are how many bytes the next calls read and write when the call allows it. -/
structure TcpSocket where
  incoming : Bytes
  sent : Bytes
  arrivals : Nat → Nat
  departures : Nat → Nat

namespace TcpSocket

/-- At least one byte, and no more than asked for, offered or at hand. -/
def piece (wanted most : Nat) : Nat := max 1 (min wanted most)

def readsome (len : Nat) : NetIo TcpSocket Bytes := fun s =>
  if s.incoming = [] then .error .eof s
  else
    let n := piece (s.arrivals 0) (min len s.incoming.length)
    .ok (s.incoming.take n)
      { s with incoming := s.incoming.drop n, arrivals := fun k => s.arrivals (k + 1) }

def writesome (data : Bytes) : NetIo TcpSocket Nat := fun s =>
  let n := piece (s.departures 0) data.length
  .ok n { s with sent := s.sent ++ data.take n, departures := fun k => s.departures (k + 1) }

end TcpSocket

/-! ## The encrypted socket -/

structure StcpSocket (aes : Aes) where
  sock : TcpSocket
  sendAes : aes.Encoder
  recvAes : aes.Decoder

namespace StcpSocket

variable (fc : FcStreams) {aes : Aes}

def onSock {α : Type} (x : NetIo TcpSocket α) : NetIo (StcpSocket aes) α := fun s =>
  match x s.sock with
  | .ok a sock => .ok a { s with sock := sock }
  | .error e sock => .error e { s with sock := sock }

def decode (ciphertext : Bytes) : NetIo (StcpSocket aes) Bytes := fun s =>
  let (plaintext, recvAes) := aes.decode ciphertext s.recvAes
  .ok plaintext { s with recvAes := recvAes }

def encode (plaintext : Bytes) : NetIo (StcpSocket aes) Bytes := fun s =>
  let (ciphertext, sendAes) := aes.encode plaintext s.sendAes
  .ok ciphertext { s with sendAes := sendAes }

def readBufferLength : Nat := 4096
def writeBufferLength : Nat := 4096

/-- What is missing to whole blocks after the first piece is read as well. -/
def completed (got : Bytes) : NetIo (StcpSocket aes) Bytes :=
  if got.length % 16 = 0 then pure got
  else do
    let rest ← onSock (fc.read TcpSocket.readsome (16 - got.length % 16))
    pure (got ++ rest)

def readsome (len : Nat) : NetIo (StcpSocket aes) Bytes :=
  if 0 < len ∧ len % 16 = 0 then do
    let got ← onSock (TcpSocket.readsome (min readBufferLength len))
    let ciphertext ← completed fc got
    decode ciphertext
  else throw (.assertion "len > 0 && (len % 16) == 0")

def writesome (buffer : Bytes) : NetIo (StcpSocket aes) Nat :=
  if 0 < buffer.length ∧ buffer.length % 16 = 0 then do
    let len := min writeBufferLength buffer.length
    let ciphertext ← encode (buffer.take len)
    if ciphertext.length = len then do
      onSock (fc.write TcpSocket.writesome ciphertext)
      pure ciphertext.length
    else throw (.assertion "ciphertext_len == len")
  else throw (.assertion "len > 0 && (len % 16) == 0")

end StcpSocket

/-! ## Messages in memory -/

structure MessageHeader where
  size : UInt32
  msgType : UInt32
  deriving DecidableEq

structure Message extends MessageHeader where
  data : Bytes
  deriving DecidableEq

def maxMessageSize : UInt32 := 512 * 10000 * 5

def sizeofMessageHeader : Nat := 8

/-- The bytes of a 32-bit number in memory, the lowest first. -/
def bytesOf (n : UInt32) : Bytes :=
  [.ofNat n.toNat, .ofNat (n.toNat / 256), .ofNat (n.toNat / 256 ^ 2), .ofNat (n.toNat / 256 ^ 3)]

def numberOf (bytes : Bytes) : UInt32 :=
  .ofNat (bytes.foldr (fun b n => b.toNat + 256 * n) 0)

namespace MessageHeader

def bytes (h : MessageHeader) : Bytes := bytesOf h.size ++ bytesOf h.msgType

def ofBytes (bytes : Bytes) : MessageHeader where
  size := numberOf (bytes.take 4)
  msgType := numberOf ((bytes.drop 4).take 4)

end MessageHeader

/-- `memcpy` into a buffer from a position on. -/
def copyAt (buffer : Bytes) (position : Nat) (source : Bytes) : Bytes :=
  buffer.take position ++ source ++ buffer.drop (position + source.length)

/-- `std::vector::resize`. -/
def resize (data : Bytes) (n : Nat) : Bytes := data.take n ++ List.replicate (n - data.length) 0

/-! ## The connection -/

/-- A connection with its delegate: the messages and the closing it was told of. `clientQuit` is what
the next reads of `g_client_quit` give, and `answers` what the delegate throws at the next messages. -/
structure MessageOrientedConnection (aes : Aes) where
  sock : StcpSocket aes
  bytesReceived : Nat
  bytesSent : Nat
  sendMessageInProgress : Bool
  clientQuit : Nat → Bool
  answers : Nat → Option NetException
  onMessage : List Message
  onConnectionClosed : Bool

/-- What the read loop was doing when it was looked at. -/
inductive ReadLoop where
  | reading | returned
  deriving DecidableEq

namespace MessageOrientedConnection

variable (fc : FcStreams) {aes : Aes}

def onSock {α : Type} (x : NetIo (StcpSocket aes) α) : NetIo (MessageOrientedConnection aes) α :=
  fun c => match x c.sock with
    | .ok a sock => .ok a { c with sock := sock }
    | .error e sock => .error e { c with sock := sock }

def gClientQuit : NetIo (MessageOrientedConnection aes) Bool := fun c =>
  .ok (c.clientQuit 0) { c with clientQuit := fun k => c.clientQuit (k + 1) }

/-- `_delegate->on_message`. -/
def tellDelegate (m : Message) : NetIo (MessageOrientedConnection aes) Unit := fun c =>
  let c' := { c with
    onMessage := c.onMessage ++ [m]
    answers := fun k => c.answers (k + 1) }
  match c.answers 0 with
  | none => .ok () c'
  | some e => .error e c'

/-- The padding is whatever `new char[]` finds in memory. -/
def paddedMessage (memory : Nat → UInt8) (messageToSend : Message) : Bytes :=
  let sizeOfMessageAndHeader := sizeofMessageHeader + messageToSend.size.toNat
  let sizeWithPadding := 16 * ((sizeOfMessageAndHeader + 15) / 16)
  let padded := (List.range sizeWithPadding).map memory
  let padded := copyAt padded 0 messageToSend.toMessageHeader.bytes
  copyAt padded sizeofMessageHeader (messageToSend.data.take messageToSend.size.toNat)

def setSendMessageInProgress (b : Bool) : NetIo (MessageOrientedConnection aes) Unit :=
  modify fun c => { c with sendMessageInProgress := b }

def writePadded (padded : Bytes) : NetIo (MessageOrientedConnection aes) Unit := do
  onSock (fc.write (StcpSocket.writesome fc) padded)
  modify fun c => { c with bytesSent := c.bytesSent + padded.length }

def sendMessage (memory : Nat → UInt8) (messageToSend : Message) :
    NetIo (MessageOrientedConnection aes) Unit := do
  if (← get).sendMessageInProgress then throw (.assertion "!var")
  else
    setSendMessageInProgress true
    -- the destructor of `verify_no_send_in_progress` runs also when the write throws
    tryCatch (writePadded fc (paddedMessage memory messageToSend)) fun e => do
      setSendMessageInProgress false
      throw e
    setSendMessageInProgress false

/-- Messages sent one after the other, each with what its padding finds in memory. -/
def sendMessages : List ((Nat → UInt8) × Message) → NetIo (MessageOrientedConnection aes) Unit
  | [] => pure ()
  | (memory, m) :: messages => do
    sendMessage fc memory m
    sendMessages messages

/-- The delegate is told of a message unless the client quits, which ends the loop. -/
def handOver (m : Message) : NetIo (MessageOrientedConnection aes) (Option Message) := do
  if ← gClientQuit then pure none
  else do
    tellDelegate m
    pure (some m)

/-- The rest of a message goes behind what the first block had of it. -/
def readRemaining (data : Bytes) (remaining : Nat) : NetIo (MessageOrientedConnection aes) Bytes :=
  if remaining = 0 then pure data
  else do
    let rest ← onSock (fc.read (StcpSocket.readsome fc) remaining)
    modify fun c => { c with bytesReceived := c.bytesReceived + remaining }
    pure (copyAt data 8 rest)

/-- One pass of the read loop with the message of the pass before; `none` is its return. -/
def readMessage (m : Message) : NetIo (MessageOrientedConnection aes) (Option Message) := do
  let buffer ← onSock (fc.read (StcpSocket.readsome fc) 16)
  modify fun c => { c with bytesReceived := c.bytesReceived + 16 }
  let header := MessageHeader.ofBytes (buffer.take sizeofMessageHeader)
  if header.size ≤ maxMessageSize then do
    let leftover : UInt32 := 8
    let remainingBytesWithPadding := (16 * ((header.size - leftover + 15) / 16)).toNat
    let data := resize m.data (leftover.toNat + remainingBytesWithPadding)
    let data := copyAt data 0 (buffer.drop sizeofMessageHeader)
    let data ← readRemaining fc data remainingBytesWithPadding
    let m : Message := ⟨header, resize data header.size.toNat⟩
    handOver m
  else throw (.fcAssert "m.size <= MAX_MESSAGE_SIZE")

/-- The `while (true)` of the read loop, looked at after a number of passes. -/
def readMessages : Nat → Message → NetIo (MessageOrientedConnection aes) ReadLoop
  | 0, _ => pure .reading
  | passes + 1, m => do
    match ← readMessage fc m with
    | none => pure .returned
    | some m => readMessages passes m

/-- What the read loop does with what ends its passes; a cancelled loop only passes it on. -/
def connectionLost (rethrown : Option NetException) :
    NetIo (MessageOrientedConnection aes) ReadLoop := do
  if ← gClientQuit then pure .returned
  else do
    modify fun c => { c with onConnectionClosed := true }
    match rethrown with
    | none => pure .returned
    | some e => throw e

def readLoop (passes : Nat) : NetIo (MessageOrientedConnection aes) ReadLoop :=
  tryCatch (readMessages fc passes ⟨⟨0, 0⟩, []⟩) fun
    | .canceled => throw .canceled
    | .eof => connectionLost none
    | e => connectionLost (some e)

end MessageOrientedConnection

end Achain.Net
