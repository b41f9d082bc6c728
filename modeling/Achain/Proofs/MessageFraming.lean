import Achain.Net.MessageConnection

/-!
# What is sent is what is read

The sender's bytes are carried block by block to the receiver's decoder, and reading them takes the
same steps however the TCP stream cuts them. A padded message has its header first, and the receiver
reads sixteen bytes and then exactly the rest of the padded message.
-/

namespace Achain.Net

open Streams

/-- What the code relies on from `fc::istream` and `fc::ostream`. -/
structure FcStreams.Documented (fc : FcStreams) : Prop where
  read : ∀ {σ : Type} (readsome : Nat → NetIo σ Bytes), ReadLaw readsome (fc.read readsome)
  write : ∀ {σ : Type} (writesome : Bytes → NetIo σ Nat), WriteLaw writesome (fc.write writesome)

/-! ## The TCP socket -/

namespace TcpSocket

theorem piece_pos (wanted most : Nat) : 0 < piece wanted most := by unfold piece; omega

theorem piece_le {wanted most : Nat} (h : 0 < most) : piece wanted most ≤ most := by
  unfold piece
  omega

theorem readsome_eq {s : TcpSocket} (h : s.incoming ≠ []) {len : Nat} (hlen : 0 < len) :
    ∃ n s', 0 < n ∧ n ≤ len ∧ n ≤ s.incoming.length ∧
      readsome len s = .ok (s.incoming.take n) s' ∧ s'.incoming = s.incoming.drop n := by
  have hpos : 0 < min len s.incoming.length :=
    Nat.lt_min.2 ⟨hlen, List.length_pos_of_ne_nil h⟩
  have hle : piece (s.arrivals 0) _ ≤ _ := piece_le hpos
  set n := piece (s.arrivals 0) (min len s.incoming.length) with hn
  refine ⟨n, { s with incoming := s.incoming.drop n, arrivals := fun k => s.arrivals (k + 1) },
    piece_pos .., ?_, ?_, ?_, rfl⟩
  · exact hle.trans (Nat.min_le_left ..)
  · exact hle.trans (Nat.min_le_right ..)
  · rw [readsome, if_neg h]

theorem serves : Serves 1 (fun s data => s.incoming = data) .eof readsome where
  gives := by
    rintro len s data hlen - hdata rfl
    obtain ⟨n, s', hn, hnlen, hndata, hread, hs'⟩ := readsome_eq hdata hlen
    exact ⟨n, s', hn, hnlen, hndata, one_dvd n, hread, hs'⟩
  ends := fun _ _ h => ⟨_, if_pos h, h⟩

theorem accepts : Accepts 1 (fun s data => s.sent = data) writesome where
  takes := by
    rintro data s - hdata - rfl
    exact ⟨piece (s.departures 0) data.length, _, piece_pos ..,
      piece_le (List.length_pos_of_ne_nil hdata), one_dvd _, rfl, rfl⟩

end TcpSocket

/-! ## The encrypted socket -/

namespace StcpSocket

variable {fc : FcStreams} {aes : Aes} {paired : aes.Encoder → aes.Decoder → Prop}

/-- The plain bytes that are still to come. -/
def Expects (s : StcpSocket aes) (data : Bytes) : Prop :=
  ∃ d, Carries 16 aes.decode s.recvAes s.sock.incoming data d

/-- The plain bytes sent to a decoder, which is then in step with the encoder. -/
def HasSent (paired : aes.Encoder → aes.Decoder → Prop) (start : aes.Decoder) (s : StcpSocket aes)
    (data : Bytes) : Prop :=
  ∃ d, Carries 16 aes.decode start s.sock.sent data d ∧ paired s.sendAes d

theorem onSock_of_ok {α : Type} {x : NetIo TcpSocket α} {s : StcpSocket aes} {a : α}
    {sock : TcpSocket} (h : x s.sock = .ok a sock) :
    onSock x s = .ok a { s with sock := sock } := by
  rw [onSock, h]

/-- After a first piece, the read goes on to the end of a block. -/
theorem completed_eq (hfc : fc.Documented) {s : StcpSocket aes} {got after : Bytes}
    (hs : s.sock.incoming = after) (hblocks : 16 ∣ got.length + after.length) :
    ∃ k sock, k ≤ after.length ∧ k < 16 ∧ 16 ∣ got.length + k ∧
      completed fc got s = .ok (got ++ after.take k) { s with sock := sock } ∧
      sock.incoming = after.drop k := by
  by_cases hwhole : got.length % 16 = 0
  · refine ⟨0, s.sock, Nat.zero_le _, by omega, by omega, ?_, hs⟩
    rw [completed, if_pos hwhole, List.take_zero, List.append_nil]
    rfl
  · obtain ⟨sock, hread, hsock⟩ := (hfc.read TcpSocket.readsome).of_serves TcpSocket.serves
      (one_dvd (16 - got.length % 16)) (by omega) hs
    refine ⟨16 - got.length % 16, sock, by omega, by omega, by omega, ?_, hsock⟩
    rw [completed, if_neg hwhole]
    exact Stateful.bind_of_ok (onSock_of_ok hread)

/-- Reading some bytes decrypts whole blocks of those to come. -/
theorem readsome_eq (hfc : fc.Documented) (haes : Inverse 16 aes.encode aes.decode paired)
    {s : StcpSocket aes} {data : Bytes} {len : Nat} (hlen : 0 < len) (hdvd : 16 ∣ len)
    (hdata : data ≠ []) (hs : s.Expects data) :
    ∃ n s', 0 < n ∧ n ≤ len ∧ n ≤ data.length ∧ 16 ∣ n ∧
      readsome fc len s = .ok (data.take n) s' ∧ Expects s' (data.drop n) := by
  obtain ⟨d, hcarries⟩ := hs
  have hlength := hcarries.length_eq
  have hblocks := hcarries.dvd_length
  have hincoming : s.sock.incoming ≠ [] := by
    rintro hnil
    rw [hnil] at hlength
    exact hdata (List.length_eq_zero_iff.1 hlength.symm)
  obtain ⟨n, sock, hn, hnmin, hnincoming, hread, hsock⟩ :=
    TcpSocket.readsome_eq hincoming
      (show 0 < min readBufferLength len by unfold readBufferLength; omega)
  have htake : (s.sock.incoming.take n).length = n := List.length_take_of_le hnincoming
  have hdrop : (s.sock.incoming.drop n).length = s.sock.incoming.length - n := List.length_drop
  obtain ⟨k, sock', hk, hk16, hkdvd, hcompleted, hsock'⟩ :=
    completed_eq hfc (s := { s with sock := sock }) hsock
      (show 16 ∣ (s.sock.incoming.take n).length + _ by rw [htake, hdrop]; omega)
  rw [htake] at hkdvd
  rw [hdrop] at hk
  rw [← List.take_add] at hcompleted
  rw [List.drop_drop] at hsock'
  obtain ⟨hdecoded, hrest⟩ :=
    hcarries.decode_take haes (n := n + k) (by omega) hkdvd (by omega)
  refine ⟨n + k,
    ⟨sock', s.sendAes, (aes.decode (s.sock.incoming.take (n + k)) s.recvAes).2⟩,
    by omega, by unfold readBufferLength at hnmin; omega, by omega, hkdvd, ?_, d, ?_⟩
  · rw [readsome, if_pos ⟨hlen, Nat.mod_eq_zero_of_dvd hdvd⟩]
    refine (Stateful.bind_of_ok (onSock_of_ok hread)).trans ?_
    refine (Stateful.bind_of_ok hcompleted).trans ?_
    exact congrArg (fun plain => EStateM.Result.ok plain _) hdecoded
  · show Carries 16 aes.decode (aes.decode _ _).2 sock'.incoming _ _
    rwa [hsock']

theorem serves (hfc : fc.Documented) (haes : Inverse 16 aes.encode aes.decode paired) :
    Serves 16 Expects .eof (readsome fc : Nat → NetIo (StcpSocket aes) Bytes) where
  gives := readsome_eq hfc haes
  ends := by
    rintro len s hlen hdvd ⟨d, hcarries⟩
    have hincoming : s.sock.incoming = [] := List.length_eq_zero_iff.1 hcarries.length_eq
    refine ⟨s, ?_, d, hcarries⟩
    rw [readsome, if_pos ⟨hlen, Nat.mod_eq_zero_of_dvd hdvd⟩]
    refine Stateful.bind_of_error ?_
    rw [onSock, TcpSocket.readsome, if_pos hincoming]

/-- Writing some bytes sends whole blocks of them, encrypted. -/
theorem writesome_eq (hfc : fc.Documented) (haes : Inverse 16 aes.encode aes.decode paired)
    {start : aes.Decoder} {s : StcpSocket aes} {data before : Bytes} (hdata : data ≠ [])
    (hdvd : 16 ∣ data.length) (hs : HasSent paired start s before) :
    ∃ n s', 0 < n ∧ n ≤ data.length ∧ 16 ∣ n ∧ writesome fc data s = .ok n s' ∧
      HasSent paired start s' (before ++ data.take n) := by
  obtain ⟨d, hcarries, hpaired⟩ := hs
  have hpos : 0 < data.length := List.length_pos_of_ne_nil hdata
  set len := min writeBufferLength data.length with hlen
  have hlenpos : 0 < len := by unfold writeBufferLength at hlen; omega
  have hlendvd : 16 ∣ len := by unfold writeBufferLength at hlen; omega
  have htake : (data.take len).length = len := List.length_take_of_le (by omega)
  obtain ⟨k, hk⟩ : ∃ k, len = 16 * (k + 1) := ⟨len / 16 - 1, by omega⟩
  obtain ⟨d', hcarried, hpaired'⟩ := haes.carries (x := data.take len) (htake.trans hk) hpaired
  obtain ⟨sock, hwrite, hsock⟩ := (hfc.write TcpSocket.writesome).of_accepts TcpSocket.accepts
    (s := s.sock) (one_dvd (aes.encode (data.take len) s.sendAes).1.length) rfl
  refine ⟨len, ⟨sock, (aes.encode (data.take len) s.sendAes).2, s.recvAes⟩, hlenpos, by omega,
    hlendvd, ?_, d', ?_, hpaired'⟩
  · rw [writesome, if_pos ⟨hpos, Nat.mod_eq_zero_of_dvd hdvd⟩]
    have hlength := hcarried.length_eq.trans htake
    set s₁ : StcpSocket aes := ⟨s.sock, (aes.encode (data.take len) s.sendAes).2, s.recvAes⟩
    have hencode : encode (data.take len) s = .ok (aes.encode (data.take len) s.sendAes).1 s₁ :=
      rfl
    refine (Stateful.bind_of_ok hencode).trans ?_
    rw [if_pos hlength]
    refine (Stateful.bind_of_ok (onSock_of_ok (s := s₁) hwrite)).trans ?_
    rw [hlength]
    rfl
  · show Carries 16 aes.decode start sock.sent _ _
    rw [hsock]
    exact hcarries.append hcarried

theorem accepts (hfc : fc.Documented) (haes : Inverse 16 aes.encode aes.decode paired)
    (start : aes.Decoder) : Accepts 16 (HasSent paired start) 
      (writesome fc : Bytes → NetIo (StcpSocket aes) Nat) :=
  ⟨writesome_eq hfc haes⟩

end StcpSocket

/-! ## Messages in memory -/

theorem numberOf_bytesOf (n : UInt32) : numberOf (bytesOf n) = n := by
  have hn := n.toNat_lt
  rw [← UInt32.toNat_inj, numberOf, bytesOf, UInt32.toNat_ofNat']
  simp only [List.foldr_cons, List.foldr_nil, UInt8.toNat_ofNat']
  omega

namespace MessageHeader

@[simp] theorem length_bytes (h : MessageHeader) : h.bytes.length = sizeofMessageHeader := rfl

@[simp] theorem ofBytes_bytes (h : MessageHeader) : ofBytes h.bytes = h := by
  show (⟨numberOf (bytesOf h.size), numberOf (bytesOf h.msgType)⟩ : MessageHeader) = h
  rw [numberOf_bytesOf, numberOf_bytesOf]

end MessageHeader

theorem copyAt_zero (buffer source : Bytes) :
    copyAt buffer 0 source = source ++ buffer.drop source.length := by
  rw [copyAt, List.take_zero, List.nil_append, Nat.zero_add]

/-- A copy right after what comes first. -/
theorem copyAt_append (first buffer source : Bytes) :
    copyAt (first ++ buffer) first.length source =
      first ++ source ++ buffer.drop source.length := by
  rw [copyAt, List.take_left, List.drop_length_add_append]

theorem length_resize (data : Bytes) (n : Nat) : (resize data n).length = n := by
  rw [resize, List.length_append, List.length_take, List.length_replicate]
  omega

theorem resize_of_le {data : Bytes} {n : Nat} (h : n ≤ data.length) :
    resize data n = data.take n := by
  rw [resize, Nat.sub_eq_zero_of_le h, List.replicate_zero, List.append_nil]

/-- Two copies that fill a buffer leave nothing of what was in it. -/
theorem copyAt_copyAt {buffer first second : Bytes}
    (h : buffer.length = first.length + second.length) :
    copyAt (copyAt buffer 0 first) first.length second = first ++ second := by
  rw [copyAt_zero, copyAt_append, List.drop_drop, List.drop_eq_nil_of_le h.le, List.append_nil]

/-- The padding brings header and data to whole blocks. -/
def paddedLength (size : Nat) : Nat := 16 * ((sizeofMessageHeader + size + 15) / 16)

/-- The receiver's formula, in 32-bit arithmetic, gives what is left after the first block. -/
theorem remaining_eq {size : UInt32} (h : size ≤ maxMessageSize) :
    16 + (16 * ((size - 8 + 15) / 16)).toNat = paddedLength size.toNat := by
  have hsize : size.toNat ≤ 25600000 := h
  have hwrap : (size - 8 + 15).toNat = size.toNat + 7 := by
    rw [UInt32.toNat_add, UInt32.toNat_sub]
    show ((2 ^ 32 - 8 + size.toNat) % 2 ^ 32 + 15) % 2 ^ 32 = _
    omega
  rw [UInt32.toNat_mul, UInt32.toNat_div, hwrap, paddedLength, sizeofMessageHeader]
  show 16 + 16 * ((size.toNat + 7) / 16) % 2 ^ 32 = _
  omega

theorem paddedLength_pos (size : Nat) : 0 < paddedLength size := by
  unfold paddedLength sizeofMessageHeader
  omega

theorem dvd_paddedLength (size : Nat) : 16 ∣ paddedLength size := dvd_mul_right _ _

namespace MessageOrientedConnection

/-- A padded message is its header, what is left of the first block, and the other blocks; after the
header it has the data first. -/
theorem paddedMessage_eq (memory : Nat → UInt8) {m : Message} (hm : m.data.length = m.size.toNat) :
    ∃ first others : Bytes, paddedMessage memory m = m.bytes ++ first ++ others ∧
      first.length = 8 ∧ 16 + others.length = paddedLength m.size.toNat ∧
      m.data = (first ++ others).take m.size.toNat := by
  have hlong := paddedLength_pos m.size.toNat
  have hdvd := dvd_paddedLength m.size.toNat
  set padded := (List.range (paddedLength m.size.toNat)).map memory
  have hpadded : padded.length = paddedLength m.size.toNat := by
    rw [List.length_map, List.length_range]
  set after := m.data ++ (padded.drop sizeofMessageHeader).drop m.data.length with hafterdef
  have hafter : after.length = paddedLength m.size.toNat - 8 := by
    rw [List.length_append, List.length_drop, List.length_drop, hpadded, hm]
    unfold paddedLength sizeofMessageHeader
    omega
  refine ⟨after.take 8, after.drop 8, ?_, List.length_take_of_le (by omega), ?_, ?_⟩
  · have hheader : copyAt padded 0 m.bytes = m.bytes ++ padded.drop sizeofMessageHeader :=
      copyAt_zero ..
    have hdata := copyAt_append m.bytes (padded.drop sizeofMessageHeader) m.data
    rw [← hheader, MessageHeader.length_bytes, List.append_assoc] at hdata
    rw [List.append_assoc, List.take_append_drop, ← hdata, paddedMessage,
      List.take_of_length_le hm.le]
    rfl
  · rw [List.length_drop, hafter]
    omega
  · rw [List.take_append_drop, ← hm, List.take_left]

theorem length_paddedMessage (memory : Nat → UInt8) {m : Message}
    (hm : m.data.length = m.size.toNat) :
    (paddedMessage memory m).length = paddedLength m.size.toNat := by
  obtain ⟨first, others, hpadded, hfirst, hothers, -⟩ := paddedMessage_eq memory hm
  rw [hpadded, List.length_append, List.length_append, MessageHeader.length_bytes, hfirst, ← hothers]
  rfl

variable {fc : FcStreams} {aes : Aes} {paired : aes.Encoder → aes.Decoder → Prop}

theorem onSock_of_ok {α : Type} {x : NetIo (StcpSocket aes) α} {c : MessageOrientedConnection aes}
    {a : α} {sock : StcpSocket aes} (h : x c.sock = .ok a sock) :
    onSock x c = .ok a { c with sock := sock } := by
  rw [onSock, h]

theorem onSock_of_error {α : Type} {x : NetIo (StcpSocket aes) α}
    {c : MessageOrientedConnection aes} {e : NetException} {sock : StcpSocket aes}
    (h : x c.sock = .error e sock) : onSock x c = .error e { c with sock := sock } := by
  rw [onSock, h]

theorem gClientQuit_bind {α : Type} (f : Bool → NetIo (MessageOrientedConnection aes) α)
    (c : MessageOrientedConnection aes) :
    (gClientQuit >>= f) c =
      f (c.clientQuit 0) { c with clientQuit := fun k => c.clientQuit (k + 1) } := rfl

/-! ## Sending -/

/-- A sender that is not in the middle of a message, with the bytes it has sent to a decoder. -/
structure Sent (paired : aes.Encoder → aes.Decoder → Prop) (start : aes.Decoder)
    (c : MessageOrientedConnection aes) (data : Bytes) : Prop where
  idle : c.sendMessageInProgress = false
  sent : c.sock.HasSent paired start data

theorem sendMessage_eq (hfc : fc.Documented) (haes : Inverse 16 aes.encode aes.decode paired)
    {start : aes.Decoder} {c : MessageOrientedConnection aes} {before : Bytes}
    (hc : Sent paired start c before) (memory : Nat → UInt8) {m : Message}
    (hm : m.data.length = m.size.toNat) :
    ∃ c', sendMessage fc memory m c = .ok () c' ∧
      Sent paired start c' (before ++ paddedMessage memory m) ∧
      c'.bytesSent = c.bytesSent + (paddedMessage memory m).length := by
  have hdvd : 16 ∣ (paddedMessage memory m).length :=
    length_paddedMessage memory hm ▸ dvd_paddedLength _
  obtain ⟨sock, hwrite, hsock⟩ := (hfc.write _).of_accepts (StcpSocket.accepts hfc haes start)
    hdvd hc.sent
  set c₁ := { c with sendMessageInProgress := true }
  set c₂ := { c₁ with
    sock := sock
    bytesSent := c.bytesSent + (paddedMessage memory m).length }
  have hwritten : writePadded fc (paddedMessage memory m) c₁ = .ok () c₂ :=
    Stateful.bind_of_ok (onSock_of_ok (c := c₁) hwrite)
  refine ⟨{ c₂ with sendMessageInProgress := false }, ?_, ⟨rfl, hsock⟩, rfl⟩
  refine (Stateful.get_bind _ c).trans ?_
  rw [if_neg (by rw [hc.idle]; exact Bool.false_ne_true)]
  refine (Stateful.modify_bind _ _ c).trans ?_
  exact (Stateful.bind_of_ok (Stateful.tryCatch_of_ok hwritten)).trans rfl

/-- The bytes that messages become. -/
def wire (messages : List ((Nat → UInt8) × Message)) : Bytes :=
  messages.flatMap fun p => paddedMessage p.1 p.2

theorem sendMessages_eq (hfc : fc.Documented) (haes : Inverse 16 aes.encode aes.decode paired)
    {start : aes.Decoder} :
    ∀ {messages : List ((Nat → UInt8) × Message)} {c : MessageOrientedConnection aes}
      {before : Bytes}, Sent paired start c before →
      (∀ p ∈ messages, p.2.data.length = p.2.size.toNat) →
      ∃ c', sendMessages fc messages c = .ok () c' ∧ Sent paired start c' (before ++ wire messages) ∧
        c'.bytesSent = c.bytesSent + (wire messages).length := by
  intro messages
  induction messages with
  | nil =>
    intro c before hc _
    exact ⟨c, rfl, by rwa [wire, List.flatMap_nil, List.append_nil], rfl⟩
  | cons p messages ih =>
    intro c before hc hmessages
    obtain ⟨c₁, hfirst, hc₁, hbytes₁⟩ :=
      sendMessage_eq hfc haes hc p.1 (hmessages p (List.mem_cons_self ..))
    obtain ⟨c', hothers, hc', hbytes⟩ :=
      ih hc₁ fun q hq => hmessages q (List.mem_cons_of_mem _ hq)
    refine ⟨c', (Stateful.bind_of_ok hfirst).trans hothers, ?_, ?_⟩
    · rwa [List.append_assoc] at hc'
    · rw [hbytes, hbytes₁, Nat.add_assoc, ← List.length_append]
      rfl

/-! ## Reading -/

/-- The receiver's buffer ends up with what follows the header, whatever was in it. -/
theorem assembled_eq {old first others : Bytes} {n : Nat} (hfirst : first.length = 8)
    (hn : others.length = n) :
    copyAt (copyAt (resize old (8 + n)) 0 first) 8 others = first ++ others := by
  have hlength : (resize old (8 + n)).length = first.length + others.length := by
    rw [length_resize, hfirst, hn]
  rw [← hfirst] at hlength ⊢
  exact copyAt_copyAt (by rw [hlength])

theorem readRemaining_eq (hfc : fc.Documented) (haes : Inverse 16 aes.encode aes.decode paired)
    {c : MessageOrientedConnection aes} (data : Bytes) {others after : Bytes}
    (hc : c.sock.Expects (others ++ after)) (hdvd : 16 ∣ others.length) :
    ∃ sock, StcpSocket.Expects sock after ∧
      readRemaining fc data others.length c = .ok (copyAt data 8 others) { c with
        sock := sock
        bytesReceived := c.bytesReceived + others.length } := by
  by_cases hnone : others.length = 0
  · obtain rfl := List.length_eq_zero_iff.1 hnone
    refine ⟨c.sock, hc, ?_⟩
    have hcopy : copyAt data 8 [] = data := by
      rw [copyAt, List.append_nil, List.length_nil, Nat.add_zero, List.take_append_drop]
    rw [readRemaining, if_pos hnone, hcopy]
    rfl
  · obtain ⟨sock, hread, hsock⟩ := (hfc.read _).of_serves (StcpSocket.serves hfc haes) hdvd
      (by rw [List.length_append]; omega) hc
    rw [List.take_left] at hread
    rw [List.drop_left] at hsock
    refine ⟨sock, hsock, ?_⟩
    rw [readRemaining, if_neg hnone]
    exact (Stateful.bind_of_ok (onSock_of_ok hread)).trans rfl

/-- A pass of the read loop takes the bytes of one message and hands that message over. -/
theorem readMessage_eq (hfc : fc.Documented) (haes : Inverse 16 aes.encode aes.decode paired)
    {c : MessageOrientedConnection aes} {memory : Nat → UInt8} {m : Message} {after : Bytes}
    (hc : c.sock.Expects (paddedMessage memory m ++ after)) (hsize : m.size ≤ maxMessageSize)
    (hm : m.data.length = m.size.toNat) (m₀ : Message) :
    ∃ sock, StcpSocket.Expects sock after ∧
      readMessage fc m₀ c = handOver m { c with
        sock := sock
        bytesReceived := c.bytesReceived + (paddedMessage memory m).length } := by
  obtain ⟨first, others, hpadded, hfirst, hothers, hdata⟩ := paddedMessage_eq memory hm
  have hbuffer : (m.bytes ++ first).length = 16 := by
    rw [List.length_append, hfirst]
    rfl
  have hremaining : (16 * ((m.size - 8 + 15) / 16)).toNat = others.length := by
    have := remaining_eq hsize
    omega
  rw [length_paddedMessage memory hm, ← hothers]
  rw [hpadded, List.append_assoc] at hc
  obtain ⟨sock₁, hread, hsock₁⟩ := (hfc.read _).of_serves (StcpSocket.serves hfc haes) 
    (dvd_refl 16) (by rw [List.length_append]; omega) hc
  rw [List.take_left' hbuffer] at hread
  rw [List.drop_left' hbuffer] at hsock₁
  set c₁ := { c with
    sock := sock₁
    bytesReceived := c.bytesReceived + 16 }
  obtain ⟨sock₂, hsock₂, hrest⟩ := readRemaining_eq (c := c₁) hfc haes
    (copyAt (resize m₀.data (8 + others.length)) 0 first) hsock₁
    (by have := dvd_paddedLength m.size.toNat; omega)
  rw [assembled_eq hfirst rfl] at hrest
  refine ⟨sock₂, hsock₂, ?_⟩
  have hheader : MessageHeader.ofBytes ((m.bytes ++ first).take sizeofMessageHeader) =
      m.toMessageHeader := by
    rw [List.take_left' (MessageHeader.length_bytes _), MessageHeader.ofBytes_bytes]
  refine (Stateful.bind_of_ok (onSock_of_ok hread)).trans ?_
  refine (Stateful.modify_bind _ _ _).trans ?_
  rw [hheader, if_pos hsize, hremaining, List.drop_left' (MessageHeader.length_bytes _)]
  refine (Stateful.bind_of_ok hrest).trans ?_
  have hfits : m.size.toNat ≤ (first ++ others).length := by
    unfold paddedLength sizeofMessageHeader at hothers
    rw [List.length_append]
    omega
  rw [resize_of_le hfits, ← hdata, ← Nat.add_assoc]

theorem readMessage_at_end (hfc : fc.Documented) (haes : Inverse 16 aes.encode aes.decode paired)
    {c : MessageOrientedConnection aes} (hc : c.sock.Expects []) (m₀ : Message) :
    ∃ sock, StcpSocket.Expects sock [] ∧
      readMessage fc m₀ c = .error .eof { c with sock := sock } := by
  obtain ⟨sock, hread, hsock⟩ := (hfc.read _).of_ends (StcpSocket.serves hfc haes) 
    (by omega) (dvd_refl 16) hc
  exact ⟨sock, hsock, Stateful.bind_of_error (onSock_of_error hread)⟩

/-- The client is not quitting and the delegate takes every message. -/
structure Undisturbed (c : MessageOrientedConnection aes) : Prop where
  runs : ∀ k, c.clientQuit k = false
  takes : ∀ k, c.answers k = none

/-- Where a receiver is among the messages it is sent: those it was told of and those it has read,
which is one more where the client quits. -/
structure Reached (messages : List ((Nat → UInt8) × Message)) (c c' : MessageOrientedConnection aes)
    (told read : Nat) : Prop where
  told_le : told ≤ read
  read_le : read ≤ messages.length
  expects : c'.sock.Expects (wire (messages.drop read))
  onMessage : c'.onMessage = c.onMessage ++ (messages.map Prod.snd).take told
  bytesReceived : c'.bytesReceived = c.bytesReceived + (wire (messages.take read)).length

namespace Reached

variable {messages : List ((Nat → UInt8) × Message)} {c c₁ c' c'' : MessageOrientedConnection aes}
  {p : (Nat → UInt8) × Message} {told read : Nat}

theorem start (h : c.sock.Expects (wire messages)) : Reached messages c c 0 0 where
  told_le := le_refl 0
  read_le := Nat.zero_le _
  expects := h
  onMessage := (List.append_nil _).symm
  bytesReceived := rfl

/-- What a connection is told and reads after the first message comes behind it. -/
theorem cons (h : Reached messages c₁ c' told read) (htold : c₁.onMessage = c.onMessage ++ [p.2])
    (hbytes : c₁.bytesReceived = c.bytesReceived + (paddedMessage p.1 p.2).length) :
    Reached (p :: messages) c c' (told + 1) (read + 1) where
  told_le := Nat.succ_le_succ h.told_le
  read_le := Nat.succ_le_succ h.read_le
  expects := h.expects
  onMessage := by
    rw [h.onMessage, htold, List.append_assoc]
    rfl
  bytesReceived := by
    rw [h.bytesReceived, hbytes, Nat.add_assoc, ← List.length_append]
    rfl

/-- A change of what is not the stream or the delegate's messages. -/
theorem congr (h : Reached messages c c' told read)
    (hsock : c''.sock.Expects (wire (messages.drop read)))
    (htold : c''.onMessage = c'.onMessage) (hbytes : c''.bytesReceived = c'.bytesReceived) :
    Reached messages c c'' told read where
  told_le := h.told_le
  read_le := h.read_le
  expects := hsock
  onMessage := htold.trans h.onMessage
  bytesReceived := hbytes.trans h.bytesReceived

end Reached

/-- Messages that can be sent: their size is that of their data, and at most the largest. -/
def Sendable (messages : List ((Nat → UInt8) × Message)) : Prop :=
  ∀ p ∈ messages, p.2.data.length = p.2.size.toNat ∧ p.2.size ≤ maxMessageSize

/-- A pass with the delegate told. -/
theorem readMessage_told (hfc : fc.Documented) (haes : Inverse 16 aes.encode aes.decode paired)
    {c : MessageOrientedConnection aes} {p : (Nat → UInt8) × Message}
    {messages : List ((Nat → UInt8) × Message)} (hc : c.sock.Expects (wire (p :: messages)))
    (hp : p.2.data.length = p.2.size.toNat ∧ p.2.size ≤ maxMessageSize) (m₀ : Message)
    (hruns : c.clientQuit 0 = false) :
    ∃ c₁, c₁.sock.Expects (wire messages) ∧ c₁.onMessage = c.onMessage ++ [p.2] ∧
      c₁.bytesReceived = c.bytesReceived + (paddedMessage p.1 p.2).length ∧
      (∀ k, c₁.clientQuit k = c.clientQuit (k + 1)) ∧ (∀ k, c₁.answers k = c.answers (k + 1)) ∧
      readMessage fc m₀ c = match c.answers 0 with
        | none => .ok (some p.2) c₁
        | some e => .error e c₁ := by
  obtain ⟨sock, hsock, hpass⟩ := readMessage_eq hfc haes hc hp.2 hp.1 m₀
  refine ⟨{ c with
    sock := sock
    bytesReceived := c.bytesReceived + (paddedMessage p.1 p.2).length
    clientQuit := fun k => c.clientQuit (k + 1)
    answers := fun k => c.answers (k + 1)
    onMessage := c.onMessage ++ [p.2] }, hsock, rfl, rfl, fun _ => rfl, fun _ => rfl, ?_⟩
  rw [hpass, handOver]
  refine (gClientQuit_bind _ _).trans ?_
  rw [hruns, if_neg Bool.false_ne_true]
  cases hanswer : c.answers 0 with
  | none => exact (Stateful.bind_of_ok (by rw [tellDelegate, hanswer])).trans rfl
  | some e => exact Stateful.bind_of_error (by rw [tellDelegate, hanswer])

/-- A pass in which the client quits: the message has been read and is dropped. -/
theorem readMessage_quit (hfc : fc.Documented) (haes : Inverse 16 aes.encode aes.decode paired)
    {c : MessageOrientedConnection aes} {p : (Nat → UInt8) × Message}
    {messages : List ((Nat → UInt8) × Message)} (hc : c.sock.Expects (wire (p :: messages)))
    (hp : p.2.data.length = p.2.size.toNat ∧ p.2.size ≤ maxMessageSize) (m₀ : Message)
    (hquits : c.clientQuit 0 = true) :
    ∃ c₁, Reached (p :: messages) c c₁ 0 1 ∧ readMessage fc m₀ c = .ok none c₁ := by
  obtain ⟨sock, hsock, hpass⟩ := readMessage_eq hfc haes hc hp.2 hp.1 m₀
  refine ⟨{ c with
    sock := sock
    bytesReceived := c.bytesReceived + (paddedMessage p.1 p.2).length
    clientQuit := fun k => c.clientQuit (k + 1) }, ⟨by omega, ?_, hsock, ?_, ?_⟩, ?_⟩
  · rw [List.length_cons]
    omega
  · exact (List.append_nil _).symm
  · rw [List.take_succ_cons, List.take_zero, wire, List.flatMap_singleton]
  · rw [hpass, handOver]
    refine (gClientQuit_bind _ _).trans ?_
    rw [hquits, if_pos rfl]
    rfl

/-- Whatever the client and the delegate do, the delegate is told of the first messages, in order, and
what is left of the stream is the messages not read. -/
theorem readMessages_reached (hfc : fc.Documented) (haes : Inverse 16 aes.encode aes.decode paired) :
    ∀ (passes : Nat) {messages : List ((Nat → UInt8) × Message)}
      {c : MessageOrientedConnection aes} (m₀ : Message), Sendable messages →
      c.sock.Expects (wire messages) →
      ∃ told read, Reached messages c (Stateful.final (readMessages fc passes m₀) c) told read := by
  intro passes
  induction passes with
  | zero => exact fun _ _ hc => ⟨0, 0, .start hc⟩
  | succ passes ih =>
    intro messages c m₀ hmessages hc
    cases messages with
    | nil =>
      obtain ⟨sock, hsock, hpass⟩ := readMessage_at_end hfc haes hc m₀
      refine ⟨0, 0, ?_⟩
      rw [readMessages, Stateful.final, Stateful.bind_of_error hpass]
      exact (Reached.start hc).congr hsock rfl rfl
    | cons p messages =>
      have hp := hmessages p (List.mem_cons_self ..)
      cases hquit : c.clientQuit 0 with
      | true =>
        obtain ⟨c₁, hc₁, hpass⟩ := readMessage_quit hfc haes hc hp m₀ hquit
        refine ⟨0, 1, ?_⟩
        rw [readMessages, Stateful.final, Stateful.bind_of_ok hpass]
        exact hc₁
      | false =>
        obtain ⟨c₁, hc₁, htold, hbytes, -, -, hpass⟩ := readMessage_told hfc haes hc hp m₀ hquit
        cases hanswer : c.answers 0 with
        | some e =>
          rw [hanswer] at hpass
          refine ⟨1, 1, ?_⟩
          rw [readMessages, Stateful.final, Stateful.bind_of_error hpass]
          exact (Reached.start hc₁).cons htold hbytes
        | none =>
          rw [hanswer] at hpass
          obtain ⟨told, read, hreached⟩ :=
            ih p.2 (fun q hq => hmessages q (List.mem_cons_of_mem _ hq)) hc₁
          refine ⟨told + 1, read + 1, ?_⟩
          rw [readMessages, Stateful.final, Stateful.bind_of_ok hpass]
          exact hreached.cons htold hbytes

/-- Undisturbed, every pass reads and hands over one message. -/
theorem readMessages_undisturbed (hfc : fc.Documented)
    (haes : Inverse 16 aes.encode aes.decode paired) :
    ∀ {messages : List ((Nat → UInt8) × Message)} {c : MessageOrientedConnection aes} (m₀ : Message),
      Sendable messages → c.sock.Expects (wire messages) → Undisturbed c →
      ∃ c' m', Reached messages c c' messages.length messages.length ∧ Undisturbed c' ∧
        ∀ more, readMessages fc (messages.length + more) m₀ c = readMessages fc more m' c' := by
  intro messages
  induction messages with
  | nil => exact fun {c} m₀ _ hc hquiet => ⟨c, m₀, .start hc, hquiet, fun more => by
      rw [List.length_nil, Nat.zero_add]⟩
  | cons p messages ih =>
    intro c m₀ hmessages hc hquiet
    have hp := hmessages p (List.mem_cons_self ..)
    obtain ⟨c₁, hc₁, htold, hbytes, hquit, hanswers, hpass⟩ :=
      readMessage_told hfc haes hc hp m₀ (hquiet.runs 0)
    rw [hquiet.takes 0] at hpass
    obtain ⟨c', m', hreached, hquiet', hmore⟩ := ih p.2
      (fun q hq => hmessages q (List.mem_cons_of_mem _ hq)) hc₁
      ⟨fun k => (hquit k).trans (hquiet.runs _), fun k => (hanswers k).trans (hquiet.takes _)⟩
    refine ⟨c', m', hreached.cons htold hbytes, hquiet', fun more => ?_⟩
    rw [List.length_cons, Nat.add_right_comm, readMessages, ← hmore more]
    exact Stateful.bind_of_ok hpass

/-! ## The read loop -/

/-- Closing the connection leaves the stream and what the delegate was told. -/
theorem connectionLost_final (rethrown : Option NetException) (c : MessageOrientedConnection aes) :
    (Stateful.final (connectionLost rethrown) c).sock = c.sock ∧
      (Stateful.final (connectionLost rethrown) c).onMessage = c.onMessage ∧
      (Stateful.final (connectionLost rethrown) c).bytesReceived = c.bytesReceived := by
  unfold connectionLost Stateful.final
  rw [gClientQuit_bind]
  cases c.clientQuit 0 with
  | true => exact ⟨rfl, rfl, rfl⟩
  | false => cases rethrown <;> exact ⟨rfl, rfl, rfl⟩

theorem Reached.connectionLost {messages : List ((Nat → UInt8) × Message)}
    {c c' : MessageOrientedConnection aes} {told read : Nat} (h : Reached messages c c' told read)
    (rethrown : Option NetException) :
    Reached messages c (Stateful.final (connectionLost rethrown) c') told read := by
  obtain ⟨hsock, htold, hbytes⟩ := connectionLost_final rethrown c'
  exact h.congr (hsock ▸ h.expects) htold hbytes

theorem readLoop_reached (hfc : fc.Documented) (haes : Inverse 16 aes.encode aes.decode paired)
    (passes : Nat) {messages : List ((Nat → UInt8) × Message)} {c : MessageOrientedConnection aes}
    (hmessages : Sendable messages) (hc : c.sock.Expects (wire messages)) :
    ∃ told read, Reached messages c (Stateful.final (readLoop fc passes) c) told read := by
  obtain ⟨told, read, hreached⟩ := readMessages_reached hfc haes passes ⟨⟨0, 0⟩, []⟩ hmessages hc
  refine ⟨told, read, ?_⟩
  rw [readLoop, Stateful.final_tryCatch]
  rw [Stateful.final] at hreached
  cases hresult : readMessages fc passes ⟨⟨0, 0⟩, []⟩ c with
  | ok a c' => rwa [hresult] at hreached
  | error e c' =>
    rw [hresult] at hreached
    cases e with
    | canceled => exact hreached
    | eof => exact hreached.connectionLost none
    | assertion condition => exact hreached.connectionLost (some _)
    | fcAssert condition => exact hreached.connectionLost (some _)
    | other what => exact hreached.connectionLost (some _)

/-- All messages handed over, in order, and all bytes consumed. -/
structure Delivered (messages : List Message) (sent : Bytes)
    (c c' : MessageOrientedConnection aes) : Prop where
  onMessage : c'.onMessage = c.onMessage ++ messages
  incoming : c'.sock.sock.incoming = []
  bytesReceived : c'.bytesReceived = c.bytesReceived + sent.length

theorem Reached.delivered {messages : List ((Nat → UInt8) × Message)} {sent : Bytes}
    {c c' : MessageOrientedConnection aes}
    (h : Reached messages c c' messages.length messages.length)
    (hsent : sent.length = (wire messages).length) :
    Delivered (messages.map Prod.snd) sent c c' where
  onMessage := by
    rw [h.onMessage, List.take_of_length_le (by rw [List.length_map])]
  incoming := by
    obtain ⟨d, hcarries⟩ := h.expects
    rw [List.drop_length] at hcarries
    exact List.length_eq_zero_iff.1 hcarries.length_eq
  bytesReceived := by rw [h.bytesReceived, List.take_length, hsent]

/-- Undisturbed, the loop has everything after as many passes as there are messages, and then waits
for more until the connection is closed. -/
theorem readLoop_undisturbed (hfc : fc.Documented) (haes : Inverse 16 aes.encode aes.decode paired)
    {messages : List ((Nat → UInt8) × Message)} {c : MessageOrientedConnection aes} {sent : Bytes}
    (hmessages : Sendable messages) (hc : c.sock.Expects (wire messages)) (hquiet : Undisturbed c)
    (hsent : sent.length = (wire messages).length) :
    (∃ c', readLoop fc messages.length c = .ok .reading c' ∧
      Delivered (messages.map Prod.snd) sent c c') ∧
    ∀ passes, messages.length < passes → ∃ c', readLoop fc passes c = .ok .returned c' ∧
      c'.onConnectionClosed = true ∧ Delivered (messages.map Prod.snd) sent c c' := by
  obtain ⟨c₁, m', hreached, hquiet₁, hmore⟩ :=
    readMessages_undisturbed hfc haes ⟨⟨0, 0⟩, []⟩ hmessages hc hquiet
  refine ⟨⟨c₁, Stateful.tryCatch_of_ok (hmore 0), hreached.delivered hsent⟩, ?_⟩
  intro passes hpasses
  obtain ⟨k, rfl⟩ : ∃ k, passes = messages.length + (k + 1) :=
    ⟨passes - messages.length - 1, by omega⟩
  have hends : c₁.sock.Expects [] := by
    have := hreached.expects
    rwa [List.drop_length] at this
  obtain ⟨sock, hsock, hpass⟩ := readMessage_at_end hfc haes hends m'
  have heof : readMessages fc (messages.length + (k + 1)) ⟨⟨0, 0⟩, []⟩ c =
      .error .eof { c₁ with sock := sock } := by
    rw [hmore]
    exact Stateful.bind_of_error hpass
  refine ⟨{ c₁ with
    sock := sock
    clientQuit := fun k => c₁.clientQuit (k + 1)
    onConnectionClosed := true }, ?_, rfl, ?_⟩
  · refine (Stateful.tryCatch_of_error heof).trans ?_
    refine (gClientQuit_bind _ _).trans ?_
    rw [hquiet₁.runs 0]
    rfl
  · refine Reached.delivered (hreached.congr ?_ rfl rfl) hsent
    rw [List.drop_length]
    exact hsock

/-- Messages sent one after the other are handed over as they were sent, however the stream delivers
them: by a read loop that nothing disturbs all of them, and by any read loop the first of them. -/
theorem read_loop_hands_over_what_was_sent (hfc : fc.Documented)
    (haes : Inverse 16 aes.encode aes.decode paired)
    {messages : List ((Nat → UInt8) × Message)} (hmessages : Sendable messages)
    {sender : MessageOrientedConnection aes} {start : aes.Decoder}
    (hidle : sender.sendMessageInProgress = false) (hnew : sender.sock.sock.sent = [])
    (hpaired : paired sender.sock.sendAes start) :
    ∃ sender', sendMessages fc messages sender = .ok () sender' ∧
      sender'.bytesSent = sender.bytesSent + sender'.sock.sock.sent.length ∧
      ∀ receiver : MessageOrientedConnection aes, receiver.sock.recvAes = start →
        receiver.sock.sock.incoming = sender'.sock.sock.sent →
        (∀ passes, ∃ told read,
          Reached messages receiver (Stateful.final (readLoop fc passes) receiver) told read) ∧
        (Undisturbed receiver →
          (∃ c, readLoop fc messages.length receiver = .ok .reading c ∧
            Delivered (messages.map Prod.snd) sender'.sock.sock.sent receiver c) ∧
          ∀ passes, messages.length < passes → ∃ c, readLoop fc passes receiver = .ok .returned c ∧
            c.onConnectionClosed = true ∧
            Delivered (messages.map Prod.snd) sender'.sock.sock.sent receiver c) := by
  have hsender : Sent paired start sender [] :=
    ⟨hidle, start, by rw [hnew]; exact .nil start, hpaired⟩
  obtain ⟨sender', hsend, hsent, hbytes⟩ :=
    sendMessages_eq hfc haes hsender fun p hp => (hmessages p hp).1
  obtain ⟨d, hcarries, -⟩ := hsent.sent
  rw [List.nil_append] at hcarries
  refine ⟨sender', hsend, by rw [hbytes, hcarries.length_eq], ?_⟩
  rintro receiver rfl hincoming
  have hexpects : receiver.sock.Expects (wire messages) := ⟨d, hincoming ▸ hcarries⟩
  exact ⟨fun passes => readLoop_reached hfc haes passes hmessages hexpects, fun hquiet =>
    readLoop_undisturbed hfc haes hmessages hexpects hquiet hcarries.length_eq⟩

end MessageOrientedConnection

/-! ## Streams that read and write in a loop, and a cipher that adds a key stream -/

/-- What is left is asked for until there is nothing left. -/
def readAll {σ : Type} (readsome : Nat → NetIo σ Bytes) (len : Nat) : NetIo σ Bytes := fun s =>
  if len = 0 then .ok [] s
  else match readsome len s with
    | .error e s' => .error e s'
    | .ok got s' =>
      if _ : 0 < got.length ∧ got.length ≤ len then
        ((got ++ ·) <$> readAll readsome (len - got.length)) s'
      else .ok got s'
termination_by len
decreasing_by omega

def writeAll {σ : Type} (writesome : Bytes → NetIo σ Nat) (data : Bytes) : NetIo σ Unit := fun s =>
  if data = [] then .ok () s
  else match writesome data s with
    | .error e s' => .error e s'
    | .ok n s' =>
      if _ : 0 < n ∧ n ≤ data.length then writeAll writesome (data.drop n) s' else .ok () s'
termination_by data.length
decreasing_by
  rw [List.length_drop]
  omega

def loopStreams : FcStreams where
  read := readAll
  write := writeAll

theorem loopStreams_documented : loopStreams.Documented where
  read readsome :=
    { nothing := fun s => by
        show readAll readsome 0 s = _
        rw [readAll, if_pos rfl]
      more := fun {len s got s₁} hlen hsome hpos hle => by
        show readAll readsome len s = _
        rw [readAll, if_neg hlen.ne', hsome]
        exact dif_pos ⟨hpos, hle⟩
      throws := fun {len s e s₁} hlen hsome => by
        show readAll readsome len s = _
        rw [readAll, if_neg hlen.ne', hsome] }
  write writesome :=
    { nothing := fun s => by
        show writeAll writesome [] s = _
        rw [writeAll, if_pos rfl]
      more := fun {data s n s₁} hdata hsome hpos hle => by
        show writeAll writesome data s = _
        rw [writeAll, if_neg hdata, hsome]
        exact dif_pos ⟨hpos, hle⟩ }

/-- Every byte is combined with the byte of a key stream at its position. -/
def combine (key : Nat → UInt8) (data : Bytes) (position : Nat) : Bytes × Nat :=
  (data.mapIdx fun i b => b ^^^ key (position + i), position + data.length)

def keyStreamAes (key : Nat → UInt8) : Aes where
  Encoder := Nat
  Decoder := Nat
  encode := combine key
  decode := combine key

theorem combine_append (key : Nat → UInt8) (x y : Bytes) (position : Nat) :
    combine key (x ++ y) position =
      ((combine key x position).1 ++ (combine key y (combine key x position).2).1,
        (combine key y (combine key x position).2).2) := by
  unfold combine
  rw [List.mapIdx_append, List.length_append, Nat.add_assoc]
  refine congrArg (fun l => (_ ++ l, _)) (congrArg (fun f => y.mapIdx f) ?_)
  funext i b
  rw [Nat.add_assoc, Nat.add_comm i]

theorem combine_combine (key : Nat → UInt8) (x : Bytes) (position : Nat) :
    combine key (combine key x position).1 position = (x, position + x.length) := by
  unfold combine
  rw [List.mapIdx_mapIdx, List.length_mapIdx]
  refine congrArg (fun l => (l, _)) ?_
  refine List.ext_getElem (by rw [List.length_mapIdx]) fun i h h' => ?_
  rw [List.getElem_mapIdx]
  show x[i] ^^^ key (position + i) ^^^ key (position + i) = x[i]
  rw [UInt8.xor_assoc, UInt8.xor_self, UInt8.xor_zero]

theorem keyStreamAes_inverse (key : Nat → UInt8) :
    Inverse 16 (keyStreamAes key).encode (keyStreamAes key).decode fun e d => e = d where
  encode_append y e _ := combine_append key _ y e
  decode_append y d _ := combine_append key _ y d
  length_encode e h := List.length_mapIdx.trans h
  decode_encode := by
    rintro x e d - rfl
    exact ⟨congrArg Prod.fst (combine_combine key x e),
      (congrArg Prod.snd (combine_combine key x e)).symm⟩

namespace MessageOrientedConnection

/-- A connection that has sent and read nothing yet, over a stream that delivers a byte at a time. -/
def fresh (key : Nat → UInt8) (incoming : Bytes) : MessageOrientedConnection (keyStreamAes key) where
  sock := ⟨⟨incoming, [], fun _ => 1, fun _ => 1⟩, (0 : Nat), (0 : Nat)⟩
  bytesReceived := 0
  bytesSent := 0
  sendMessageInProgress := false
  clientQuit := fun _ => false
  answers := fun _ => none
  onMessage := []
  onConnectionClosed := false

def threeMessages : List ((Nat → UInt8) × Message) :=
  [(fun _ => 7, ⟨⟨0, 5⟩, []⟩), (fun _ => 0, ⟨⟨9, 1⟩, List.replicate 9 3⟩),
    (fun _ => 1, ⟨⟨8, 2⟩, List.replicate 8 4⟩)]

theorem three_messages_handed_over : ∃ sender' c,
    sendMessages loopStreams threeMessages (fresh UInt8.ofNat []) = .ok () sender' ∧
      readLoop loopStreams 4 (fresh UInt8.ofNat sender'.sock.sock.sent) = .ok .returned c ∧
      c.onConnectionClosed = true ∧
      Delivered (threeMessages.map Prod.snd) sender'.sock.sock.sent
        (fresh UInt8.ofNat sender'.sock.sock.sent) c := by
  have hsendable : Sendable threeMessages := by
    unfold Sendable threeMessages maxMessageSize
    decide
  obtain ⟨sender', hsend, -, hreceived⟩ := read_loop_hands_over_what_was_sent
    loopStreams_documented (keyStreamAes_inverse UInt8.ofNat) hsendable
    (show (fresh UInt8.ofNat []).sendMessageInProgress = false from rfl) rfl rfl
  obtain ⟨-, hquiet⟩ := hreceived (fresh UInt8.ofNat sender'.sock.sock.sent) rfl rfl
  obtain ⟨-, hends⟩ := hquiet ⟨fun _ => rfl, fun _ => rfl⟩
  obtain ⟨c, hread, hclosed, hdelivered⟩ := hends 4 (by decide)
  exact ⟨sender', c, hsend, hread, hclosed, hdelivered⟩

end MessageOrientedConnection

end Achain.Net
