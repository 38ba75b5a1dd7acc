import Xdd.Library.Stream

/-!
# Messages on a socket of XNI

The sender puts the offset and the length in front of the data and sends both in a loop. The
receiver reads the header in one loop and the data in another one. If the peer closes the
connection in the first loop the receiver takes it for the end of the transfer, and in the
second one for an error.
-/

namespace Xdd.Xni

open Stream

/-- `TCP_DATA_MESSAGE_HEADER_SIZE` -/
def headerSize : Nat := 12

/-- What `tcp_send_target_buffer` sends of a target buffer; `data_length` is an `int` and at
least 1. -/
structure Message where
  targetOffset : BitVec 64
  data : List UInt8
  data_pos : 0 < data.length
  data_lt : data.length < 2 ^ 31

namespace Message

/-- The header that `tcp_send_target_buffer` encodes. -/
def header (m : Message) : List UInt8 :=
  leBytes 8 m.targetOffset.toNat ++ leBytes 4 m.data.length

def encode (m : Message) : List UInt8 := m.header ++ m.data

@[simp] theorem length_header (m : Message) : m.header.length = headerSize := by
  simp [header, headerSize]

@[simp] theorem length_encode (m : Message) : m.encode.length = headerSize + m.data.length := by
  simp [encode]

end Message

/-! ## The sender -/

/-- What a call of `send` returns. -/
inductive SendResult where
  | sent (count : Nat)
  /-- -1, with `EINTR` -/
  | interrupted
  /-- -1, with another error -/
  | failed
deriving DecidableEq, Repr

/-- The loop of `tcp_send_target_buffer` over the memory from `tb->header` on; `none` if it
returns `XNI_ERR` or has not returned. -/
def sendLoop (memory : Nat → UInt8) (total : Nat) :
    List SendResult → Nat → List UInt8 → Option (List UInt8)
  | results, sent, wire =>
    if sent < total then
      match results with
      | [] => none
      | .sent count :: rest =>
        sendLoop memory total rest (sent + count) (wire ++ slice memory sent count)
      | .interrupted :: rest => sendLoop memory total rest sent wire
      | .failed :: _ => none
    else some wire

/-- No call sends more than it was asked for. -/
def Sensible (total : Nat) : List SendResult → Nat → Prop
  | [], _ => True
  | .sent count :: rest, sent => sent + count ≤ total ∧ Sensible total rest (sent + count)
  | _ :: rest, sent => Sensible total rest sent

/-- However the message is cut up, what goes over the wire is the memory in order. -/
theorem sendLoop_wire {memory : Nat → UInt8} {total : Nat} {results : List SendResult}
    {sent : Nat} {wire out : List UInt8} (hsensible : Sensible total results sent)
    (hsent : sent ≤ total) (h : sendLoop memory total results sent wire = some out) :
    out = wire ++ slice memory sent (total - sent) := by
  induction results generalizing sent wire with
  | nil =>
    unfold sendLoop at h
    split at h
    · cases h
    · next hdone =>
      cases h
      simp [slice, Nat.sub_eq_zero_of_le (Nat.le_of_not_lt hdone)]
  | cons result rest ih =>
    unfold sendLoop at h
    split at h
    · cases result with
      | sent count =>
        obtain ⟨hle, hrest⟩ := hsensible
        rw [ih hrest hle h, List.append_assoc, slice_append,
          show count + (total - (sent + count)) = total - sent by omega]
      | interrupted => exact ih hsensible hsent h
      | failed => cases h
    · next hdone =>
      cases h
      simp [slice, Nat.sub_eq_zero_of_le (Nat.le_of_not_lt hdone)]

/-- The memory from `tb->header` on. -/
def targetBuffer (m : Message) (behind : Nat → UInt8) (address : Nat) : UInt8 :=
  m.encode.getD address (behind address)

/-- `tcp_send_target_buffer` with these results of `send` -/
def tcpSendTargetBuffer (m : Message) (behind : Nat → UInt8) (results : List SendResult) :
    Option (List UInt8) :=
  sendLoop (targetBuffer m behind) (headerSize + m.data.length) results 0 []

theorem tcpSendTargetBuffer_wire {m : Message} {behind : Nat → UInt8}
    {results : List SendResult} {out : List UInt8}
    (hsensible : Sensible (headerSize + m.data.length) results 0)
    (h : tcpSendTargetBuffer m behind results = some out) : out = m.encode := by
  rw [sendLoop_wire hsensible (Nat.zero_le _) h, List.nil_append, Nat.sub_zero]
  apply List.ext_getElem (by simp)
  intro i hi _
  rw [length_slice, ← m.length_encode] at hi
  simp [slice, targetBuffer, List.getElem?_eq_getElem hi]

/-! ## The receiver -/

/-- What a call of `tcp_receive_target_buffer` on one socket comes to. -/
inductive Received where
  /-- `XNI_OK` -/
  | ok (targetOffset : BitVec 64) (data : List UInt8) (rest : Incoming UInt8)
  /-- `XNI_EOF` -/
  | eof
  /-- `XNI_ERR` -/
  | err
  | pending

/-- `tcp_receive_target_buffer`, once the socket is ready -/
def tcpReceiveTargetBuffer (s : Incoming UInt8) : Received :=
  match recvAll headerSize headerSize s with
  | .ended .closed => .eof
  | .ended .failed => .err
  | .ended .pending => .pending
  | .full header s =>
    let targetOffset := BitVec.ofNat 64 (leNat (header.take 8))
    let dataLength := leNat ((header.drop 8).take 4)
    match recvAll dataLength dataLength s with
    | .ended .closed => .err
    | .ended .failed => .err
    | .ended .pending => .pending
    | .full data s => .ok targetOffset data s

/-- The two codes other than `XNI_OK`. -/
inductive Code where
  | eof
  | err
deriving DecidableEq, Repr

/-- Calls on the socket until one of them does not return `XNI_OK`, at most this many. -/
def receiveCalls : Nat → Incoming UInt8 → List (BitVec 64 × List UInt8) × Option Code
  | 0, _ => ([], none)
  | n + 1, s =>
    match tcpReceiveTargetBuffer s with
    | .ok targetOffset data s =>
      ((targetOffset, data) :: (receiveCalls n s).1, (receiveCalls n s).2)
    | .eof => ([], some .eof)
    | .err => ([], some .err)
    | .pending => ([], none)

/-! ## What arrives of a stream that is cut off -/

def wire (messages : List Message) : List UInt8 := messages.flatMap Message.encode

/-- The messages that are whole within the first `cut` bytes, and how many bytes are left. -/
def arrived : List Message → Nat → List Message × Nat
  | [], _ => ([], 0)
  | m :: messages, cut =>
    if m.encode.length ≤ cut then
      (m :: (arrived messages (cut - m.encode.length)).1,
        (arrived messages (cut - m.encode.length)).2)
    else ([], cut)

/-- If the peer closes after `cut` bytes, the calls return the messages that have arrived whole,
and then `XNI_EOF` at the end of a message and `XNI_ERR` elsewhere. -/
def Framed (messages : List Message) (cut : Nat) : Prop :=
  ∀ s : Incoming UInt8, s.bytes = (wire messages).take cut → s.ending = .closed →
    ∀ n, (arrived messages cut).1.length < n →
      receiveCalls n s =
        ((arrived messages cut).1.map fun m => (m.targetOffset, m.data),
          some (if (arrived messages cut).2 = 0 then .eof else .err))

/-! ## One call -/

variable {s : Incoming UInt8} {m : Message}

theorem headerSize_pos : 0 < headerSize := by decide

theorem decode_targetOffset (m : Message) :
    BitVec.ofNat 64 (leNat (m.header.take 8)) = m.targetOffset := by
  rw [Message.header, List.take_left' (length_leBytes 8 _), leNat_leBytes,
    show 256 ^ 8 = 2 ^ 64 by norm_num, Nat.mod_eq_of_lt m.targetOffset.isLt, BitVec.ofNat_toNat,
    BitVec.setWidth_eq]

theorem decode_dataLength (m : Message) : leNat ((m.header.drop 8).take 4) = m.data.length := by
  have hlt := m.data_lt
  rw [Message.header, List.drop_left' (length_leBytes 8 _), List.take_of_length_le (by simp),
    leNat_leBytes, Nat.mod_eq_of_lt (by omega)]

theorem receive_whole {bytes : List UInt8} (hbytes : s.bytes = m.encode ++ bytes) :
    ∃ rest, tcpReceiveTargetBuffer s = .ok m.targetOffset m.data rest ∧ rest.bytes = bytes ∧
      rest.ending = s.ending := by
  rw [Message.encode, List.append_assoc] at hbytes
  have hheader : headerSize ≤ s.bytes.length := by simp [hbytes]
  obtain ⟨s₁, hrecv₁, hbytes₁, hending₁⟩ := recvAll_full headerSize_pos hheader
  rw [hbytes, List.take_left' m.length_header] at hrecv₁
  rw [hbytes, List.drop_left' m.length_header] at hbytes₁
  have hdata : m.data.length ≤ s₁.bytes.length := by simp [hbytes₁]
  obtain ⟨s₂, hrecv₂, hbytes₂, hending₂⟩ := recvAll_full m.data_pos hdata
  rw [hbytes₁, List.take_left] at hrecv₂
  rw [hbytes₁, List.drop_left] at hbytes₂
  refine ⟨s₂, ?_, hbytes₂, hending₂.trans hending₁⟩
  rw [tcpReceiveTargetBuffer, hrecv₁]
  dsimp only
  rw [decode_targetOffset, decode_dataLength, hrecv₂]

/-- The stream ends within a header, or at its start. -/
theorem receive_no_header (hlt : s.bytes.length < headerSize) (hclosed : s.ending = .closed) :
    tcpReceiveTargetBuffer s = .eof := by
  rw [tcpReceiveTargetBuffer, recvAll_ended headerSize_pos hlt, hclosed]

/-- The stream ends within the data of a message, or directly in front of it. -/
theorem receive_no_data {cut : Nat} (hbytes : s.bytes = m.encode.take cut)
    (hheader : headerSize ≤ cut) (hcut : cut < m.encode.length) (hclosed : s.ending = .closed) :
    tcpReceiveTargetBuffer s = .err := by
  have hlength : s.bytes.length = cut := by
    rw [hbytes, List.length_take]
    omega
  have hle : headerSize ≤ s.bytes.length := hheader.trans hlength.ge
  obtain ⟨s₁, hrecv₁, hbytes₁, hending₁⟩ := recvAll_full headerSize_pos hle
  have htake : s.bytes.take headerSize = m.header := by
    rw [hbytes, List.take_take, Nat.min_eq_left hheader, Message.encode,
      List.take_left' m.length_header]
  have hshort : s₁.bytes.length < m.data.length := by
    rw [m.length_encode] at hcut
    rw [hbytes₁, List.length_drop, hlength]
    omega
  rw [htake] at hrecv₁
  rw [tcpReceiveTargetBuffer, hrecv₁]
  dsimp only
  rw [decode_dataLength, recvAll_ended m.data_pos hshort, hending₁, hclosed]

/-! ## All calls -/

theorem wire_cons (m : Message) (messages : List Message) :
    wire (m :: messages) = m.encode ++ wire messages := rfl

/-- What the calls really return. -/
theorem receiveCalls_eq (messages : List Message) {cut : Nat}
    (hbytes : s.bytes = (wire messages).take cut) (hclosed : s.ending = .closed) {n : Nat}
    (hn : (arrived messages cut).1.length < n) :
    receiveCalls n s =
      ((arrived messages cut).1.map fun m => (m.targetOffset, m.data),
        some (if (arrived messages cut).2 < headerSize then .eof else .err)) := by
  induction messages generalizing cut s n with
  | nil =>
    obtain ⟨n, rfl⟩ : ∃ k, n = k + 1 := ⟨n - 1, by omega⟩
    have hempty : s.bytes.length < headerSize := by
      simp [hbytes, wire, headerSize]
    simp [receiveCalls, receive_no_header hempty hclosed, arrived, headerSize]
  | cons m messages ih =>
    obtain ⟨n, rfl⟩ : ∃ k, n = k + 1 := ⟨n - 1, by omega⟩
    rw [wire_cons] at hbytes
    by_cases hwhole : m.encode.length ≤ cut
    · rw [List.take_append, List.take_of_length_le hwhole] at hbytes
      obtain ⟨rest, hreceive, hrest, hending⟩ := receive_whole hbytes
      rw [arrived, if_pos hwhole] at hn ⊢
      have hcalls := ih hrest (hending.trans hclosed) (n := n) (by simpa using hn)
      rw [receiveCalls, hreceive]
      simp [hcalls]
    · have hcut := Nat.lt_of_not_le hwhole
      rw [List.take_append_of_le_length hcut.le] at hbytes
      rw [arrived, if_neg hwhole]
      by_cases hheader : cut < headerSize
      · have hshort : s.bytes.length < headerSize := by
          rw [hbytes, List.length_take]
          omega
        simp [receiveCalls, receive_no_header hshort hclosed, hheader]
      · simp [receiveCalls, receive_no_data hbytes (Nat.le_of_not_lt hheader) hcut hclosed, hheader]

/-- The receiver is right exactly if the stream does not end within a header. -/
theorem framed_iff_not_in_header (messages : List Message) (cut : Nat) :
    Framed messages cut ↔
      ¬ (0 < (arrived messages cut).2 ∧ (arrived messages cut).2 < headerSize) := by
  constructor
  · rintro hframed ⟨hpos, hlt⟩
    have hbytes := Incoming.bytes_ofBytes ((wire messages).take cut) .closed
    have hclaim := hframed _ hbytes rfl _ (Nat.lt_succ_self _)
    rw [receiveCalls_eq messages hbytes rfl (Nat.lt_succ_self _), if_pos hlt, if_neg hpos.ne']
      at hclaim
    simp at hclaim
  · intro hnot s hbytes hclosed n hn
    rw [receiveCalls_eq messages hbytes hclosed hn]
    by_cases hzero : (arrived messages cut).2 = 0
    · rw [if_pos hzero, if_pos (by rw [hzero]; exact headerSize_pos)]
    · rw [if_neg hzero, if_neg fun hlt => hnot ⟨Nat.pos_of_ne_zero hzero, hlt⟩]

/-- A message of one byte. -/
def oneByte : Message := ⟨0, [7], Nat.one_pos, by decide⟩

/-- The stream ends after the first byte of a message, and the receiver reports a clean end. -/
theorem truncated_taken_for_end :
    receiveCalls 1 (.ofBytes ((wire [oneByte]).take 1) .closed) = ([], some .eof) ∧
      ¬ Framed [oneByte] 1 := by
  have hcalls : receiveCalls 1 (.ofBytes ((wire [oneByte]).take 1) .closed) = ([], some .eof) :=
    receiveCalls_eq [oneByte] (Incoming.bytes_ofBytes _ _) rfl (by decide)
  refine ⟨hcalls, ?_⟩
  intro hframed
  have hclaim := hframed _ (Incoming.bytes_ofBytes _ _) rfl 1 (by decide)
  rw [hcalls] at hclaim
  exact absurd hclaim (by decide)

end Xdd.Xni
