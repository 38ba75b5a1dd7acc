import Xdd.Library.CInt
import Xdd.Library.Stream

/-!
# Messages between the source and the destination

A message is a header and, unless it is the last one, the data of an operation. The source
sends both out of one buffer, in which the header lies directly in front of the data; the
destination receives the header into its own buffer, looks at it, and then receives the data.
Every call of `sendto` and `recvfrom` may transfer less than it was asked for.

The memory of a sender is a function of the distance from `e2e_hdrp`.
-/

namespace Xdd.EndToEnd

open Stream

/-- `MAXMIT_TCP` -/
def maxmitTcp : Nat := 2 ^ 28

theorem maxmitTcp_pos : 0 < maxmitTcp := by decide

/-- `xdd_e2e_header_t` -/
@[ext] structure Header where
  magic : BitVec 32
  cookie : Fin 16 → UInt8
  workerThreadNumber : BitVec 32
  sequenceNumber : BitVec 64
  sendTime : BitVec 64
  recvTime : BitVec 64
  byteOffset : BitVec 64
  dataLength : BitVec 64
deriving DecidableEq

/-- `XDD_E2E_DATA_READY` -/
def dataReady : BitVec 32 := 0xDADADADA#32

/-- `XDD_E2E_EOF` -/
def endOfFile : BitVec 32 := 0xE0F0E0F0#32

namespace Header

/-- `sizeof(xdd_e2e_header_t)` -/
def size : Nat := 64

/-- The structure in memory. -/
def encode (h : Header) : List UInt8 :=
  leBytes 4 h.magic.toNat ++ List.ofFn h.cookie ++ leBytes 4 h.workerThreadNumber.toNat ++
    leBytes 8 h.sequenceNumber.toNat ++ leBytes 8 h.sendTime.toNat ++
    leBytes 8 h.recvTime.toNat ++ leBytes 8 h.byteOffset.toNat ++ leBytes 8 h.dataLength.toNat

/-- A field of the structure. -/
def field (bytes : List UInt8) (offset length : Nat) : BitVec (8 * length) :=
  BitVec.ofNat _ (leNat ((bytes.drop offset).take length))

def decode (bytes : List UInt8) : Header where
  magic := field bytes 0 4
  cookie := fun i => (bytes.drop 4).getD i 0
  workerThreadNumber := field bytes 20 4
  sequenceNumber := field bytes 24 8
  sendTime := field bytes 32 8
  recvTime := field bytes 40 8
  byteOffset := field bytes 48 8
  dataLength := field bytes 56 8

@[simp] theorem length_encode (h : Header) : h.encode.length = size := by
  simp [encode, size]

theorem field_append (before after : List UInt8) (n x : Nat) {bytes : List UInt8} {offset : Nat}
    (hbytes : bytes = before ++ (leBytes n x ++ after)) (hoffset : before.length = offset) :
    field bytes offset n = BitVec.ofNat _ x := by
  have hpow : 256 ^ n = 2 ^ (8 * n) := by
    rw [pow_mul]
    norm_num
  rw [field, hbytes, ← hoffset, List.drop_left, List.take_left' (length_leBytes n x),
    leNat_leBytes]
  apply BitVec.eq_of_toNat_eq
  rw [BitVec.toNat_ofNat, BitVec.toNat_ofNat, hpow, Nat.mod_mod]

/-- The destination sees the fields that the source has put there. -/
theorem decode_encode (h : Header) : decode h.encode = h := by
  -- one field after the other, each behind the ones before it
  have hmagic : field h.encode 0 4 = h.magic :=
    (field_append [] _ 4 _ (by simp only [encode, List.append_assoc]; rfl) rfl).trans (by simp)
  have hcookie : ∀ i : Fin 16, (h.encode.drop 4).getD i 0 = h.cookie i := by
    intro i
    have hdrop : h.encode.drop 4 = List.ofFn h.cookie ++ h.encode.drop 20 := by
      simp only [encode, List.append_assoc]
      rw [List.drop_left' (length_leBytes 4 _), show 20 = 4 + 16 from rfl, ← List.drop_drop,
        List.drop_left' (length_leBytes 4 _), List.drop_left' (by simp)]
    rw [hdrop, List.getD_append _ _ _ _ (by simp), List.getD_eq_getElem _ _ (by simp),
      List.getElem_ofFn]
  have hworker : field h.encode 20 4 = h.workerThreadNumber :=
    (field_append (leBytes 4 h.magic.toNat ++ List.ofFn h.cookie) _ 4 h.workerThreadNumber.toNat
      (by simp only [encode, List.append_assoc]; rfl) (by simp)).trans (by simp)
  have hsequence : field h.encode 24 8 = h.sequenceNumber :=
    (field_append (leBytes 4 h.magic.toNat ++ List.ofFn h.cookie ++
      leBytes 4 h.workerThreadNumber.toNat) _ 8 h.sequenceNumber.toNat
      (by simp only [encode, List.append_assoc]; rfl) (by simp)).trans (by simp)
  have hsend : field h.encode 32 8 = h.sendTime :=
    (field_append (leBytes 4 h.magic.toNat ++ List.ofFn h.cookie ++
      leBytes 4 h.workerThreadNumber.toNat ++ leBytes 8 h.sequenceNumber.toNat) _ 8 h.sendTime.toNat
      (by simp only [encode, List.append_assoc]; rfl) (by simp)).trans (by simp)
  have hrecv : field h.encode 40 8 = h.recvTime :=
    (field_append (leBytes 4 h.magic.toNat ++ List.ofFn h.cookie ++
      leBytes 4 h.workerThreadNumber.toNat ++ leBytes 8 h.sequenceNumber.toNat ++
      leBytes 8 h.sendTime.toNat) _ 8 h.recvTime.toNat
      (by simp only [encode, List.append_assoc]; rfl) (by simp)).trans (by simp)
  have hoffset : field h.encode 48 8 = h.byteOffset :=
    (field_append (leBytes 4 h.magic.toNat ++ List.ofFn h.cookie ++
      leBytes 4 h.workerThreadNumber.toNat ++ leBytes 8 h.sequenceNumber.toNat ++
      leBytes 8 h.sendTime.toNat ++ leBytes 8 h.recvTime.toNat) _ 8 h.byteOffset.toNat
      (by simp only [encode, List.append_assoc]; rfl) (by simp)).trans (by simp)
  have hlength : field h.encode 56 8 = h.dataLength :=
    (field_append (leBytes 4 h.magic.toNat ++ List.ofFn h.cookie ++
      leBytes 4 h.workerThreadNumber.toNat ++ leBytes 8 h.sequenceNumber.toNat ++
      leBytes 8 h.sendTime.toNat ++ leBytes 8 h.recvTime.toNat ++ leBytes 8 h.byteOffset.toNat)
      [] 8 h.dataLength.toNat (by simp [encode]) (by simp)).trans (by simp)
  exact Header.ext hmagic (funext hcookie) hworker hsequence hsend hrecv hoffset hlength

end Header

/-! ## The source -/

/-- What the source uses of `xint_task_t`, and the number of the worker. -/
structure SourceTask where
  workerNumber : BitVec 32
  opNumber : BitVec 64
  byteOffset : BitVec 64
  xferSize : BitVec 64

/-- The header in front of data. -/
def Header.forData (h : Header) (cookie : Fin 16 → UInt8) (task : SourceTask) : Header :=
  { h with
    cookie := cookie
    workerThreadNumber := task.workerNumber
    sequenceNumber := task.opNumber
    byteOffset := task.byteOffset
    dataLength := task.xferSize }

/-- The header of the last message. -/
def Header.forEof (h : Header) (cookie : Fin 16 → UInt8) (task : SourceTask) : Header :=
  { h with
    workerThreadNumber := task.workerNumber
    sequenceNumber := task.opNumber + task.workerNumber.signExtend 64
    byteOffset := -1
    dataLength := 0
    magic := endOfFile
    cookie := cookie }

/-- The memory from `e2e_hdrp` on, with this header and this data behind it. -/
def buffer (h : Header) (data : Nat → UInt8) (address : Nat) : UInt8 :=
  if address < Header.size then h.encode.getD address 0 else data (address - Header.size)

/-- `wire` is a record of what has been sent. -/
structure SendState where
  bytesSent : Int
  bufp : Nat
  wire : List UInt8

/-- A loop that sends until `bytes_sent` reaches `size`; the counts are what `sendto` returns. -/
def sendWhile (size : Int) (send : SendState → Nat → SendState) :
    List Nat → SendState → Option SendState
  | [], s => if s.bytesSent < size then none else some s
  | count :: counts, s =>
    if s.bytesSent < size then sendWhile size send counts (send s count) else some s

/-- The body of the loop in `xdd_e2e_src_send`. -/
def srcSendCall (memory : Nat → UInt8) (s : SendState) (count : Nat) : SendState where
  wire := s.wire ++ slice memory s.bufp count
  bytesSent := s.bytesSent + count
  bufp := s.bufp + count

/-- The body of the loop in `xdd_e2e_eof_source_side`. -/
def eofSendCall (memory : Nat → UInt8) (s : SendState) (count : Nat) : SendState :=
  let bufp := s.bufp + s.bytesSent.toNat
  { wire := s.wire ++ slice memory bufp count
    bytesSent := s.bytesSent + count
    bufp := bufp }

/-- `e2e_xfer_size` for data of this length, which is an `int32_t` -/
def xferSize (length : BitVec 64) : Int := CInt.signed 32 (Header.size + length.toInt)

/-- `xdd_e2e_src_send`; what it has put on the wire if it returns 0 -/
def xddE2eSrcSend (cookie : Fin 16 → UInt8) (task : SourceTask) (h : Header)
    (data : Nat → UInt8) (counts : List Nat) : Option (List UInt8) :=
  let h := h.forData cookie task
  let size := xferSize h.dataLength
  match sendWhile size (srcSendCall (buffer h data)) counts ⟨0, 0, []⟩ with
  | some s => if s.bytesSent = size then some s.wire else none
  | none => none

/-- `xdd_e2e_eof_source_side` -/
def xddE2eEofSourceSide (cookie : Fin 16 → UInt8) (task : SourceTask) (h : Header)
    (data : Nat → UInt8) (counts : List Nat) : Option (List UInt8) :=
  let h := h.forEof cookie task
  let size : Int := Header.size
  match sendWhile size (eofSendCall (buffer h data)) counts ⟨0, 0, []⟩ with
  | some s => if s.bytesSent = size then some s.wire else none
  | none => none

/-! ## The destination -/

/-- What a call of `xdd_e2e_dest_receive` comes to on one connection. -/
inductive Reception where
  | message (h : Header) (data : List UInt8) (rest : Incoming UInt8)
  | error
  | pending

/-- The checks at the end of `xdd_e2e_dest_receive_header`. -/
def Header.Accepted (h : Header) (cookie : Fin 16 → UInt8) : Prop :=
  h.cookie = cookie ∧ (h.magic = dataReady ∨ h.magic = endOfFile)

instance (h : Header) (cookie : Fin 16 → UInt8) : Decidable (h.Accepted cookie) :=
  inferInstanceAs (Decidable (_ ∧ _))

/-- `e2e_data_size`, which is an `int32_t` -/
def Header.dataSize (h : Header) : Int := CInt.signed 32 h.dataLength.toInt

/-- `xdd_e2e_dest_receive`, when one connection is ready -/
def xddE2eDestReceive (cookie : Fin 16 → UInt8) (s : Incoming UInt8) : Reception :=
  match recvAll maxmitTcp Header.size s with
  | .ended .pending => .pending
  | .ended _ => .error
  | .full bytes s =>
    let h := Header.decode bytes
    if ¬ h.Accepted cookie then .error
    else if h.magic = dataReady then
      match recvAll maxmitTcp h.dataSize.toNat s with
      | .ended .pending => .pending
      | .ended _ => .error
      | .full data s => if data.length ≤ 0 then .error else .message h data s
    else .message h [] s

/-- With these counts of the calls of `sendto`, both kinds of messages go over the wire as they
are, and come out as they were with whatever pieces. -/
def Framed (length : BitVec 64) (dataCounts eofCounts : List Nat) : Prop :=
  ∀ (cookie : Fin 16 → UInt8) (task : SourceTask) (h : Header) (data : Nat → UInt8),
    task.xferSize = length → h.magic = dataReady →
      xddE2eSrcSend cookie task h data dataCounts =
          some ((h.forData cookie task).encode ++ slice data 0 length.toNat) ∧
        xddE2eEofSourceSide cookie task h data eofCounts = some (h.forEof cookie task).encode ∧
        ∀ (s : Incoming UInt8) (rest : List UInt8),
          (s.bytes = (h.forData cookie task).encode ++ slice data 0 length.toNat ++ rest →
            ∃ s', xddE2eDestReceive cookie s =
              .message (h.forData cookie task) (slice data 0 length.toNat) s' ∧
                s'.bytes = rest) ∧
          (s.bytes = (h.forEof cookie task).encode ++ rest →
            ∃ s', xddE2eDestReceive cookie s = .message (h.forEof cookie task) [] s' ∧
              s'.bytes = rest)

/-! ## Sending -/

theorem slice_buffer_header (h : Header) (data : Nat → UInt8) :
    slice (buffer h data) 0 Header.size = h.encode := by
  apply List.ext_getElem (by simp)
  intro i hi _
  rw [length_slice] at hi
  simp [slice, buffer, hi]

theorem slice_buffer_data (h : Header) (data : Nat → UInt8) (length : Nat) :
    slice (buffer h data) Header.size length = slice data 0 length := by
  simp [slice, buffer]

theorem slice_buffer (h : Header) (data : Nat → UInt8) (length : Nat) :
    slice (buffer h data) 0 (Header.size + length) = h.encode ++ slice data 0 length := by
  rw [← slice_append, slice_buffer_header, Nat.zero_add, slice_buffer_data]

/-- The pointer of `xdd_e2e_src_send` moves along with the count. -/
theorem sendWhile_srcSend (memory : Nat → UInt8) {limit missing : Nat} {counts : List Nat}
    (hcounts : Counts limit missing counts) (sent : Nat) (wire : List UInt8) :
    sendWhile (sent + missing : Nat) (srcSendCall memory) counts ⟨sent, sent, wire⟩ =
      some ⟨(sent + missing : Nat), sent + missing, wire ++ slice memory sent missing⟩ := by
  induction hcounts generalizing sent wire with
  | nil => simp [sendWhile, slice]
  | @cons missing count counts hpos hle hrest ih =>
    have hlt : (sent : Int) < (sent + missing : Nat) := by omega
    have hsum : sent + missing = sent + count + (missing - count) := by omega
    rw [sendWhile, if_pos hlt, srcSendCall]
    have hnext := ih (sent + count) (wire ++ slice memory sent count)
    rw [← hsum, List.append_assoc, slice_append, show count + (missing - count) = missing by omega]
      at hnext
    exact_mod_cast hnext

/-- After its second call `xdd_e2e_eof_source_side` is ahead of the count, and sends its last
byte from behind the header. -/
theorem eofSend_last (memory : Nat → UInt8) {limit missing : Nat} {counts : List Nat}
    (hcounts : Counts limit missing counts) (hmissing : 0 < missing) (sent : Nat) {bufp : Nat}
    (hbufp : 0 < bufp) (wire : List UInt8) :
    ∃ s address, sendWhile (sent + missing : Nat) (eofSendCall memory) counts ⟨sent, bufp, wire⟩ =
      some s ∧ s.wire.getLast? = some (memory address) ∧ sent + missing ≤ address := by
  induction hcounts generalizing sent bufp wire with
  | nil => omega
  | @cons missing count counts hpos hle hrest ih =>
    have hlt : (sent : Int) < (sent + missing : Nat) := by omega
    have hsum : sent + missing = sent + count + (missing - count) := by omega
    rw [sendWhile, if_pos hlt]
    have hsend : eofSendCall memory ⟨sent, bufp, wire⟩ count =
        ⟨(sent + count : Nat), bufp + sent, wire ++ slice memory (bufp + sent) count⟩ := by
      simp [eofSendCall]
    rw [hsend]
    by_cases hlast : missing - count = 0
    · rw [hlast] at hrest
      cases hrest with
      | nil =>
        refine ⟨⟨(sent + count : Nat), bufp + sent, wire ++ slice memory (bufp + sent) count⟩,
          bufp + sent + (count - 1), ?_, ?_, ?_⟩
        · rw [sendWhile, if_neg (by push_cast; omega)]
        · obtain ⟨n, rfl⟩ : ∃ n, count = n + 1 := ⟨count - 1, by omega⟩
          simp [slice, List.range_succ]
        · omega
      | cons hpos' hle' => omega
    · obtain ⟨s, address, hs, hbyte, haddress⟩ :=
        ih (by omega) (sent + count) (by omega : 0 < bufp + sent)
          (wire ++ slice memory (bufp + sent) count)
      rw [← hsum] at hs haddress
      exact ⟨s, address, hs, hbyte, haddress⟩

/-- One or two calls of `sendto` are fine. -/
theorem eofSourceSide_of_le {counts : List Nat} (hcounts : Counts maxmitTcp Header.size counts)
    (hle : counts.length ≤ 2) (cookie : Fin 16 → UInt8) (task : SourceTask) (h : Header)
    (data : Nat → UInt8) :
    xddE2eEofSourceSide cookie task h data counts = some (h.forEof cookie task).encode := by
  have hsum := hcounts.sum
  unfold xddE2eEofSourceSide
  dsimp only
  generalize h.forEof cookie task = eof
  rw [← slice_buffer_header eof data]
  generalize buffer eof data = memory
  have hstart : (0 : Int) < Header.size := by decide
  match counts with
  | [] => simp [Header.size] at hsum
  | [first] =>
    obtain rfl : first = Header.size := by simpa using hsum
    simp [sendWhile, eofSendCall, Header.size]
  | [first, second] =>
    have htwo : first + second = Header.size := by simpa using hsum
    have hslice : slice memory 0 first ++ slice memory first second =
        slice memory 0 Header.size := by
      rw [← htwo, ← slice_append, Nat.zero_add]
    have hsize : (first : Int) + second = Header.size := by exact_mod_cast htwo
    have hlt : (first : Int) < Header.size := by
      have hpos := hcounts.of_cons.2.2.of_cons.1
      omega
    rw [sendWhile, if_pos hstart, sendWhile, if_pos (by simpa [eofSendCall] using hlt), sendWhile,
      if_neg (by simp [eofSendCall, hsize])]
    simp [eofSendCall, hsize, hslice]
  | _ :: _ :: _ :: _ => simp at hle

/-- With a third call the last byte is not one of the header. -/
theorem le_of_eofSourceSide {counts : List Nat} (hcounts : Counts maxmitTcp Header.size counts)
    (cookie : Fin 16 → UInt8) (task : SourceTask) (h : Header)
    (hsent : xddE2eEofSourceSide cookie task h (fun _ => 255) counts =
      some (h.forEof cookie task).encode) : counts.length ≤ 2 := by
  by_contra hgt
  match counts with
  | [] => simp at hgt
  | [_] => simp at hgt
  | [_, _] => simp at hgt
  | first :: second :: third :: counts =>
    obtain ⟨hpos, hfirst, hcounts⟩ := hcounts.of_cons
    obtain ⟨hpos', hsecond, hcounts⟩ := hcounts.of_cons
    obtain ⟨hpos'', hthird, -⟩ := hcounts.of_cons
    have hlast : (h.forEof cookie task).encode.getLast? = some 0 := by
      have hlength : leBytes 8 (h.forEof cookie task).dataLength.toNat =
          [0, 0, 0, 0, 0, 0, 0, 0] := by
        simp [Header.forEof, leBytes]
      rw [Header.encode, hlength, List.getLast?_append]
      rfl
    unfold xddE2eEofSourceSide at hsent
    dsimp only at hsent
    generalize h.forEof cookie task = eof at hsent hlast
    obtain ⟨s, address, hs, hbyte, haddress⟩ := eofSend_last (buffer eof fun _ => 255) hcounts
      (by omega) (first + second) hpos
      (slice (buffer eof fun _ => 255) 0 first ++ slice (buffer eof fun _ => 255) first second)
    have hrun : sendWhile Header.size (eofSendCall (buffer eof fun _ => 255))
        (first :: second :: third :: counts) ⟨0, 0, []⟩ = some s := by
      have hstart : (0 : Int) < Header.size := by decide
      have hlt : (first : Int) < Header.size := by omega
      have hsum : first + second + (Header.size - first - second) = Header.size := by omega
      rw [hsum] at hs
      rw [sendWhile, if_pos hstart, sendWhile, if_pos (by simpa [eofSendCall] using hlt), ← hs]
      simp [eofSendCall]
    rw [hrun] at hsent
    dsimp only at hsent
    split at hsent
    · rw [Option.some.inj hsent, hlast] at hbyte
      have hbehind : buffer eof (fun _ => 255) address = 255 := by
        rw [buffer, if_neg (by omega)]
      rw [hbehind] at hbyte
      exact absurd hbyte (by decide)
    · cases hsent

/-- The size of a message with data, if it fits its type. -/
theorem xferSize_of_lt {length : BitVec 64} (hlt : Header.size + length.toNat < 2 ^ 31) :
    xferSize length = (Header.size + length.toNat : Nat) := by
  have hint : length.toInt = length.toNat := BitVec.toInt_eq_toNat_of_lt (by omega)
  rw [xferSize, hint, CInt.signed_of_fits]
  · exact Nat.cast_add _ _ |>.symm
  · omega
  · exact_mod_cast hlt

theorem xferSize_lt (length : BitVec 64) : xferSize length < 2 ^ 31 := by
  have hlt := Int.bmod_lt (x := Header.size + length.toInt) (by decide : 0 < 2 ^ 32)
  exact hlt

/-- What `xdd_e2e_src_send` has sent is as long as the size says. -/
theorem xddE2eSrcSend_eq {counts : List Nat} (task : SourceTask)
    (hcounts : Counts maxmitTcp (xferSize task.xferSize).toNat counts) (cookie : Fin 16 → UInt8)
    (h : Header) (data : Nat → UInt8) :
    xddE2eSrcSend cookie task h data counts =
      if 0 ≤ xferSize task.xferSize then
        some (slice (buffer (h.forData cookie task) data) 0 (xferSize task.xferSize).toNat)
      else none := by
  have hlength : (h.forData cookie task).dataLength = task.xferSize := rfl
  unfold xddE2eSrcSend
  dsimp only
  rw [hlength]
  by_cases hsize : 0 ≤ xferSize task.xferSize
  · obtain ⟨n, hn⟩ := Int.eq_ofNat_of_zero_le hsize
    rw [hn] at hcounts ⊢
    have hrun := sendWhile_srcSend (buffer (h.forData cookie task) data) hcounts 0 []
    simp only [Nat.zero_add, Int.toNat_natCast, List.nil_append, Nat.cast_zero] at hrun
    simp [hrun]
  · have hnil : counts = [] := by
      rw [Int.toNat_of_nonpos (by omega)] at hcounts
      cases hcounts with
      | nil => rfl
      | cons hpos hle => omega
    subst hnil
    have hneg : ¬ (0 : Int) < xferSize task.xferSize := by omega
    have hne : (0 : Int) ≠ xferSize task.xferSize := by omega
    simp [sendWhile, hneg, hne, hsize]

/-! ## Receiving -/

variable {cookie : Fin 16 → UInt8} {task : SourceTask} {h : Header} {s : Incoming UInt8}

theorem receive_header {bytes : List UInt8} (hbytes : s.bytes = h.encode ++ bytes) :
    ∃ rest, recvAll maxmitTcp Header.size s = .full h.encode rest ∧ rest.bytes = bytes := by
  have hle : Header.size ≤ s.bytes.length := by simp [hbytes]
  obtain ⟨rest, hrest, hdrop, -⟩ := recvAll_full maxmitTcp_pos hle
  refine ⟨rest, ?_, ?_⟩
  · rw [hrest, hbytes, List.take_left' h.length_encode]
  · rw [hdrop, hbytes, List.drop_left' h.length_encode]

theorem receive_eof {rest : List UInt8}
    (hbytes : s.bytes = (h.forEof cookie task).encode ++ rest) :
    ∃ s', xddE2eDestReceive cookie s = .message (h.forEof cookie task) [] s' ∧
      s'.bytes = rest := by
  obtain ⟨s', hrecv, hrest⟩ := receive_header hbytes
  refine ⟨s', ?_, hrest⟩
  have haccepted : (h.forEof cookie task).Accepted cookie := ⟨rfl, .inr rfl⟩
  have hmagic : (h.forEof cookie task).magic ≠ dataReady := by
    change endOfFile ≠ dataReady
    decide
  rw [xddE2eDestReceive, hrecv]
  dsimp only
  rw [Header.decode_encode, if_neg (not_not_intro haccepted), if_neg hmagic]

/-- A header with data behind it, as much as it says. -/
theorem receive_message (haccepted : h.Accepted cookie) (hmagic : h.magic = dataReady)
    {data rest : List UInt8} (hlength : data.length = h.dataSize.toNat)
    (hbytes : s.bytes = h.encode ++ (data ++ rest)) :
    ∃ s', s'.bytes = rest ∧ xddE2eDestReceive cookie s =
      if data.length ≤ 0 then .error else .message h data s' := by
  obtain ⟨s₁, hheader, hs₁⟩ := receive_header hbytes
  have hle : data.length ≤ s₁.bytes.length := by simp [hs₁]
  obtain ⟨s₂, hdata, hs₂, -⟩ := recvAll_full maxmitTcp_pos hle
  refine ⟨s₂, by rw [hs₂, hs₁, List.drop_left], ?_⟩
  rw [xddE2eDestReceive, hheader]
  dsimp only
  rw [Header.decode_encode, if_neg (not_not_intro haccepted), if_pos hmagic, ← hlength, hdata]
  dsimp only
  rw [hs₁, List.take_left]

theorem receive_data (hmagic : h.magic = dataReady) {data rest : List UInt8}
    (hlength : data.length = task.xferSize.toNat) (hlt : task.xferSize.toNat < 2 ^ 31)
    (hbytes : s.bytes = (h.forData cookie task).encode ++ (data ++ rest)) :
    ∃ s', s'.bytes = rest ∧ xddE2eDestReceive cookie s =
      if data.length ≤ 0 then .error else .message (h.forData cookie task) data s' := by
  have hsize : data.length = (h.forData cookie task).dataSize.toNat := by
    have hint : task.xferSize.toInt = task.xferSize.toNat :=
      BitVec.toInt_eq_toNat_of_lt (by omega)
    change _ = (CInt.signed 32 task.xferSize.toInt).toNat
    rw [hint, CInt.signed_of_fits (by omega) (by exact_mod_cast hlt), hlength, Int.toNat_natCast]
  have hready : (h.forData cookie task).magic = dataReady := hmagic
  exact receive_message ⟨rfl, .inl hready⟩ hready hsize hbytes

/-- The data of a message is as long as its header says. -/
theorem length_of_receive {data : List UInt8} {rest : Incoming UInt8}
    (hreceive : xddE2eDestReceive cookie s = .message h data rest) (hmagic : h.magic = dataReady) :
    h.Accepted cookie ∧ 0 < h.dataSize ∧ data.length = h.dataSize.toNat := by
  unfold xddE2eDestReceive at hreceive
  split at hreceive
  · cases hreceive
  · cases hreceive
  · next bytes s' hheader =>
    dsimp only at hreceive
    split at hreceive
    · cases hreceive
    · next haccepted =>
      split at hreceive
      · split at hreceive
        · cases hreceive
        · cases hreceive
        · next data' s'' hdata =>
          split at hreceive
          · cases hreceive
          · next hpos =>
            cases hreceive
            have hlength := length_of_recvAll maxmitTcp_pos hdata
            exact ⟨not_not.mp haccepted, by omega, hlength⟩
      · next hnot =>
        cases hreceive
        exact absurd hmagic hnot

/-! ## When messages survive -/

/-- A header and a task for data of a given length. -/
def plainHeader : Header := ⟨dataReady, fun _ => 0, 0, 0, 0, 0, 0, 0⟩

def plainTask (length : BitVec 64) : SourceTask := ⟨0, 0, 0, length⟩

/-- Messages survive exactly if there is data, the message fits an `int32_t`, and the last
message is sent in at most two calls. -/
theorem framed_iff {length : BitVec 64} {dataCounts eofCounts : List Nat}
    (hdata : Counts maxmitTcp (xferSize length).toNat dataCounts)
    (heof : Counts maxmitTcp Header.size eofCounts) :
    Framed length dataCounts eofCounts ↔
      0 < length.toNat ∧ Header.size + length.toNat < 2 ^ 31 ∧ eofCounts.length ≤ 2 := by
  constructor
  · intro hframed
    obtain ⟨hsent, heofSent, hreceive⟩ :=
      hframed (fun _ => 0) (plainTask length) plainHeader (fun _ => 255) rfl rfl
    have hlt : Header.size + length.toNat < 2 ^ 31 := by
      have heq := xddE2eSrcSend_eq (plainTask length) hdata (fun _ => 0) plainHeader fun _ => 255
      rw [hsent] at heq
      split at heq
      · have hsize := congrArg List.length (Option.some.inj heq)
        have hbound := xferSize_lt length
        simp only [List.length_append, Header.length_encode, length_slice] at hsize
        change Header.size + length.toNat = (xferSize length).toNat at hsize
        omega
      · cases heq
    refine ⟨?_, hlt, le_of_eofSourceSide heof _ _ _ heofSent⟩
    by_contra hzero
    -- a message without data is an error at the destination
    have hnil : slice (fun _ => (255 : UInt8)) 0 length.toNat = [] := by
      rw [Nat.eq_zero_of_not_pos hzero]
      rfl
    rw [hnil] at hreceive
    have hbytes : (Incoming.ofBytes (plainHeader.forData (fun _ => 0) (plainTask length)).encode
        .pending).bytes =
          (plainHeader.forData (fun _ => 0) (plainTask length)).encode ++ ([] ++ []) := by
      simp
    obtain ⟨s', hmessage, -⟩ := (hreceive _ []).1 hbytes
    have hlength : ([] : List UInt8).length = (plainTask length).xferSize.toNat :=
      (Nat.eq_zero_of_not_pos hzero).symm
    have hsmall : (plainTask length).xferSize.toNat < 2 ^ 31 := by
      change length.toNat < _
      omega
    obtain ⟨s'', -, herror⟩ := receive_data rfl hlength hsmall hbytes
    rw [herror] at hmessage
    simp at hmessage
  · rintro ⟨hpos, hlt, hle⟩ cookie task h data rfl hmagic
    refine ⟨?_, eofSourceSide_of_le heof hle cookie task h data, ?_⟩
    · rw [xddE2eSrcSend_eq task hdata, xferSize_of_lt hlt, if_pos (Int.natCast_nonneg _),
        Int.toNat_natCast, slice_buffer]
    · intro s rest
      refine ⟨?_, receive_eof⟩
      intro hbytes
      rw [List.append_assoc] at hbytes
      obtain ⟨s', hrest, hmessage⟩ :=
        receive_data hmagic (length_slice data 0 _) (by omega) hbytes
      rw [if_neg (by rw [length_slice]; omega)] at hmessage
      exact ⟨s', hmessage, hrest⟩

/-- A message of two bytes in pieces, and the last message in two. -/
theorem framed_twoBytes : Framed 2 [1, 63, 2] [10, 54] := by
  have hdata : Counts maxmitTcp (xferSize 2).toNat [1, 63, 2] :=
    .cons (by decide) (by decide)
      (.cons (by decide) (by decide) (.cons (by decide) (by decide) .nil))
  have heof : Counts maxmitTcp Header.size [10, 54] :=
    .cons (by decide) (by decide) (.cons (by decide) (by decide) .nil)
  exact (framed_iff hdata heof).mpr (by decide)

/-- The last message in three pieces: the third one comes from the wrong place. -/
theorem eof_in_three_calls : Counts maxmitTcp Header.size [1, 1, 62] ∧
    ∃ (task : SourceTask) (h : Header) (data : Nat → UInt8),
      xddE2eEofSourceSide (fun _ => 0) task h data [1, 1, 62] ≠
        some (h.forEof (fun _ => 0) task).encode := by
  have heof : Counts maxmitTcp Header.size [1, 1, 62] :=
    .cons (by decide) (by decide)
      (.cons (by decide) (by decide) (.cons (by decide) (by decide) .nil))
  refine ⟨heof, plainTask 2, plainHeader, fun _ => 255, ?_⟩
  intro hsent
  exact absurd (le_of_eofSourceSide heof _ _ _ hsent) (by decide)

end Xdd.EndToEnd
