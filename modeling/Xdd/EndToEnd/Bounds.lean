import Xdd.EndToEnd.Framing
import Xdd.Ordering.Table
import Xdd.Xni.Framing

/-!
# Lengths and indices from the wire

A destination takes the length of the data and the number of the operation from the header that
it has received. It compares neither of them with anything: the data goes to the buffer of the
worker, whose size comes from the request size of the destination, and the number is used as an
index. The entries of the Target Offset Table are found modulo their number, those of the seek
list directly.
-/

namespace Xdd.EndToEnd

open Stream

/-- `xdd_init_io_buffers`, the size of the buffer of a worker; an `int`, so a size that does not fit
one is not allocated. -/
def ioBufferSize (pageSize xferSize : Nat) (xni : Bool) : Nat :=
  let pages := xferSize / pageSize
  let pages := if xferSize % pageSize = 0 then pages else pages + 1
  let pages := pages + 1
  let pages := if xni then pages + 1 else pages
  pages * pageSize

/-- What `xdd_throttle_before_io_op` uses of `xint_throttle`. -/
structure Throttle where
  throttle : ℚ
  /-- `XINT_THROTTLE_DELAY` -/
  delay : Bool

/-- What the code behind the receive uses of `target_data_t`. The seek list and the buffers of the
workers have been allocated. -/
structure Destination where
  cookie : Fin 16 → UInt8
  pageSize : Nat
  pageSize_pos : 0 < pageSize
  xferSize : Nat
  buffer_allocated : ioBufferSize pageSize xferSize false < 2 ^ 31
  targetOps : BitVec 64
  seeks_allocated : 0 ≤ CInt.signed 32 targetOps.toNat
  queueDepth : Nat
  queueDepth_pos : 0 < queueDepth
  throttle : Option Throttle

namespace Destination

variable (d : Destination)

/-- `seek_total_ops`, the length of the seek list -/
def seekTotalOps : Int := CInt.signed 32 d.targetOps.toNat

def totEntries : Nat := Ordering.totEntries d.queueDepth d.targetOps.toNat

/-- The buffer of a worker without the page of the header. -/
def capacity : Nat := ioBufferSize d.pageSize d.xferSize false - d.pageSize

/-- The buffer that is registered, without the page that is reserved. -/
def xniCapacity : Nat := ioBufferSize d.pageSize d.xferSize true - d.pageSize

/-- `xdd_throttle_before_io_op`: the entry of the seek list that it reads -/
def xddThrottleBeforeIoOp (taskOpNumber : Nat) : Option Nat :=
  match d.throttle with
  | none => none
  | some t => if t.throttle ≤ 0 then none else if t.delay then none else some taskOpNumber

/-- `xdd_worker_thread_wait_for_previous_io`: the entry of the table that it waits for -/
def xddWorkerThreadWaitForPreviousIo (taskOpNumber : Nat) : Option Nat :=
  if taskOpNumber = 0 then none else some (Ordering.waitSlot d.totEntries taskOpNumber)

/-- `xdd_worker_thread_release_next_io`: the entry of the table that it posts -/
def xddWorkerThreadReleaseNextIo (taskOpNumber : Nat) : Nat := taskOpNumber % d.totEntries

end Destination

/-- What a message says about itself. -/
inductive Announced where
  | plain (h : Header)
  /-- over XNI -/
  | xni (dataLength : BitVec 32)

/-- Whatever stream brings this message, what is stored of it fits the buffer, and its number is
an index wherever it is used as one. -/
def Bounded (d : Destination) : Announced → Prop
  | .plain h => ∀ (s : Incoming UInt8) (data : List UInt8) (rest : Incoming UInt8),
      h.magic = dataReady → xddE2eDestReceive d.cookie s = .message h data rest →
        data.length ≤ d.capacity ∧
          (∀ i ∈ d.xddThrottleBeforeIoOp h.sequenceNumber.toNat, (i : Int) < d.seekTotalOps) ∧
          (∀ i ∈ d.xddWorkerThreadWaitForPreviousIo h.sequenceNumber.toNat, i < d.totEntries) ∧
          d.xddWorkerThreadReleaseNextIo h.sequenceNumber.toNat < d.totEntries
  | .xni dataLength =>
      ∀ (s : Incoming UInt8) (targetOffset : BitVec 64) (data : List UInt8) (rest : Incoming UInt8),
        Xni.tcpReceiveTargetBuffer s = .ok targetOffset data rest →
          data.length = dataLength.toNat → data.length ≤ d.xniCapacity

/-- The request size of the destination in whole pages. -/
def Destination.wholePages (d : Destination) : Nat :=
  (d.xferSize + d.pageSize - 1) / d.pageSize * d.pageSize

/-- The operations are spread over time. -/
def Destination.Throttled (d : Destination) : Prop :=
  ∃ t ∈ d.throttle, 0 < t.throttle ∧ ¬ t.delay

/-- The length is one that the destination asks for itself, and so is the number if there is a
throttle. -/
def Fits (d : Destination) : Announced → Prop
  | .plain h => h.Accepted d.cookie → h.magic = dataReady → 0 < h.dataSize →
      h.dataSize ≤ d.wholePages ∧ (d.Throttled → h.sequenceNumber.toNat < d.seekTotalOps)
  | .xni dataLength => dataLength.toNat ≤ d.wholePages + d.pageSize

/-! ## Sizes of buffers -/

section

variable (d : Destination)

theorem ioBufferSize_eq (xni : Bool) :
    ioBufferSize d.pageSize d.xferSize xni =
      d.wholePages + (if xni then 2 else 1) * d.pageSize := by
  have hpages : (if d.xferSize % d.pageSize = 0 then d.xferSize / d.pageSize
      else d.xferSize / d.pageSize + 1) = (d.xferSize + d.pageSize - 1) / d.pageSize := by
    have hlt := Nat.mod_lt d.xferSize d.pageSize_pos
    have hsplit := Nat.div_add_mod d.xferSize d.pageSize
    split
    · next hzero =>
      have hsum : d.xferSize + d.pageSize - 1 =
          d.pageSize * (d.xferSize / d.pageSize) + (d.pageSize - 1) := by
        omega
      have hdiv : (d.pageSize - 1) / d.pageSize = 0 := Nat.div_eq_of_lt (by omega)
      rw [hsum, Nat.mul_add_div d.pageSize_pos, hdiv, Nat.add_zero]
    · next hrest =>
      have hsum : d.xferSize + d.pageSize - 1 =
          d.pageSize * (d.xferSize / d.pageSize + 1) + (d.xferSize % d.pageSize - 1) := by
        rw [Nat.mul_add, Nat.mul_one]
        omega
      have hdiv : (d.xferSize % d.pageSize - 1) / d.pageSize = 0 := Nat.div_eq_of_lt (by omega)
      rw [hsum, Nat.mul_add_div d.pageSize_pos, hdiv, Nat.add_zero]
  rw [ioBufferSize, Destination.wholePages, hpages]
  cases xni
  · simp [Nat.add_mul]
  · simp [Nat.add_mul]
    omega

theorem capacity_eq : d.capacity = d.wholePages := by
  simp [Destination.capacity, ioBufferSize_eq]

theorem xniCapacity_eq : d.xniCapacity = d.wholePages + d.pageSize := by
  rw [Destination.xniCapacity, ioBufferSize_eq]
  simp
  omega

theorem totEntries_pos : 0 < d.totEntries := by
  have hpos : 0 < (Ordering.Config.mk .serial d.queueDepth d.targetOps.toNat).entries :=
    Ordering.Config.entries_pos d.queueDepth_pos
  exact hpos

/-! ## Indices -/

/-- An entry of the table is found for every number. -/
theorem wait_lt (op i : Nat) (hi : i ∈ d.xddWorkerThreadWaitForPreviousIo op) :
    i < d.totEntries := by
  have hpos := totEntries_pos d
  unfold Destination.xddWorkerThreadWaitForPreviousIo at hi
  split at hi
  · cases hi
  · have hlt := Nat.mod_lt op hpos
    cases hi
    unfold Ordering.waitSlot
    split <;> omega

theorem release_lt (op : Nat) : d.xddWorkerThreadReleaseNextIo op < d.totEntries :=
  Nat.mod_lt op (totEntries_pos d)

/-- The seek list is read only under a throttle. -/
theorem mem_throttle_iff (op i : Nat) : i ∈ d.xddThrottleBeforeIoOp op ↔ d.Throttled ∧ i = op := by
  unfold Destination.xddThrottleBeforeIoOp Destination.Throttled
  cases d.throttle with
  | none => simp
  | some t =>
    by_cases hzero : t.throttle ≤ 0
    · simp [hzero, not_lt.mpr hzero]
    · by_cases hdelay : t.delay
      · simp [hzero, hdelay]
      · simp only [hzero, hdelay, if_false, Option.mem_def, Option.some.injEq, exists_eq_left',
          not_le.mp hzero, not_false_eq_true, true_and, and_self, Bool.false_eq_true]
        exact eq_comm

end

/-! ## Streams that bring a message -/

/-- A header that is accepted lets through as much data as it says. -/
theorem exists_receive {cookie : Fin 16 → UInt8} {h : Header} (haccepted : h.Accepted cookie)
    (hmagic : h.magic = dataReady) (hpos : 0 < h.dataSize) :
    ∃ s data rest, xddE2eDestReceive cookie s = .message h data rest ∧
      data.length = h.dataSize.toNat := by
  have hlength : (List.replicate h.dataSize.toNat (0 : UInt8)).length = h.dataSize.toNat :=
    List.length_replicate
  have hbytes := Incoming.bytes_ofBytes (h.encode ++ (List.replicate h.dataSize.toNat 0 ++ []))
    .pending
  obtain ⟨s', -, hreceive⟩ := receive_message haccepted hmagic hlength hbytes
  rw [if_neg (by rw [hlength]; omega)] at hreceive
  exact ⟨_, _, s', hreceive, hlength⟩

/-- XNI lets through as much as the header says. -/
theorem exists_receive_xni {dataLength : BitVec 32} (hpos : 0 < dataLength.toNat) :
    ∃ s targetOffset data rest, Xni.tcpReceiveTargetBuffer s = .ok targetOffset data rest ∧
      data.length = dataLength.toNat := by
  have hheader : (leBytes 8 0 ++ leBytes 4 dataLength.toNat).length = Xni.headerSize := by
    simp [Xni.headerSize]
  have hlength : (List.replicate dataLength.toNat (0 : UInt8)).length = dataLength.toNat :=
    List.length_replicate
  obtain ⟨s, hbytes⟩ : ∃ s : Incoming UInt8, s.bytes =
      (leBytes 8 0 ++ leBytes 4 dataLength.toNat) ++ List.replicate dataLength.toNat 0 :=
    ⟨.ofBytes _ .pending, Incoming.bytes_ofBytes _ _⟩
  have hle : Xni.headerSize ≤ s.bytes.length := by
    rw [hbytes, List.length_append, hheader]
    omega
  obtain ⟨s₁, hrecv₁, hs₁, -⟩ := recvAll_full Xni.headerSize_pos hle
  rw [hbytes, List.take_left' hheader] at hrecv₁
  rw [hbytes, List.drop_left' hheader] at hs₁
  have hdata : dataLength.toNat ≤ s₁.bytes.length := by rw [hs₁, hlength]
  obtain ⟨s₂, hrecv₂, -⟩ := recvAll_full hpos hdata
  have hdecode : leNat (((leBytes 8 0 ++ leBytes 4 dataLength.toNat).drop 8).take 4) =
      dataLength.toNat := by
    rw [List.drop_left' (length_leBytes 8 _), List.take_of_length_le (by simp), leNat_leBytes]
    exact Nat.mod_eq_of_lt dataLength.isLt
  refine ⟨s, BitVec.ofNat 64 (leNat ((leBytes 8 0 ++ leBytes 4 dataLength.toNat).take 8)),
    s₁.bytes.take dataLength.toNat, s₂, ?_, ?_⟩
  · rw [Xni.tcpReceiveTargetBuffer, hrecv₁]
    dsimp only
    rw [hdecode, hrecv₂]
  · rw [hs₁, List.length_take, hlength, Nat.min_self]

/-! ## When a message is bounded -/

/-- The code does no check of its own: what it stores and the indices it uses are in bounds
exactly if the message has a length and a number that suit the destination. -/
theorem bounded_iff_fits (d : Destination) (message : Announced) :
    Bounded d message ↔ Fits d message := by
  cases message with
  | plain h =>
    constructor
    · intro hbounded haccepted hmagic hpos
      obtain ⟨s, data, rest, hreceive, hlength⟩ := exists_receive haccepted hmagic hpos
      obtain ⟨hstored, hseek, -⟩ := hbounded s data rest hmagic hreceive
      rw [capacity_eq, hlength] at hstored
      refine ⟨by omega, ?_⟩
      intro hthrottled
      exact hseek _ ((mem_throttle_iff d _ _).mpr ⟨hthrottled, rfl⟩)
    · intro hfits s data rest hmagic hreceive
      obtain ⟨haccepted, hpos, hlength⟩ := length_of_receive hreceive hmagic
      obtain ⟨hle, hseek⟩ := hfits haccepted hmagic hpos
      refine ⟨?_, ?_, wait_lt d _, release_lt d _⟩
      · rw [capacity_eq, hlength]
        omega
      · intro i hi
        obtain ⟨hthrottled, rfl⟩ := (mem_throttle_iff d _ _).mp hi
        exact hseek hthrottled
  | xni dataLength =>
    constructor
    · intro hbounded
      by_cases hpos : 0 < dataLength.toNat
      · obtain ⟨s, targetOffset, data, rest, hreceive, hlength⟩ := exists_receive_xni hpos
        have hstored := hbounded s targetOffset data rest hreceive hlength
        rw [xniCapacity_eq, hlength] at hstored
        exact hstored
      · show dataLength.toNat ≤ _
        omega
    · intro hfits s targetOffset data rest _ hlength
      rw [xniCapacity_eq, hlength]
      exact hfits

/-- A source with a request size and a number of operations that are not larger than those of
the destination sends nothing else. -/
theorem fits_forData (d : Destination) (h : Header) (task : SourceTask)
    (hsize : task.xferSize.toNat ≤ d.xferSize)
    (hop : task.opNumber.toNat < d.seekTotalOps) :
    Fits d (.plain (h.forData d.cookie task)) := by
  intro _ _ _
  have hpages : d.xferSize ≤ d.wholePages := by
    rw [Destination.wholePages, Nat.mul_comm]
    have hdiv := Nat.div_add_mod (d.xferSize + d.pageSize - 1) d.pageSize
    have hmod := Nat.mod_lt (d.xferSize + d.pageSize - 1) d.pageSize_pos
    omega
  have hint : d.xferSize < 2 ^ 31 := by
    have hallocated := d.buffer_allocated
    rw [ioBufferSize_eq] at hallocated
    omega
  have hdata : (h.forData d.cookie task).dataSize = task.xferSize.toNat := by
    have htoInt : task.xferSize.toInt = task.xferSize.toNat :=
      BitVec.toInt_eq_toNat_of_lt (by omega)
    change CInt.signed 32 task.xferSize.toInt = _
    rw [htoInt, CInt.signed_of_fits (by omega) (by omega)]
  exact ⟨by omega, fun _ => hop⟩

/-! ## A source with a larger request size -/

theorem one_allocated : 0 ≤ CInt.signed 32 (1 : BitVec 64).toNat := by decide

/-- One request of a page. -/
def onePage : Destination where
  cookie := fun _ => 0
  pageSize := 2 ^ 12
  pageSize_pos := Nat.two_pow_pos 12
  xferSize := 2 ^ 12
  buffer_allocated := by decide
  targetOps := 1
  seeks_allocated := one_allocated
  queueDepth := 1
  queueDepth_pos := Nat.one_pos
  throttle := none

/-- A message of one byte more is accepted, and its last byte goes behind the buffer. -/
theorem stored_behind_buffer :
    (∃ s data rest, xddE2eDestReceive onePage.cookie s =
        .message { plainHeader with dataLength := 4097 } data rest ∧
      onePage.capacity < data.length) ∧
      ¬ Bounded onePage (.plain { plainHeader with dataLength := 4097 }) := by
  have hstored : ∃ s data rest, xddE2eDestReceive onePage.cookie s =
      .message { plainHeader with dataLength := 4097 } data rest ∧
        onePage.capacity < data.length := by
    have haccepted : Header.Accepted { plainHeader with dataLength := 4097 } onePage.cookie :=
      ⟨rfl, .inl rfl⟩
    obtain ⟨s, data, rest, hreceive, hlength⟩ := exists_receive haccepted rfl (by decide)
    refine ⟨s, data, rest, hreceive, ?_⟩
    rw [hlength]
    decide
  refine ⟨hstored, ?_⟩
  intro hbounded
  obtain ⟨s, data, rest, hreceive, hlt⟩ := hstored
  exact absurd (hbounded s data rest rfl hreceive).1 (Nat.not_le_of_lt hlt)

end Xdd.EndToEnd
