import Xdd.Library.CInt

/-!
# Target data and the size of a pass

The part of the Target Data that the planning code, the seek list and the pass
loop read and write. Every arithmetic result is reduced to the width of the C
field that receives it. The fields keep the source's names without their `td_`,
`tc_` and `seek_` marks.
-/

namespace Xdd

/-- Results are stored in these types. -/
def int32 (x : Int) : Int := CInt.signed 32 x
def int64 (x : Int) : Int := CInt.signed 64 x
def uint64 (x : Int) : Int := CInt.unsigned 64 x

theorem int32_of_fits {x : Int} (hlow : -2 ^ 31 ≤ x) (hhigh : x < 2 ^ 31) : int32 x = x :=
  CInt.signed_of_fits (w := 31) (by omega) (by omega)

theorem int64_of_fits {x : Int} (hlow : -2 ^ 63 ≤ x) (hhigh : x < 2 ^ 63) : int64 x = x :=
  CInt.signed_of_fits (w := 63) (by omega) (by omega)

theorem uint64_of_fits {x : Int} (hlow : 0 ≤ x) (hhigh : x < 2 ^ 64) : uint64 x = x :=
  CInt.unsigned_of_fits hlow (by omega)

namespace Target

/-- Ways in which the modelled code can go wrong instead of returning. -/
inductive Fault where
  /-- an `assert` that fails and aborts the process -/
  | assertion
  | divideByZero
  | outOfMemory
  | seekOutOfBounds
  | outOfFuel
deriving DecidableEq, Repr

/-- The operation of a seek entry: `SO_OP_NOOP`, `SO_OP_READ` or `SO_OP_WRITE`, or the
zero of an entry that was never filled in. -/
inductive SeekOperation where
  | unset
  | noop
  | read
  | write
deriving DecidableEq, Repr

/-- One entry of the seek list. -/
structure SeekEntry where
  operation : SeekOperation
  reqsize : Int
  blockLocation : Int
  time1 : Int
deriving DecidableEq, Repr

/-- The seek header. The option bits are separate flags. -/
structure SeekHeader where
  seekLoad : Bool
  seekRandom : Bool
  seekStagger : Bool
  seekNone : Bool
  range : Int
  interleave : Int
  stride : Int
  numRwOps : Int
  totalOps : Int
  seeks : List SeekEntry
deriving DecidableEq, Repr

/-- The restart structure: the resume flag and the offset to resume from. -/
structure Restart where
  resumeCopy : Bool
  byteOffset : Int
deriving DecidableEq, Repr

/-- What a worker is told to do by `taskSetup`. -/
inductive TaskOp where
  | read
  | write
  | noop
deriving DecidableEq, Repr

/-- The task that the target thread writes into a worker's data. -/
structure Task where
  op : TaskOp
  xferSize : Int
  byteOffset : Int
  opNumber : Int
deriving DecidableEq, Repr

/-- The Target Data. The read/write ratio is a rational; `-1` asks for no-ops. -/
structure TargetData where
  targetNumber : Int
  reqsize : Int
  blockSize : Int
  numreqs : Int
  bytes : Int
  startOffset : Int
  rwratio : ℚ
  startDelay : ℚ
  restart : Option Restart
  xferSize : Int
  bytesToXferPerPass : Int
  targetOps : Int
  seekhdr : SeekHeader
  currentByteOffset : Int
  currentOpNumber : Int
  bytesIssued : Int
  bytesCompleted : Int
  bytesRemaining : Int
  timeLimitExpired : Bool
  abort : Bool
deriving DecidableEq, Repr

/-- The shift of a resumed copy. The start is in whole blocks, rounded down, while
the byte count shrinks by the exact offset. -/
def resumeCopy (td : TargetData) : TargetData :=
  match td.restart with
  | none => td
  | some restart =>
    if restart.resumeCopy then
      { td with
        startOffset := int64 (restart.byteOffset.tdiv td.blockSize)
        bytesToXferPerPass := uint64 (td.bytesToXferPerPass - restart.byteOffset) }
    else
      td

/-- The number of requests of at most `xferSize` bytes that a pass needs. -/
def countOps (td : TargetData) : TargetData :=
  let ops := td.bytesToXferPerPass / uint64 td.xferSize
  if td.bytesToXferPerPass % uint64 td.xferSize ≠ 0 then
    { td with targetOps := uint64 (ops + 1) }
  else
    { td with targetOps := ops }

/-- `xdd_calculate_xfer_info`. A target without a request size, or without a number
of requests or bytes, is given nothing to transfer. -/
def calculateXferInfo (td : TargetData) : TargetData :=
  let td := { td with xferSize := int32 (td.reqsize * td.blockSize) }
  if td.xferSize = 0 then
    { td with bytesToXferPerPass := 0 }
  else if td.numreqs ≠ 0 then
    countOps (resumeCopy
      { td with bytesToXferPerPass := uint64 (int64 (td.numreqs * td.xferSize)) })
  else if td.bytes ≠ 0 then
    countOps (resumeCopy { td with bytesToXferPerPass := uint64 td.bytes })
  else
    { td with bytesToXferPerPass := 0 }

end Target

end Xdd
