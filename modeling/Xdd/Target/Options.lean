import Xdd.Target.Data

/-!
# The command line of a target

The handlers of the options that decide where a target starts and how much it transfers.
An option without a target number is for all targets, and a copy has one. A handler that
does not accept its argument ends the program.
-/

namespace Xdd.Target

/-- The options of the command line, with the numbers that their arguments stand for. -/
inductive Arg where
  | op (operation : TaskOp)
  | reqsize (value : Int)
  | blocksize (value : Int)
  | bytes (value : Int)
  | startoffset (value : Int)
  | restartEnable
  | restartOffset (value : Int)
deriving DecidableEq, Repr

/-- A number that is out of range becomes the nearest one. -/
def atoll (value : Int) : Int := max (-2 ^ 63) (min value (2 ^ 63 - 1))

def atoi (value : Int) : Int := int32 (atoll value)

theorem atoll_of_fits {value : Int} (hlow : 0 ≤ value) (hhigh : value < 2 ^ 63) :
    atoll value = value := by
  rw [atoll]
  omega

theorem atoi_lt (value : Int) : atoi value < 2 ^ 31 := by
  have hbound := Int.bmod_lt (x := atoll value) (m := 2 ^ 32) (by decide)
  rw [atoi, int32, CInt.signed]
  omega

/-- `xdd_init_new_target_data`: the defaults, and zero where there is none. -/
def initNewTargetData (n : Int) : TargetData where
  targetNumber := n
  reqsize := 128
  blockSize := 1024
  numreqs := 0
  bytes := 0
  startOffset := 0
  rwratio := 0
  startDelay := 0
  restart := none
  xferSize := 0
  bytesToXferPerPass := 0
  targetOps := 0
  seekhdr :=
    { seekLoad := false, seekRandom := false, seekStagger := false, seekNone := false
      range := 1024 * 1024, interleave := 1, stride := 0, numRwOps := 0, totalOps := 0
      seeks := [] }
  currentByteOffset := 0
  currentOpNumber := 0
  bytesIssued := 0
  bytesCompleted := 0
  bytesRemaining := 0
  timeLimitExpired := false
  abort := false

/-- `xdd_get_restartp` allocates the structure when it is first asked for. -/
def getRestartp (td : TargetData) : Restart :=
  td.restart.getD { resumeCopy := false, byteOffset := 0 }

def xddfuncOperation (operation : TaskOp) (td : TargetData) : Option TargetData :=
  match operation with
  | .write => some { td with rwratio := 0 }
  | .read => some { td with rwratio := 1 }
  | .noop => some { td with rwratio := -1 }

def xddfuncReqsize (value : Int) (td : TargetData) : Option TargetData :=
  let reqsize := atoi value
  if reqsize ≤ 0 then none else some { td with reqsize := reqsize }

def xddfuncBlocksize (value : Int) (td : TargetData) : Option TargetData :=
  let blockSize := atoi value
  if blockSize ≤ 0 then none else some { td with blockSize := blockSize }

/-- A number of bytes replaces a number of requests. -/
def xddfuncBytes (value : Int) (td : TargetData) : Option TargetData :=
  some { td with bytes := atoll value, numreqs := 0 }

def xddfuncStartoffset (value : Int) (td : TargetData) : Option TargetData :=
  let startOffset := atoll value
  if startOffset < 0 then none else some { td with startOffset := startOffset }

/-- `-restart enable` only makes sure that there is a restart structure. -/
def xddfuncRestartEnable (td : TargetData) : Option TargetData :=
  some { td with restart := some (getRestartp td) }

def xddfuncRestartOffset (value : Int) (td : TargetData) : Option TargetData :=
  some { td with restart := some { getRestartp td with
    resumeCopy := true
    byteOffset := atoll value } }

/-- The handler of an option. -/
def xddfunc : Arg → TargetData → Option TargetData
  | .op operation => xddfuncOperation operation
  | .reqsize value => xddfuncReqsize value
  | .blocksize value => xddfuncBlocksize value
  | .bytes value => xddfuncBytes value
  | .startoffset value => xddfuncStartoffset value
  | .restartEnable => xddfuncRestartEnable
  | .restartOffset value => xddfuncRestartOffset value

/-- `xdd_parse_args` for one target. -/
def parseArgs : List Arg → TargetData → Option TargetData
  | [], td => some td
  | arg :: rest, td => (xddfunc arg td).bind (parseArgs rest)

/-- The bytes of the file that a sequential pass of the target goes over. -/
def plannedRange (td : TargetData) : Set Int :=
  Set.Ico (td.startOffset * td.blockSize) (td.startOffset * td.blockSize + td.bytesToXferPerPass)

/-- The planner of a target whose size is given in bytes: the pass has that size, up to
the shift of a resumed copy. -/
theorem calculateXferInfo_bytes (td : TargetData) (hxfer : int32 (td.reqsize * td.blockSize) ≠ 0)
    (hnumreqs : td.numreqs = 0) (hpos : 0 < td.bytes) (hfits : td.bytes < 2 ^ 63) :
    ∃ ops, calculateXferInfo td =
      { resumeCopy { td with
          xferSize := int32 (td.reqsize * td.blockSize)
          bytesToXferPerPass := td.bytes } with
        targetOps := ops } := by
  have huint : uint64 td.bytes = td.bytes := uint64_of_fits hpos.le (by omega)
  simp only [calculateXferInfo]
  rw [if_neg hxfer, if_neg (not_not.mpr hnumreqs), if_pos hpos.ne', huint, countOps]
  split
  · exact ⟨_, rfl⟩
  · exact ⟨_, rfl⟩

end Xdd.Target
