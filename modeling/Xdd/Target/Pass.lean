import Xdd.Target.SeekList

/-!
# The pass loop

One pass of a target: the counters are reset, and then requests are set up one by
one until no bytes remain. Clock readings and the flags raised by other threads are
a stream of `Signals`, one for each turn of the loop; a turn that sees any of them
ends the pass. Barriers that only delay the thread (syncio, start trigger) and the
hand-over of the task to a worker are not part of this model, nor are targets in
lockstep, whose requests are issued by `xdd_lockstep`.
-/

namespace Xdd.Target

/-- The part of the plan that the loop reads. -/
structure Plan where
  targetOffset : Int
deriving DecidableEq, Repr

/-- What one turn of the loop sees of the clock and of the global flags. -/
structure Signals where
  timeLimitReached : Bool
  runTimeReached : Bool
  runTimeExpired : Bool
  canceled : Bool
  abort : Bool
  targetAbort : Bool
deriving DecidableEq, Repr

/-- No limit is reached and no flag is raised. -/
def Signals.quiet : Signals := ⟨false, false, false, false, false, false⟩

/-- `XDD_RC_GOOD` and `XDD_RC_BAD`. -/
inductive Status where
  | good
  | bad
deriving DecidableEq, Repr

/-- The pass variables as `xdd_init_target_data_before_pass` resets them. -/
def resetPassVariables (td : TargetData) : TargetData :=
  { td with
    currentOpNumber := 0
    currentByteOffset := 0
    timeLimitExpired := false
    abort := false
    bytesIssued := 0
    bytesCompleted := 0
    bytesRemaining := td.bytesToXferPerPass
    xferSize := int32 (td.reqsize * td.blockSize) }

/-- `xdd_init_target_data_before_pass`. Its last call is `tot_init`. -/
def initTargetDataBeforePass (td : TargetData) : Except Fault TargetData := do
  let td := resetPassVariables td
  totInit td.targetOps
  .ok td

/-- The seek entry at an index, which has to lie inside the list. -/
def seekEntry (td : TargetData) (index : Int) : Except Fault SeekEntry :=
  match td.seekhdr.seeks[index.toNat]? with
  | some entry => .ok entry
  | none => .error .seekOutOfBounds

/-- `xdd_target_ttd_before_io_op`: the limits, the location of the next request, and
the flags, in this order. -/
def beforeIoOp (plan : Plan) (signals : Signals) (td : TargetData) :
    Except Fault (Status × TargetData) :=
  if signals.timeLimitReached then
    .ok (.bad, { td with timeLimitExpired := true })
  else if signals.runTimeReached then
    .ok (.bad, td)
  else do
    let entry ← seekEntry td (if td.seekhdr.seekNone then 0 else td.currentOpNumber)
    let td := { td with
      currentByteOffset :=
        uint64 (uint64 (uint64 (td.targetNumber * plan.targetOffset) + entry.blockLocation) *
          td.blockSize) }
    if td.timeLimitExpired || signals.runTimeExpired then
      .ok (.bad, td)
    else if signals.canceled || signals.abort || td.abort || signals.targetAbort then
      .ok (.bad, td)
    else
      .ok (.good, td)

/-- `xdd_target_pass_task_setup`. The last request is clipped to the bytes that remain. -/
def passTaskSetup (td : TargetData) : Except Fault (Task × TargetData) := do
  let entry ← seekEntry td td.currentOpNumber
  let task : Task := {
    op := match entry.operation with
      | .write => .write
      | .read => .read
      | _ => .noop
    xferSize :=
      if td.bytesRemaining < uint64 td.xferSize then td.bytesRemaining else uint64 td.xferSize
    byteOffset := int64 td.currentByteOffset
    opNumber := td.currentOpNumber }
  .ok (task, { td with
    currentByteOffset := uint64 (td.currentByteOffset + task.xferSize)
    currentOpNumber := uint64 (td.currentOpNumber + 1)
    bytesIssued := uint64 (td.bytesIssued + task.xferSize)
    bytesRemaining := uint64 (td.bytesRemaining - task.xferSize) })

/-- The `while` loop of `xdd_target_pass_loop`. It returns the tasks in the order in
which they are set up. -/
def passLoop (plan : Plan) :
    Nat → (Nat → Signals) → TargetData → Except Fault (List Task × TargetData)
  | 0, _, td => if td.bytesRemaining = 0 then .ok ([], td) else .error .outOfFuel
  | fuel + 1, signals, td =>
    if td.bytesRemaining = 0 then
      .ok ([], td)
    else do
      let (status, td) ← beforeIoOp plan (signals 0) td
      match status with
      | .bad => .ok ([], td)
      | .good =>
        let (task, td) ← passTaskSetup td
        let (tasks, td) ← passLoop plan fuel (fun n => signals (n + 1)) td
        .ok (task :: tasks, td)

/-- The set-up of a target and a pass: the target that is set up, the tasks, and the target
after the pass. -/
def runPass (plan : Plan) (throttle : Throttle) (random : Nat → ℚ)
    (load : TargetData → TargetData) (fuel : Nat) (signals : Nat → Signals) (td : TargetData) :
    Except Fault (TargetData × List Task × TargetData) := do
  let ready ← targetInit throttle random load td
  let start ← initTargetDataBeforePass ready
  let (tasks, done) ← passLoop plan fuel signals start
  .ok (ready, tasks, done)

section

variable {plan : Plan} {throttle : Throttle} {random : Nat → ℚ} {load : TargetData → TargetData}
  {fuel : Nat} {signals : Nat → Signals} {td ready done : TargetData} {tasks : List Task}

theorem initTargetDataBeforePass_of_pos (hpos : 0 < td.targetOps) :
    initTargetDataBeforePass td = .ok (resetPassVariables td) := by
  have htot : totInit (resetPassVariables td).targetOps = .ok () := if_pos hpos
  simp [initTargetDataBeforePass, htot, bind, Except.bind]

theorem initTargetDataBeforePass_eq_ok {start : TargetData}
    (h : initTargetDataBeforePass td = .ok start) : start = resetPassVariables td := by
  simp only [initTargetDataBeforePass, bind, Except.bind] at h
  split at h
  · cases h
  · exact (Except.ok.inj h).symm

/-- The two parts of a pass that comes to its end. -/
theorem runPass_eq_ok (h : runPass plan throttle random load fuel signals td =
      .ok (ready, tasks, done)) :
    targetInit throttle random load td = .ok ready ∧
      passLoop plan fuel signals (resetPassVariables ready) = .ok (tasks, done) := by
  simp only [runPass, bind, Except.bind] at h
  split at h
  · cases h
  next ready' hinit =>
    split at h
    · cases h
    next start hstart =>
      have hreset := initTargetDataBeforePass_eq_ok hstart
      split at h
      · cases h
      next hloop =>
        cases h
        exact ⟨hinit, hreset ▸ hloop⟩

theorem runPass_of_parts (hinit : targetInit throttle random load td = .ok ready)
    (hpos : 0 < ready.targetOps)
    (hloop : passLoop plan fuel signals (resetPassVariables ready) = .ok (tasks, done)) :
    runPass plan throttle random load fuel signals td = .ok (ready, tasks, done) := by
  simp [runPass, hinit, initTargetDataBeforePass_of_pos hpos, hloop, bind, Except.bind]

end

end Xdd.Target
