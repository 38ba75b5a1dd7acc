import Xdd.Target.Data

/-!
# Generating the seek list

`xdd_init_seek_list` fills the list allocated by `xint_target_init` in one loop
that carries the next index, the last value of the read/write ratio and the
relative time. Times and random numbers are doubles in the source; the model takes
them as rationals and rounds where the source stores them in an integer.
-/

namespace Xdd.Target

/-- What the throttle set-up hands to the loop. -/
structure Throttle where
  nanoSecondsPerOp : Int
  hasVariance : Bool
  secondsPerOpLow : ℚ
  secondsPerOpHigh : ℚ
  nanoSecondThrottleVariance : Int
deriving DecidableEq, Repr

/-- Conversion of a floating-point value to an integer type drops the fraction. -/
def truncate (q : ℚ) : Int := if 0 ≤ q then ⌊q⌋ else ⌈q⌉

/-- The variables of the loop. `draws` counts the random numbers used so far. -/
structure SeekLoop where
  rwOpIndex : Int
  rwIndex : Nat
  previousPercentOp : Int
  relativeTime : Int
  draws : Nat
  seeks : List SeekEntry

/-- Blocks left between two staggered requests. -/
def staggerGap (td : TargetData) : Except Fault Int :=
  if td.seekhdr.numRwOps - 1 = 0 then
    .error .divideByZero
  else if td.seekhdr.stride > td.reqsize then
    .ok (int64 (td.seekhdr.stride - td.reqsize))
  else
    .ok (int64 (((td.seekhdr.range - td.reqsize) - int32 (td.seekhdr.numRwOps * td.reqsize)).tdiv
      (td.seekhdr.numRwOps - 1)))

def gap (td : TargetData) : Except Fault Int :=
  if td.seekhdr.seekStagger then staggerGap td else .ok 0

/-- The range of random locations, from 1024-byte units to whole blocks. -/
def rangeInBlocks (td : TargetData) : Int :=
  int64 ((int64 (td.seekhdr.range * 1024)).tdiv td.blockSize)

/-- The location of the next entry and the number of random draws after it. -/
def seekLocation (td : TargetData) (random : Nat → ℚ) (st : SeekLoop) : Except Fault (Int × Nat) :=
  if td.seekhdr.seekRandom then
    -- the first entry takes one draw, every other one as many as the interleave
    let count := if st.rwOpIndex = 0 then 1 else td.seekhdr.interleave.toNat
    .ok (if count = 0 then 0
      else uint64 (truncate (rangeInBlocks td * random (st.draws + count - 1))), st.draws + count)
  else do
    let gap ← gap td
    let interleaveThreadoffset :=
      if td.seekhdr.interleave > 1 then int32 (td.seekhdr.interleave * td.reqsize) else 0
    .ok (uint64 (int64 (td.startOffset + interleaveThreadoffset +
      int64 (st.rwOpIndex * int64 (int32 (td.reqsize * td.seekhdr.interleave) + gap)))), st.draws)

/-- The operation of the next entry and the ratio value to remember. -/
def seekOperation (td : TargetData) (st : SeekLoop) : SeekOperation × Int :=
  if td.rwratio = -1 then
    (.noop, st.previousPercentOp)
  else
    let percentOp := int32 (truncate (td.rwratio * st.rwOpIndex))
    (if percentOp > st.previousPercentOp then .read else .write, percentOp)

/-- The time at which the next operation should start. -/
def seekTime (throttle : Throttle) (random : Nat → ℚ) (relativeTime : Int) (draws : Nat) :
    Int × Nat :=
  if throttle.hasVariance then
    (uint64 (truncate (uint64 (relativeTime - throttle.nanoSecondThrottleVariance) +
      (throttle.secondsPerOpHigh - throttle.secondsPerOpLow) * random draws * 1000000000)),
      draws + 1)
  else
    (relativeTime, draws)

/-- One turn of the loop over the entries. -/
def seekStep (td : TargetData) (throttle : Throttle) (random : Nat → ℚ) (st : SeekLoop) :
    Except Fault SeekLoop := do
  let (blockLocation, draws) ← seekLocation td random st
  let (operation, percentOp) := seekOperation td st
  let (time1, draws) := seekTime throttle random st.relativeTime draws
  if st.rwIndex < st.seeks.length then
    .ok {
      rwOpIndex := st.rwOpIndex + 1
      rwIndex := st.rwIndex + 1
      previousPercentOp := percentOp
      relativeTime := uint64 (st.relativeTime + throttle.nanoSecondsPerOp)
      draws := draws
      seeks := st.seeks.set st.rwIndex
        { operation := operation, reqsize := td.reqsize, blockLocation := blockLocation,
          time1 := time1 } }
  else
    .error .seekOutOfBounds

/-- `n` turns of the loop. -/
def seekLoop (td : TargetData) (throttle : Throttle) (random : Nat → ℚ) :
    Nat → SeekLoop → Except Fault SeekLoop
  | 0, st => .ok st
  | n + 1, st => do
    let st ← seekStep td throttle random st
    seekLoop td throttle random n st

/-- `xdd_init_seek_list`. A list to be loaded comes from `load`. -/
def initSeekList (throttle : Throttle) (random : Nat → ℚ) (load : TargetData → TargetData)
    (td : TargetData) : Except Fault TargetData :=
  if td.seekhdr.seekLoad then
    let td := load td
    .ok { td with seekhdr := { td.seekhdr with seekLoad := false } }
  else do
    let td := { td with seekhdr := { td.seekhdr with numRwOps := td.seekhdr.totalOps } }
    let st ← seekLoop td throttle random td.seekhdr.totalOps.toNat {
      rwOpIndex := 0
      rwIndex := 0
      previousPercentOp := if td.rwratio ≥ 1 / 2 then -1 else 0
      relativeTime := uint64 (truncate (throttle.nanoSecondsPerOp + td.startDelay))
      draws := 0
      seeks := td.seekhdr.seeks }
    .ok { td with seekhdr := { td.seekhdr with seeks := st.seeks } }

/-- What `tot_init` asserts of the number of requests. Its table is that of
`Xdd.Ordering.Table`, and no target has a queue depth of 0. -/
def totInit (numReqs : Int) : Except Fault Unit :=
  if 0 < numReqs then .ok () else .error .assertion

/-- The allocation in `xint_target_init`. A negative number of entries is a request for
more memory than there is. -/
def allocateSeeks (td : TargetData) : Except Fault TargetData :=
  let totalOps := int32 td.targetOps
  if totalOps < 0 then
    .error .outOfMemory
  else
    .ok { td with seekhdr := { td.seekhdr with
      totalOps := totalOps
      seeks := List.replicate totalOps.toNat
        { operation := .unset, reqsize := 0, blockLocation := 0, time1 := 0 } } }

/-- `xint_target_init`: the seek list and, behind it, the target offset table. -/
def targetInit (throttle : Throttle) (random : Nat → ℚ) (load : TargetData → TargetData)
    (td : TargetData) : Except Fault TargetData := do
  let td ← allocateSeeks td
  let td ← initSeekList throttle random load td
  totInit td.targetOps
  .ok td

/-! ## What a turn of the loop does -/

section

variable {td : TargetData} {throttle : Throttle} {random : Nat → ℚ}

/-- A turn that succeeds fills in the entry at the index and goes on to the next one. -/
theorem seekStep_inv {st st' : SeekLoop} (h : seekStep td throttle random st = .ok st') :
    ∃ blockLocation draws time1, seekLocation td random st = .ok (blockLocation, draws) ∧
      st.rwIndex < st.seeks.length ∧
      st'.rwOpIndex = st.rwOpIndex + 1 ∧ st'.rwIndex = st.rwIndex + 1 ∧
      st'.previousPercentOp = (seekOperation td st).2 ∧
      st'.seeks = st.seeks.set st.rwIndex
        { operation := (seekOperation td st).1, reqsize := td.reqsize,
          blockLocation := blockLocation, time1 := time1 } := by
  unfold seekStep at h
  cases hlocation : seekLocation td random st with
  | error fault => simp [hlocation, bind, Except.bind] at h
  | ok location =>
      obtain ⟨blockLocation, draws⟩ := location
      simp only [hlocation, bind, Except.bind] at h
      split at h
      · next hbound =>
        cases h
        exact ⟨blockLocation, draws, _, rfl, hbound, rfl, rfl, rfl, rfl⟩
      · cases h

/-- What every turn keeps, counted by the turns, holds after the loop. -/
theorem seekLoop_invariant {P : Nat → SeekLoop → Prop} {m : Nat}
    (hstep : ∀ k st st', k < m → P k st → seekStep td throttle random st = .ok st' →
      P (k + 1) st') {n k : Nat} {st st' : SeekLoop}
    (h : seekLoop td throttle random n st = .ok st') (hst : P k st) (hm : k + n ≤ m) :
    P (k + n) st' := by
  induction n generalizing k st with
  | zero =>
      cases h
      exact hst
  | succ n ih =>
      simp only [seekLoop] at h
      cases hturn : seekStep td throttle random st with
      | error fault => simp [hturn, bind, Except.bind] at h
      | ok st₁ =>
          simp only [hturn, bind, Except.bind] at h
          have hrest := ih h (hstep k st st₁ (by omega) hst hturn) (by omega)
          rwa [Nat.add_right_comm, Nat.add_assoc] at hrest

/-- The Target Data that the loop reads. -/
def TargetData.generating (td : TargetData) : TargetData :=
  { td with seekhdr := { td.seekhdr with numRwOps := td.seekhdr.totalOps } }

/-- The variables before the loop. -/
def startLoop (throttle : Throttle) (td : TargetData) : SeekLoop where
  rwOpIndex := 0
  rwIndex := 0
  previousPercentOp := if td.rwratio ≥ 1 / 2 then -1 else 0
  relativeTime := uint64 (truncate (throttle.nanoSecondsPerOp + td.startDelay))
  draws := 0
  seeks := td.seekhdr.seeks

/-- A list that is not loaded is what the loop has made. -/
theorem initSeekList_generated {load : TargetData → TargetData}
    (hload : td.seekhdr.seekLoad = false) :
    initSeekList throttle random load td =
      (seekLoop td.generating throttle random td.seekhdr.totalOps.toNat
        (startLoop throttle td)).map fun st =>
          { td.generating with seekhdr := { td.generating.seekhdr with seeks := st.seeks } } := by
  rw [initSeekList, if_neg (by simp [hload])]
  show (seekLoop td.generating throttle random td.seekhdr.totalOps.toNat
    (startLoop throttle td)).bind _ = _
  cases seekLoop td.generating throttle random td.seekhdr.totalOps.toNat (startLoop throttle td) with
  | error fault => rfl
  | ok st => rfl

end

/-! ## Sequential lists -/

/-- The options of a list that is generated front to back without gaps. -/
structure Sequential (td : TargetData) : Prop where
  generated : td.seekhdr.seekLoad = false
  notRandom : td.seekhdr.seekRandom = false
  notStaggered : td.seekhdr.seekStagger = false
  reseeks : td.seekhdr.seekNone = false
  interleave : td.seekhdr.interleave = 1

/-- The location that the loop stores in entry `k` of a sequential list. -/
def sequentialLocation (td : TargetData) (k : Nat) : Int :=
  uint64 (int64 (td.startOffset + int64 (k * int64 (int32 td.reqsize))))

/-- After `k` turns the first `k` entries are filled in. -/
structure Filled (td : TargetData) (k : Nat) (st : SeekLoop) : Prop where
  opIndex : st.rwOpIndex = k
  index : st.rwIndex = k
  length : st.seeks.length = td.seekhdr.totalOps.toNat
  location : ∀ i < k, (st.seeks[i]?).map (·.blockLocation) = some (sequentialLocation td i)

variable {td : TargetData} (throttle : Throttle) (random : Nat → ℚ) (load : TargetData → TargetData)

theorem seekLocation_sequential (hseq : Sequential td) {k : Nat} {st : SeekLoop}
    (hk : st.rwOpIndex = k) :
    seekLocation td random st = .ok (sequentialLocation td k, st.draws) := by
  simp [seekLocation, gap, sequentialLocation, hseq.notRandom, hseq.notStaggered,
    hseq.interleave, hk, bind, Except.bind]

/-- After `k` turns of a loop over `total` entries the first `k` locations are right. -/
structure Located (loc : Nat → Int) (total k : Nat) (st : SeekLoop) : Prop where
  opIndex : st.rwOpIndex = k
  index : st.rwIndex = k
  length : st.seeks.length = total
  location : ∀ i < k, (st.seeks[i]?).map (·.blockLocation) = some (loc i)

/-- If the next location can be computed, the turn succeeds. -/
theorem Located.step {loc : Nat → Int} {total k draws : Nat} {st : SeekLoop}
    (hst : Located loc total k st) (hk : k < total)
    (hloc : seekLocation td random st = .ok (loc k, draws)) :
    ∃ st', seekStep td throttle random st = .ok st' ∧ Located loc total (k + 1) st' := by
  have hbound : st.rwIndex < st.seeks.length := by
    rw [hst.index, hst.length]
    exact hk
  simp only [seekStep, hloc, bind, Except.bind, if_pos hbound]
  refine ⟨_, rfl, ?_, ?_, ?_, ?_⟩
  · simp [hst.opIndex]
  · simp [hst.index]
  · simp [hst.length]
  · intro i hi
    rcases Nat.lt_succ_iff_lt_or_eq.mp hi with hlt | rfl
    · rw [List.getElem?_set_ne (by rw [hst.index]; omega)]
      exact hst.location i hlt
    · rw [hst.index] at hbound ⊢
      rw [List.getElem?_set_self hbound]
      rfl

theorem seekLoop_located {loc : Nat → Int} {total : Nat}
    (hloc : ∀ k < total, ∀ st : SeekLoop, st.rwOpIndex = k →
      ∃ draws, seekLocation td random st = .ok (loc k, draws))
    {n k : Nat} {st : SeekLoop} (hst : Located loc total k st) (hk : k + n ≤ total) :
    ∃ st', seekLoop td throttle random n st = .ok st' ∧ Located loc total (k + n) st' := by
  induction n generalizing k st with
  | zero => exact ⟨st, rfl, hst⟩
  | succ n ih =>
      obtain ⟨draws, hlocation⟩ := hloc k (by omega) st hst.opIndex
      obtain ⟨st₁, hstep, hst₁⟩ := hst.step throttle random (by omega) hlocation
      obtain ⟨st₂, hloop, hst₂⟩ := ih hst₁ (by omega)
      refine ⟨st₂, ?_, ?_⟩
      · simp only [seekLoop, hstep, bind, Except.bind, hloop]
      · rwa [show k + (n + 1) = k + 1 + n by omega]

theorem seekLoop_filled (hseq : Sequential td) {n k : Nat} {st : SeekLoop} (hst : Filled td k st)
    (hk : k + n ≤ td.seekhdr.totalOps.toNat) :
    ∃ st', seekLoop td throttle random n st = .ok st' ∧ Filled td (k + n) st' := by
  have hlocated : Located (sequentialLocation td) td.seekhdr.totalOps.toNat k st :=
    ⟨hst.opIndex, hst.index, hst.length, hst.location⟩
  obtain ⟨st', hloop, hst'⟩ := seekLoop_located throttle random
    (fun k _ st hopIndex => ⟨st.draws, seekLocation_sequential random hseq hopIndex⟩) hlocated hk
  exact ⟨st', hloop, hst'.opIndex, hst'.index, hst'.length, hst'.location⟩

theorem initSeekList_sequential (hseq : Sequential td)
    (hlength : td.seekhdr.seeks.length = td.seekhdr.totalOps.toNat) :
    ∃ seeks, initSeekList throttle random load td = .ok { td with seekhdr := { td.seekhdr with
        numRwOps := td.seekhdr.totalOps, seeks := seeks } } ∧
      ∀ i < td.seekhdr.totalOps.toNat,
        (seeks[i]?).map (·.blockLocation) = some (sequentialLocation td i) := by
  rw [initSeekList, if_neg (by simp [hseq.generated])]
  have hseq' : Sequential { td with
      seekhdr := { td.seekhdr with numRwOps := td.seekhdr.totalOps } } :=
    ⟨hseq.generated, hseq.notRandom, hseq.notStaggered, hseq.reseeks, hseq.interleave⟩
  dsimp only
  generalize hinit : SeekLoop.mk _ _ _ _ _ _ = st
  have hfilled : Filled { td with
      seekhdr := { td.seekhdr with numRwOps := td.seekhdr.totalOps } } 0 st := by
    subst hinit
    exact ⟨rfl, rfl, hlength, by omega⟩
  obtain ⟨st', hloop, hst'⟩ := seekLoop_filled throttle random hseq'
    (n := td.seekhdr.totalOps.toNat) hfilled (by simp)
  rw [hloop]
  exact ⟨st'.seeks, rfl, fun i hi => hst'.location i (by omega)⟩

/-- Setting up a sequential list succeeds, changes only the seek header, and puts the
right location into every entry. -/
theorem targetInit_sequential (hseq : Sequential td) (hpos : 0 < td.targetOps)
    (hhigh : td.targetOps < 2 ^ 31) :
    ∃ seeks, targetInit throttle random load td = .ok { td with seekhdr := { td.seekhdr with
        totalOps := td.targetOps, numRwOps := td.targetOps, seeks := seeks } } ∧
      ∀ i : Nat, i < td.targetOps →
        (seeks[i]?).map (·.blockLocation) = some (sequentialLocation td i) := by
  have hops : int32 td.targetOps = td.targetOps := int32_of_fits (by omega) hhigh
  have hseq' : Sequential { td with seekhdr := { td.seekhdr with
      totalOps := td.targetOps
      seeks := List.replicate td.targetOps.toNat
        { operation := .unset, reqsize := 0, blockLocation := 0, time1 := 0 } } } :=
    ⟨hseq.generated, hseq.notRandom, hseq.notStaggered, hseq.reseeks, hseq.interleave⟩
  obtain ⟨seeks, hinit, hseeks⟩ := initSeekList_sequential throttle random load hseq'
    List.length_replicate
  refine ⟨seeks, ?_, fun i hi => hseeks i (by dsimp only; omega)⟩
  simp only [targetInit, allocateSeeks, hops, if_neg (not_lt.mpr hpos.le), bind, Except.bind,
    hinit, totInit, if_pos hpos]

/-! ## The length of a list -/

theorem allocateSeeks_length {td' : TargetData} (h : allocateSeeks td = .ok td') :
    td' = { td with seekhdr := td'.seekhdr } ∧ td'.seekhdr.seekLoad = td.seekhdr.seekLoad ∧
      td'.seekhdr.totalOps = int32 td.targetOps ∧
      (td'.seekhdr.seeks.length : Int) = int32 td.targetOps := by
  unfold allocateSeeks at h
  dsimp only at h
  split at h
  · cases h
  next hnonneg =>
    cases h
    refine ⟨rfl, rfl, rfl, ?_⟩
    rw [List.length_replicate]
    omega

/-- Filling in a list does not change its length. -/
theorem initSeekList_length (hload : td.seekhdr.seekLoad = false) {td' : TargetData}
    (h : initSeekList throttle random load td = .ok td') :
    td' = { td with seekhdr := td'.seekhdr } ∧
      td'.seekhdr.totalOps = td.seekhdr.totalOps ∧
      td'.seekhdr.seeks.length = td.seekhdr.seeks.length := by
  rw [initSeekList_generated hload] at h
  cases hloop : seekLoop td.generating throttle random td.seekhdr.totalOps.toNat
      (startLoop throttle td) with
  | error fault =>
      rw [hloop] at h
      cases h
  | ok st =>
      have hlength := seekLoop_invariant (k := 0)
        (P := fun _ st => st.seeks.length = td.seekhdr.seeks.length)
        (fun k st st' _ hst hturn => by
          obtain ⟨_, _, _, -, -, -, -, -, hseeks⟩ := seekStep_inv hturn
          rw [hseeks, List.length_set, hst]) hloop rfl le_rfl
      rw [hloop] at h
      cases h
      exact ⟨rfl, rfl, hlength⟩

/-- A list that has been generated is as long as its header says, in 32 bits, and a target
without requests does not get so far. -/
theorem targetInit_length (hload : td.seekhdr.seekLoad = false) {td' : TargetData}
    (h : targetInit throttle random load td = .ok td') :
    td' = { td with seekhdr := td'.seekhdr } ∧ 0 < td.targetOps ∧
      td'.seekhdr.totalOps = int32 td.targetOps ∧
      (td'.seekhdr.seeks.length : Int) = int32 td.targetOps := by
  simp only [targetInit, bind, Except.bind] at h
  split at h
  · cases h
  next allocated hallocate =>
    obtain ⟨hframe, hload', htotal, hlength⟩ := allocateSeeks_length hallocate
    rw [hload] at hload'
    split at h
    · cases h
    next listed hlist =>
      obtain ⟨hframe', htotal', hlength'⟩ := initSeekList_length throttle random load hload' hlist
      split at h
      · cases h
      next htot =>
        cases h
        rw [hframe', hframe] at htot
        have hpos : 0 < td.targetOps := by
          by_contra hnot
          simp [totInit, hnot] at htot
        refine ⟨?_, hpos, htotal'.trans htotal, ?_⟩
        · rw [hframe', hframe]
        · rw [hlength', hlength]

end Xdd.Target
