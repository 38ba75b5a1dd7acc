import Xdd.Library.Tiling
import Xdd.Target.Pass

/-!
# Which bytes a sequential pass touches

The planned number of operations, the seek list, the look-up of the offset and the
clipping of the last request are four separate computations. Together they cut the
requested bytes into consecutive ranges, as long as nothing overflows and no limit
or flag ends the pass. A resumed copy starts at a whole block but is shortened by
the exact resume offset; the last section says when the two agree.
-/

namespace Xdd.Target

/-- The number of requests needed for `B` bytes. -/
def opsFor (xfer B : Int) : Int := (B + xfer - 1) / xfer

/-- The byte offset of request `k` of a sequential pass. -/
def requestOffset (plan : Plan) (td : TargetData) (k : Nat) : Int :=
  (td.targetNumber * plan.targetOffset + td.startOffset + k * td.reqsize) * td.blockSize

/-- The bytes that a task reads or writes. -/
def Task.range (task : Task) : Set Int :=
  Set.Ico task.byteOffset (task.byteOffset + task.xferSize)

/-- The task is request number `k` of `B` sequential bytes. -/
structure Planned (plan : Plan) (td : TargetData) (B : Int) (k : Nat) (task : Task) : Prop where
  opNumber : task.opNumber = k
  byteOffset : task.byteOffset = requestOffset plan td k
  xferSize : task.xferSize = min (td.reqsize * td.blockSize) (B - k * (td.reqsize * td.blockSize))

/-- A target at the start of a sequential pass over `B` bytes, none of whose offsets
overflows. -/
structure Ready (plan : Plan) (td : TargetData) (B : Int) : Prop where
  reqsize_pos : 1 ≤ td.reqsize
  blockSize_pos : 1 ≤ td.blockSize
  xfer_fits : td.reqsize * td.blockSize < 2 ^ 31
  bytes_nonneg : 0 ≤ B
  bytes_fit : B < 2 ^ 63
  reseeks : td.seekhdr.seekNone = false
  locations : ∀ k : Nat, k < opsFor (td.reqsize * td.blockSize) B →
    (td.seekhdr.seeks[k]?).map (·.blockLocation) = some (sequentialLocation td k)
  offsets_fit : ∀ k : Nat, k < opsFor (td.reqsize * td.blockSize) B →
    0 ≤ requestOffset plan td k ∧ requestOffset plan td k < 2 ^ 63

/-- The target after `k` requests of the pass have been set up. -/
def afterOps (td : TargetData) (B : Int) (k : Nat) (offset : Int) : TargetData :=
  { td with
    xferSize := td.reqsize * td.blockSize
    timeLimitExpired := false
    abort := false
    currentByteOffset := offset
    currentOpNumber := k
    bytesIssued := min (k * (td.reqsize * td.blockSize)) B
    bytesCompleted := 0
    bytesRemaining := B - min (k * (td.reqsize * td.blockSize)) B }

section Arithmetic

variable {xfer B : Int}

theorem lt_opsFor_iff (hxfer : 0 < xfer) (k : Nat) : (k : Int) < opsFor xfer B ↔ k * xfer < B := by
  rw [opsFor, ← Int.add_one_le_iff, Int.le_ediv_iff_mul_le hxfer]
  constructor <;> intro h <;> nlinarith

/-- The conversions on the way from a block number to a byte offset do no harm when
the offset itself fits. -/
theorem uint64_scaled (a s y b : Int) :
    uint64 (uint64 (uint64 a + uint64 (int64 (s + int64 y))) * b) = uint64 ((a + s + y) * b) := by
  simp only [uint64, int64, CInt.unsigned_signed, CInt.unsigned_add_signed,
    CInt.unsigned_unsigned_mul, CInt.unsigned_add_unsigned, CInt.unsigned_unsigned_add]
  rw [add_assoc]

end Arithmetic

section Turn

variable {plan : Plan} {td : TargetData} {B : Int} {k : Nat}

namespace Ready

theorem xfer_pos (h : Ready plan td B) : 0 < td.reqsize * td.blockSize :=
  Int.mul_pos (by have := h.reqsize_pos; omega) (by have := h.blockSize_pos; omega)

theorem reqsize_fits (h : Ready plan td B) : int64 (int32 td.reqsize) = td.reqsize := by
  have hreq := h.reqsize_pos
  have hle : td.reqsize * 1 ≤ td.reqsize * td.blockSize :=
    Int.mul_le_mul_of_nonneg_left h.blockSize_pos (by omega)
  have hxfer := h.xfer_fits
  rw [int32_of_fits (by omega) (by omega), int64_of_fits (by omega) (by omega)]

theorem xfer_uint64 (h : Ready plan td B) :
    uint64 (td.reqsize * td.blockSize) = td.reqsize * td.blockSize := by
  have hpos := h.xfer_pos
  have hxfer := h.xfer_fits
  exact uint64_of_fits (by omega) (by omega)

/-- The entry that request `k` uses, and the offset computed from it. -/
theorem lookup (h : Ready plan td B) (hk : (k : Int) < opsFor (td.reqsize * td.blockSize) B) :
    ∃ entry, td.seekhdr.seeks[k]? = some entry ∧
      uint64 (uint64 (uint64 (td.targetNumber * plan.targetOffset) + entry.blockLocation) *
        td.blockSize) = requestOffset plan td k := by
  obtain ⟨entry, hentry, hlocation⟩ := Option.map_eq_some_iff.mp (h.locations k hk)
  refine ⟨entry, hentry, ?_⟩
  obtain ⟨hlow, hhigh⟩ := h.offsets_fit k hk
  rw [hlocation, sequentialLocation, h.reqsize_fits, uint64_scaled]
  exact uint64_of_fits hlow (lt_trans hhigh (by norm_num))

end Ready

theorem beforeIoOp_ready (h : Ready plan td B)
    (hk : (k : Int) < opsFor (td.reqsize * td.blockSize) B) (offset : Int) :
    beforeIoOp plan .quiet (afterOps td B k offset) =
      .ok (.good, afterOps td B k (requestOffset plan td k)) := by
  obtain ⟨entry, hentry, hoffset⟩ := h.lookup hk
  simp [beforeIoOp, afterOps, Signals.quiet, seekEntry, h.reseeks, hentry, hoffset, bind,
    Except.bind]

theorem passTaskSetup_ready (h : Ready plan td B)
    (hk : (k : Int) < opsFor (td.reqsize * td.blockSize) B) :
    ∃ task offset, Planned plan td B k task ∧
      passTaskSetup (afterOps td B k (requestOffset plan td k)) =
        .ok (task, afterOps td B (k + 1) offset) := by
  obtain ⟨entry, hentry, -⟩ := h.lookup hk
  obtain ⟨hlow, hhigh⟩ := h.offsets_fit k hk
  have hxfer := h.xfer_pos
  have hstart : k * (td.reqsize * td.blockSize) < B := (lt_opsFor_iff hxfer k).mp hk
  have hissued : min (k * (td.reqsize * td.blockSize)) B = k * (td.reqsize * td.blockSize) :=
    min_eq_left hstart.le
  have hnonneg : 0 ≤ k * (td.reqsize * td.blockSize) := by positivity
  have hnext : ((k + 1 : Nat) : Int) * (td.reqsize * td.blockSize) =
      k * (td.reqsize * td.blockSize) + td.reqsize * td.blockSize := by
    push_cast
    ring
  have hbytes := h.bytes_fit
  have hop : (k : Int) < B := by nlinarith
  have hsize : (if B - k * (td.reqsize * td.blockSize) < td.reqsize * td.blockSize then
        B - k * (td.reqsize * td.blockSize) else td.reqsize * td.blockSize) =
      min (td.reqsize * td.blockSize) (B - k * (td.reqsize * td.blockSize)) := by
    split <;> omega
  -- only whether it is a read or a write depends on the entry
  have hsetup : ∃ op, passTaskSetup (afterOps td B k (requestOffset plan td k)) = .ok
      ({ op := op
         xferSize := min (td.reqsize * td.blockSize) (B - k * (td.reqsize * td.blockSize))
         byteOffset := requestOffset plan td k
         opNumber := k },
        afterOps td B (k + 1) (uint64 (requestOffset plan td k +
          min (td.reqsize * td.blockSize) (B - k * (td.reqsize * td.blockSize))))) := by
    simp only [passTaskSetup, afterOps, seekEntry, Int.toNat_natCast, hentry, bind, Except.bind,
      hissued, h.xfer_uint64, int64_of_fits (by omega) hhigh, hnext, hsize]
    generalize td.reqsize * td.blockSize = xfer at *
    generalize (k : Int) * xfer = start at *
    refine ⟨_, congrArg Except.ok (Prod.ext rfl ?_)⟩
    dsimp only
    congr 1
    · exact uint64_of_fits (by omega) (by omega)
    · rw [uint64_of_fits (by omega) (by omega)]
      omega
    · rw [uint64_of_fits (by omega) (by omega)]
      omega
  obtain ⟨op, hsetup⟩ := hsetup
  exact ⟨_, _, ⟨rfl, rfl, rfl⟩, hsetup⟩

/-- From any point of the pass the loop sets up exactly the requests that are left. -/
theorem passLoop_ready (h : Ready plan td B) {signals : Nat → Signals}
    (hquiet : ∀ n, signals n = .quiet) (fuel left : Nat) (offset : Int)
    (hleft : (k + left : Int) = opsFor (td.reqsize * td.blockSize) B) (hfuel : left ≤ fuel) :
    ∃ tasks offset', passLoop plan fuel signals (afterOps td B k offset) =
        .ok (tasks, afterOps td B (k + left) offset') ∧
      tasks.length = left ∧
      ∀ i task, tasks[i]? = some task → Planned plan td B (k + i) task := by
  have hxfer := h.xfer_pos
  induction left generalizing k fuel signals offset with
  | zero =>
      have hdone : ¬ k * (td.reqsize * td.blockSize) < B :=
        mt (lt_opsFor_iff hxfer k).mpr (by omega)
      have hremaining : (afterOps td B k offset).bytesRemaining = 0 := by
        simp only [afterOps]
        omega
      refine ⟨[], offset, ?_, rfl, by simp⟩
      cases fuel <;> simp only [passLoop, if_pos hremaining, Nat.add_zero]
  | succ left ih =>
      have hk : (k : Int) < opsFor (td.reqsize * td.blockSize) B := by omega
      have hstart := (lt_opsFor_iff hxfer k).mp hk
      have hremaining : (afterOps td B k offset).bytesRemaining ≠ 0 := by
        simp only [afterOps]
        omega
      obtain ⟨fuel, rfl⟩ : ∃ n, fuel = n + 1 := ⟨fuel - 1, by omega⟩
      obtain ⟨task, offset₁, htask, hsetup⟩ := passTaskSetup_ready h hk
      obtain ⟨tasks, offset₂, hloop, hlength, htasks⟩ :=
        @ih (k + 1) (fun n => signals (n + 1)) (fun n => hquiet (n + 1)) fuel offset₁
          (by push_cast; omega) (Nat.le_of_succ_le_succ hfuel)
      refine ⟨task :: tasks, offset₂, ?_, by simp [hlength], ?_⟩
      · simp only [passLoop, if_neg hremaining, hquiet 0, beforeIoOp_ready h hk, hsetup, hloop,
          bind, Except.bind]
        rw [show k + 1 + left = k + (left + 1) by omega]
      · intro i task' hi
        cases i with
        | zero =>
            obtain rfl : task = task' := by simpa using hi
            exact htask
        | succ i =>
            have hplanned := htasks i task' (by simpa using hi)
            rwa [show k + (i + 1) = k + 1 + i by omega]

end Turn

/-! ## The ranges of a pass -/

section Ranges

variable {plan : Plan} {td : TargetData} {B : Int} {tasks : List Task}

/-- Where the ranges of a pass over `B` bytes meet. -/
def requestBoundary (plan : Plan) (td : TargetData) (B : Int) (k : Nat) : Int :=
  requestOffset plan td 0 + min (k * (td.reqsize * td.blockSize)) B

theorem requestOffset_eq (plan : Plan) (td : TargetData) (k : Nat) :
    requestOffset plan td k = requestOffset plan td 0 + k * (td.reqsize * td.blockSize) := by
  simp only [requestOffset]
  push_cast
  ring

theorem requestBoundary_monotone (h : Ready plan td B) : Monotone (requestBoundary plan td B) := by
  intro i j hij
  have hxfer := h.xfer_pos
  have hle : (i : Int) * (td.reqsize * td.blockSize) ≤ j * (td.reqsize * td.blockSize) :=
    Int.mul_le_mul_of_nonneg_right (by omega) hxfer.le
  simp only [requestBoundary]
  omega

theorem Planned.range_eq_cell (h : Ready plan td B) {k : Nat} {task : Task}
    (htask : Planned plan td B k task) (hk : (k : Int) < opsFor (td.reqsize * td.blockSize) B) :
    task.range = Tiling.cell (requestBoundary plan td B) k := by
  have hstart := (lt_opsFor_iff h.xfer_pos k).mp hk
  have hnext : ((k + 1 : Nat) : Int) * (td.reqsize * td.blockSize) =
      k * (td.reqsize * td.blockSize) + td.reqsize * td.blockSize := by
    push_cast
    ring
  rw [Task.range, htask.byteOffset, htask.xferSize, requestOffset_eq, Tiling.cell]
  simp only [requestBoundary, hnext]
  congr 1 <;> omega

/-- The ranges of consecutive tasks touch, no two ranges overlap, and together they are
the `B` bytes behind the first offset. -/
structure Exact (plan : Plan) (td : TargetData) (B : Int) (tasks : List Task) : Prop where
  contiguous : ∀ (k : Nat) (task next : Task), tasks[k]? = some task → tasks[k + 1]? = some next →
    next.byteOffset = task.byteOffset + task.xferSize
  disjoint : ∀ (i j : Nat) (task other : Task), tasks[i]? = some task → tasks[j]? = some other →
    i ≠ j → Disjoint task.range other.range
  union : ⋃ task ∈ tasks, task.range =
    Set.Ico (requestOffset plan td 0) (requestOffset plan td 0 + B)

theorem exact_of_planned (h : Ready plan td B)
    (hlength : (tasks.length : Int) = opsFor (td.reqsize * td.blockSize) B)
    (hplanned : ∀ k task, tasks[k]? = some task → Planned plan td B k task) :
    Exact plan td B tasks := by
  have hmono := requestBoundary_monotone h
  have hindex : ∀ {k : Nat} {task : Task}, tasks[k]? = some task →
      (k : Int) < opsFor (td.reqsize * td.blockSize) B := by
    intro k task hk
    have hlt := (List.getElem?_eq_some_iff.mp hk).1
    omega
  have hcell : ∀ (k : Nat) (task : Task), tasks[k]? = some task →
      task.range = Tiling.cell (requestBoundary plan td B) k :=
    fun k task hk => (hplanned k task hk).range_eq_cell h (hindex hk)
  refine ⟨?_, ?_, ?_⟩
  · intro k task next hk hnext
    have hstart := (lt_opsFor_iff h.xfer_pos (k + 1)).mp (hindex hnext)
    have htask := hplanned k task hk
    rw [(hplanned (k + 1) next hnext).byteOffset, htask.byteOffset, htask.xferSize,
      requestOffset_eq plan td (k + 1), requestOffset_eq plan td k]
    push_cast at hstart ⊢
    rw [min_eq_left (by linarith)]
    ring
  · intro i j task other hi hj hij
    rw [hcell i task hi, hcell j other hj]
    exact Tiling.disjoint_cell hmono hij
  · ext x
    have hcells := Tiling.exists_mem_cell_iff hmono tasks.length x
    have hfirst : requestBoundary plan td B 0 = requestOffset plan td 0 := by
      simp [requestBoundary, h.bytes_nonneg]
    have hlast : requestBoundary plan td B tasks.length = requestOffset plan td 0 + B := by
      have hnot : ¬ (tasks.length : Int) * (td.reqsize * td.blockSize) < B :=
        mt (lt_opsFor_iff h.xfer_pos tasks.length).mpr (by omega)
      rw [requestBoundary, min_eq_right (by omega)]
    rw [hfirst, hlast] at hcells
    simp only [Set.mem_iUnion, exists_prop, Set.mem_Ico]
    rw [← hcells]
    constructor
    · rintro ⟨task, hmem, hx⟩
      obtain ⟨k, hk⟩ := List.getElem?_of_mem hmem
      exact ⟨k, (List.getElem?_eq_some_iff.mp hk).1, hcell k task hk ▸ hx⟩
    · rintro ⟨k, hk, hx⟩
      have hget : tasks[k]? = some tasks[k] := List.getElem?_eq_getElem hk
      exact ⟨tasks[k], List.getElem_mem hk, (hcell k _ hget).symm ▸ hx⟩

end Ranges

/-! ## From the request to the pass -/

/-- A target that is asked for `B` bytes, by a number of requests or of bytes. -/
structure Requested (td : TargetData) (B : Int) : Prop where
  reqsize_pos : 1 ≤ td.reqsize
  blockSize_pos : 1 ≤ td.blockSize
  xfer_fits : td.reqsize * td.blockSize < 2 ^ 31
  bytes_nonneg : 0 ≤ B
  bytes_fit : B < 2 ^ 63
  amount : (td.numreqs ≠ 0 ∧ td.numreqs * (td.reqsize * td.blockSize) = B) ∨
    (td.numreqs = 0 ∧ td.bytes = B)

section Planning

variable {plan : Plan} {td : TargetData} {B : Int}

/-- The planner rounds the quotient up, whatever the width of the request. -/
theorem countOps_opsFor (hxfer : 0 < uint64 td.xferSize) (hlow : 0 ≤ td.bytesToXferPerPass)
    (hhigh : td.bytesToXferPerPass < 2 ^ 64) :
    countOps td =
      { td with targetOps := opsFor (uint64 td.xferSize) td.bytesToXferPerPass } := by
  generalize hx : uint64 td.xferSize = xfer at hxfer
  have hdiv := Int.mul_ediv_add_emod td.bytesToXferPerPass xfer
  have hrem := Int.emod_nonneg td.bytesToXferPerPass hxfer.ne'
  have hrem' := Int.emod_lt_of_pos td.bytesToXferPerPass hxfer
  have hquot : 0 ≤ td.bytesToXferPerPass / xfer := Int.ediv_nonneg hlow hxfer.le
  have hsplit : td.bytesToXferPerPass + xfer - 1 =
      (td.bytesToXferPerPass % xfer + xfer - 1) + xfer * (td.bytesToXferPerPass / xfer) := by
    omega
  simp only [countOps, opsFor, hx]
  rw [hsplit, Int.add_mul_ediv_left _ _ hxfer.ne']
  by_cases hzero : td.bytesToXferPerPass % xfer = 0
  · have hnone : (0 + xfer - 1) / xfer = 0 := Int.ediv_eq_zero_of_lt (by omega) (by omega)
    rw [if_neg (not_not.mpr hzero), hzero, hnone, zero_add]
  · -- a remainder needs requests of two bytes or more, so the quotient is far from the limit
    have hquot' : 2 * (td.bytesToXferPerPass / xfer) ≤ xfer * (td.bytesToXferPerPass / xfer) :=
      mul_le_mul_of_nonneg_right (by omega) hquot
    have hone : (td.bytesToXferPerPass % xfer + xfer - 1) / xfer = 1 := by
      rw [Int.ediv_eq_iff_of_pos hxfer]
      omega
    rw [if_pos hzero, hone, uint64_of_fits (by omega) (by omega), add_comm]

theorem countOps_eq (hxfer : 0 < td.xferSize) (hfits : td.xferSize < 2 ^ 31)
    (hlow : 0 ≤ td.bytesToXferPerPass) (hhigh : td.bytesToXferPerPass < 2 ^ 63) :
    countOps td = { td with targetOps := opsFor td.xferSize td.bytesToXferPerPass } := by
  have hx : uint64 td.xferSize = td.xferSize := uint64_of_fits hxfer.le (by omega)
  rw [countOps_opsFor (by omega) hlow (by omega), hx]

/-- The target as planned: `B` bytes from block `start` on. -/
def planned (td : TargetData) (start B : Int) : TargetData :=
  { td with
    startOffset := start
    xferSize := td.reqsize * td.blockSize
    bytesToXferPerPass := B
    targetOps := opsFor (td.reqsize * td.blockSize) B }

theorem resumeCopy_eq_self
    (hrestart : ∀ restart, td.restart = some restart → restart.resumeCopy = false) :
    resumeCopy td = td := by
  rw [resumeCopy]
  cases hr : td.restart with
  | none => rfl
  | some restart => simp [hrestart restart hr]

namespace Requested

theorem xfer_pos (h : Requested td B) : 0 < td.reqsize * td.blockSize :=
  Int.mul_pos (by have := h.reqsize_pos; omega) (by have := h.blockSize_pos; omega)

theorem xfer_int32 (h : Requested td B) :
    int32 (td.reqsize * td.blockSize) = td.reqsize * td.blockSize := by
  have hpos := h.xfer_pos
  exact int32_of_fits (by omega) h.xfer_fits

/-- Before a resume shift or a rounding, the size of the pass is the requested one. -/
theorem calculateXferInfo_eq (h : Requested td B) (hB : B ≠ 0) :
    calculateXferInfo td = countOps (resumeCopy
      { td with xferSize := td.reqsize * td.blockSize, bytesToXferPerPass := B }) := by
  have hpos := h.xfer_pos
  have hnonneg := h.bytes_nonneg
  have hfit := h.bytes_fit
  have huint : uint64 B = B := uint64_of_fits hnonneg (by omega)
  simp only [calculateXferInfo, h.xfer_int32, if_neg hpos.ne']
  rcases h.amount with ⟨hreqs, hbytes⟩ | ⟨hreqs, hbytes⟩
  · rw [if_pos hreqs, hbytes, int64_of_fits (by omega) hfit, huint]
  · rw [if_neg (not_not.mpr hreqs), hbytes, if_pos hB, huint]

theorem calculateXferInfo_noRestart (h : Requested td B)
    (hrestart : ∀ restart, td.restart = some restart → restart.resumeCopy = false)
    (hB : B ≠ 0) : calculateXferInfo td = planned td td.startOffset B := by
  rw [h.calculateXferInfo_eq hB, resumeCopy_eq_self (by exact hrestart),
    countOps_eq h.xfer_pos h.xfer_fits h.bytes_nonneg h.bytes_fit]
  rfl

theorem calculateXferInfo_resume (h : Requested td B) {R : Int}
    (hrestart : td.restart = some { resumeCopy := true, byteOffset := R })
    (hR : 0 ≤ R) (hRB : R ≤ B) (hB : B ≠ 0) :
    calculateXferInfo td = planned td (R / td.blockSize) (B - R) := by
  have hfit := h.bytes_fit
  have hbs := h.blockSize_pos
  have hblock : R.tdiv td.blockSize = R / td.blockSize := Int.tdiv_eq_ediv_of_nonneg hR
  have hle : R / td.blockSize ≤ R := Int.ediv_le_self _ hR
  have hnonneg : 0 ≤ R / td.blockSize := Int.ediv_nonneg hR (by omega)
  have hresume : resumeCopy { td with
        xferSize := td.reqsize * td.blockSize, bytesToXferPerPass := B } =
      { td with
        xferSize := td.reqsize * td.blockSize, bytesToXferPerPass := B - R,
        startOffset := R / td.blockSize } := by
    simp only [resumeCopy, hrestart, if_true, hblock, int64_of_fits (by omega : -2 ^ 63 ≤ _)
      (by omega : R / td.blockSize < 2 ^ 63), uint64_of_fits (by omega : 0 ≤ B - R)
      (by omega : B - R < 2 ^ 64)]
  rw [h.calculateXferInfo_eq hB, hresume, countOps_eq h.xfer_pos h.xfer_fits (by dsimp; omega)
    (by dsimp; omega)]
  rfl

/-- Nothing is planned for no bytes; a new target has no operations to begin with. -/
theorem calculateXferInfo_zero (h : Requested td 0) (hfresh : td.targetOps = 0) :
    calculateXferInfo td = planned td td.startOffset 0 := by
  have hpos := h.xfer_pos
  have hops : opsFor (td.reqsize * td.blockSize) 0 = td.targetOps := by
    rw [hfresh, opsFor, Int.ediv_eq_zero_of_lt (by omega) (by omega)]
  have hnone : td.numreqs = 0 ∧ td.bytes = 0 := by
    rcases h.amount with ⟨hreqs, hbytes⟩ | hnone
    · exact absurd ((Int.mul_eq_zero.mp hbytes).resolve_left hreqs) hpos.ne'
    · exact hnone
  simp only [calculateXferInfo, h.xfer_int32, if_neg hpos.ne', hnone.1, hnone.2, ne_eq,
    not_true_eq_false, if_false, planned, hops]

end Requested

/-- What a complete pass over the planned target leaves behind. -/
structure Completed (plan : Plan) (td : TargetData) (B : Int) (ready : TargetData)
    (tasks : List Task) (done : TargetData) : Prop where
  targetOps : ready.targetOps = opsFor (td.reqsize * td.blockSize) B
  length : (tasks.length : Int) = ready.targetOps
  requests : ∀ (k : Nat) (task : Task), tasks[k]? = some task → Planned plan td B k task
  ranges : Exact plan td B tasks
  indices : ∀ task ∈ tasks, 0 ≤ task.opNumber ∧ task.opNumber < ready.seekhdr.totalOps
  bytesRemaining : done.bytesRemaining = 0
  bytesIssued : done.bytesIssued = B

/-- Planning, list generation and the pass loop fit together. -/
theorem pass_planned (throttle : Throttle) (random : Nat → ℚ) (load : TargetData → TargetData)
    {start : Int} {signals : Nat → Signals} {fuel : Nat} (hquiet : ∀ n, signals n = .quiet)
    (hreq : 1 ≤ td.reqsize) (hbs : 1 ≤ td.blockSize) (hxfer : td.reqsize * td.blockSize < 2 ^ 31)
    (hlow : 0 < B) (hhigh : B < 2 ^ 63) (hops : opsFor (td.reqsize * td.blockSize) B < 2 ^ 31)
    (hfuel : opsFor (td.reqsize * td.blockSize) B ≤ fuel) (hseq : Sequential td)
    (hfit : ∀ k : Nat, k < opsFor (td.reqsize * td.blockSize) B →
      0 ≤ requestOffset plan (planned td start B) k ∧
        requestOffset plan (planned td start B) k < 2 ^ 63) :
    ∃ ready tasks done, runPass plan throttle random load fuel signals (planned td start B) =
        .ok (ready, tasks, done) ∧
      Completed plan (planned td start B) B ready tasks done := by
  have hpos : 0 < td.reqsize * td.blockSize := Int.mul_pos (by omega) (by omega)
  have hsome : 0 < opsFor (td.reqsize * td.blockSize) B := (lt_opsFor_iff hpos 0).mpr (by simpa)
  have hseq' : Sequential (planned td start B) :=
    ⟨hseq.generated, hseq.notRandom, hseq.notStaggered, hseq.reseeks, hseq.interleave⟩
  obtain ⟨seeks, hinit, hseeks⟩ :=
    targetInit_sequential throttle random load hseq' hsome hops
  generalize hready : ({ planned td start B with seekhdr := _ } : TargetData) = ready at hinit
  have hoffset : ∀ k, requestOffset plan ready k = requestOffset plan (planned td start B) k := by
    intro k
    rw [← hready]
    rfl
  have hsize : ready.reqsize * ready.blockSize = td.reqsize * td.blockSize := by
    rw [← hready]
    rfl
  have hrd : Ready plan ready B := by
    refine ⟨?_, ?_, hsize ▸ hxfer, hlow.le, hhigh, ?_, ?_, ?_⟩
    · rw [← hready]
      exact hreq
    · rw [← hready]
      exact hbs
    · rw [← hready]
      exact hseq.reseeks
    · intro k hk
      rw [hsize] at hk
      rw [← hready]
      exact hseeks k hk
    · intro k hk
      rw [hsize] at hk
      rw [hoffset]
      exact hfit k hk
  have hbegin : resetPassVariables ready = afterOps ready B 0 0 := by
    rw [resetPassVariables, hsize, int32_of_fits (by omega) hxfer, ← hready]
    simp [afterOps, planned, hlow.le]
  have hplan : ready.targetOps = opsFor (td.reqsize * td.blockSize) B := by
    rw [← hready]
    rfl
  obtain ⟨tasks, offset, hloop, hlength, htasks⟩ := passLoop_ready (k := 0) hrd hquiet fuel
    (opsFor (td.reqsize * td.blockSize) B).toNat 0 (by rw [hsize]; omega) (by omega)
  have hcount : (tasks.length : Int) = opsFor (ready.reqsize * ready.blockSize) B := by
    rw [hlength, hsize]
    omega
  have hplanned : ∀ (k : Nat) (task : Task),
      tasks[k]? = some task → Planned plan ready B k task := by
    intro k task hk
    simpa using htasks k task hk
  have hexact := exact_of_planned hrd hcount hplanned
  have hend : B ≤ (opsFor (td.reqsize * td.blockSize) B).toNat * (td.reqsize * td.blockSize) := by
    apply not_lt.mp
    intro hlt
    have := (lt_opsFor_iff hpos _).mpr hlt
    omega
  refine ⟨ready, tasks, _, runPass_of_parts hinit (hplan ▸ hsome) (hbegin ▸ hloop), ?_⟩
  refine ⟨hplan, ?_, ?_, ?_, ?_, ?_, ?_⟩
  · rw [hcount, hsize, hplan]
  · intro k task hk
    have h := hplanned k task hk
    rw [← hready] at h
    exact ⟨h.opNumber, h.byteOffset, h.xferSize⟩
  · rw [← hready] at hexact
    exact ⟨hexact.contiguous, hexact.disjoint, hexact.union⟩
  · intro task hmem
    obtain ⟨k, hk⟩ := List.getElem?_of_mem hmem
    have hlt := (List.getElem?_eq_some_iff.mp hk).1
    rw [(hplanned k task hk).opNumber]
    have htotal : ready.seekhdr.totalOps = opsFor (td.reqsize * td.blockSize) B := by
      rw [← hready]
      rfl
    rw [hsize] at hcount
    omega
  · simp only [afterOps, hsize, Nat.zero_add]
    omega
  · simp only [afterOps, hsize, Nat.zero_add]
    omega

theorem beforeIoOp_quiet {td td' : TargetData} {status : Status}
    (h : beforeIoOp plan .quiet td = .ok (status, td')) (htime : td.timeLimitExpired = false)
    (habort : td.abort = false) :
    status = .good ∧ ∃ offset, td' = { td with currentByteOffset := offset } := by
  simp only [beforeIoOp, Signals.quiet, htime, habort, bind, Except.bind] at h
  simp only [Bool.false_eq_true, if_false, Bool.or_self] at h
  split at h
  · cases h
  next entry hentry =>
    cases h
    refine ⟨rfl, uint64 (uint64 (uint64 (td.targetNumber * plan.targetOffset) +
      entry.blockLocation) * td.blockSize), ?_⟩
    rw [htime, habort]

/-- A task has an entry of the list, and the counters go on by it. -/
theorem passTaskSetup_ok {td td' : TargetData} {task : Task}
    (h : passTaskSetup td = .ok (task, td')) :
    td.currentOpNumber.toNat < td.seekhdr.seeks.length ∧
      task.xferSize = (if td.bytesRemaining < uint64 td.xferSize then td.bytesRemaining
        else uint64 td.xferSize) ∧
      td' = { td with
        currentByteOffset := uint64 (td.currentByteOffset + task.xferSize)
        currentOpNumber := uint64 (td.currentOpNumber + 1)
        bytesIssued := uint64 (td.bytesIssued + task.xferSize)
        bytesRemaining := uint64 (td.bytesRemaining - task.xferSize) } := by
  simp only [passTaskSetup, bind, Except.bind] at h
  split at h
  · cases h
  next entry hentry =>
    cases h
    refine ⟨?_, rfl, rfl⟩
    unfold seekEntry at hentry
    split at hentry
    next hget => exact (List.getElem?_eq_some_iff.mp hget).1
    · cases hentry

/-- A list that is shorter than the pass lets the loop come to no end. -/
theorem bytes_le_of_passLoop {td : TargetData} {xfer : Int} {signals : Nat → Signals}
    (hquiet : ∀ n, signals n = .quiet) (hxfer : 0 < xfer) (hB : B < 2 ^ 63) {k : Nat}
    (hsize : uint64 td.xferSize = xfer) (hnumber : td.currentOpNumber = k)
    (htime : td.timeLimitExpired = false) (habort : td.abort = false)
    (hk : k ≤ td.seekhdr.seeks.length) (hremaining : td.bytesRemaining = B - k * xfer)
    (hissued : k * xfer ≤ B) {fuel : Nat} {tasks : List Task} {done : TargetData}
    (h : passLoop plan fuel signals td = .ok (tasks, done)) :
    B ≤ td.seekhdr.seeks.length * xfer := by
  induction fuel generalizing k td signals tasks with
  | zero =>
      rw [passLoop] at h
      split at h
      · next hnone => nlinarith
      · cases h
  | succ fuel ih =>
      rw [passLoop] at h
      split at h
      · next hnone => nlinarith
      · next hsome =>
        simp only [bind, Except.bind] at h
        split at h
        · cases h
        next turn hbefore =>
          obtain ⟨status, td₁⟩ := turn
          obtain ⟨rfl, offset, rfl⟩ := beforeIoOp_quiet (hquiet 0 ▸ hbefore) htime habort
          dsimp only at h
          split at h
          · cases h
          next setup hsetup =>
            obtain ⟨task, td₂⟩ := setup
            obtain ⟨hentry, htask, rfl⟩ := passTaskSetup_ok hsetup
            dsimp only at h hentry htask
            rw [hnumber, Int.toNat_natCast] at hentry
            rw [hsize] at htask
            have hstep : ((k + 1 : Nat) : Int) * xfer = k * xfer + xfer := by push_cast; ring
            have hkB : (k : Int) * 1 ≤ k * xfer :=
              Int.mul_le_mul_of_nonneg_left hxfer (by omega)
            split at h
            · cases h
            next rest hrest =>
              obtain ⟨tasks', done'⟩ := rest
              cases h
              by_cases hlast : td.bytesRemaining < xfer
              · -- the request is the last one, clipped or not
                have hle : ((k + 1 : Nat) : Int) * xfer ≤ td.seekhdr.seeks.length * xfer :=
                  Int.mul_le_mul_of_nonneg_right (by omega) hxfer.le
                omega
              · rw [if_neg hlast] at htask
                refine le_of_le_of_eq (ih (fun n => hquiet (n + 1)) (k := k + 1) ?_ ?_ ?_ ?_ ?_ ?_
                  ?_ hrest) rfl
                · exact hsize
                · dsimp only
                  rw [hnumber, uint64_of_fits (by omega) (by omega)]
                  push_cast
                  rfl
                · exact htime
                · exact habort
                · exact hentry
                · dsimp only
                  rw [htask, hremaining, uint64_of_fits (by omega) (by omega)]
                  omega
                · omega

/-- The list of a pass that comes to its end has an entry for every request. -/
theorem opsFor_lt_of_runPass (throttle : Throttle) (random : Nat → ℚ)
    (load : TargetData → TargetData) {start : Int} {signals : Nat → Signals} {fuel : Nat}
    (hquiet : ∀ n, signals n = .quiet) (hreq : 1 ≤ td.reqsize) (hbs : 1 ≤ td.blockSize)
    (hxfer : td.reqsize * td.blockSize < 2 ^ 31) (hlow : 0 ≤ B) (hhigh : B < 2 ^ 63)
    (hload : td.seekhdr.seekLoad = false) {ready done : TargetData} {tasks : List Task}
    (h : runPass plan throttle random load fuel signals (planned td start B) =
      .ok (ready, tasks, done)) :
    0 < B ∧ opsFor (td.reqsize * td.blockSize) B < 2 ^ 31 := by
  have hpos : 0 < td.reqsize * td.blockSize := Int.mul_pos (by omega) (by omega)
  obtain ⟨hinit, hloop⟩ := runPass_eq_ok h
  have hgenerated : (planned td start B).seekhdr.seekLoad = false := hload
  obtain ⟨hframe, hsome, -, hlength⟩ := targetInit_length throttle random load hgenerated hinit
  have hsize : ready.reqsize * ready.blockSize = td.reqsize * td.blockSize := by
    rw [hframe]
    rfl
  have hxferSize : uint64 (int32 ((resetPassVariables ready).reqsize *
      (resetPassVariables ready).blockSize)) = td.reqsize * td.blockSize := by
    show uint64 (int32 (ready.reqsize * ready.blockSize)) = _
    rw [hsize, int32_of_fits (by omega) hxfer, uint64_of_fits (by omega) (by omega)]
  have hbytes := bytes_le_of_passLoop hquiet hpos hhigh (k := 0) hxferSize
    rfl rfl rfl (Nat.zero_le _) (by
      rw [resetPassVariables, hframe]
      simp [planned]) (by simpa) hloop
  have hlist : ((resetPassVariables ready).seekhdr.seeks.length : Int) =
      int32 (opsFor (td.reqsize * td.blockSize) B) := hlength
  have hhigh32 := Int.bmod_lt (x := opsFor (td.reqsize * td.blockSize) B) (m := 2 ^ 32)
    (by norm_num)
  change int32 (opsFor (td.reqsize * td.blockSize) B) < _ at hhigh32
  have hops := mt (lt_opsFor_iff (B := B) hpos (resetPassVariables ready).seekhdr.seeks.length).mp
    (not_lt.mpr hbytes)
  refine ⟨?_, by omega⟩
  exact (by simpa using (lt_opsFor_iff hpos 0).mp hsome)

/-- A sequential pass that is not cut short issues an exact partition of the requested
bytes, in as many requests as planned, and stays inside the seek list, if and only if the
list can count the requests. -/
theorem sequentialPass_exact_iff (throttle : Throttle) (random : Nat → ℚ)
    (load : TargetData → TargetData) (signals : Nat → Signals) (fuel : Nat) (h : Requested td B)
    (hB : 1 ≤ B) (hrestart : ∀ restart, td.restart = some restart → restart.resumeCopy = false)
    (hseq : Sequential td)
    (hfit : ∀ k : Nat, k < opsFor (td.reqsize * td.blockSize) B →
      0 ≤ requestOffset plan td k ∧ requestOffset plan td k < 2 ^ 63)
    (hquiet : ∀ n, signals n = .quiet) (hfuel : opsFor (td.reqsize * td.blockSize) B ≤ fuel) :
    (∃ ready tasks done, runPass plan throttle random load fuel signals (calculateXferInfo td) =
        .ok (ready, tasks, done) ∧ Completed plan td B ready tasks done) ↔
      opsFor (td.reqsize * td.blockSize) B < 2 ^ 31 := by
  rw [h.calculateXferInfo_noRestart hrestart (by omega)]
  constructor
  · rintro ⟨ready, tasks, done, hrun, -⟩
    exact (opsFor_lt_of_runPass throttle random load hquiet h.reqsize_pos h.blockSize_pos
      h.xfer_fits h.bytes_nonneg h.bytes_fit hseq.generated hrun).2
  · intro hops
    obtain ⟨ready, tasks, done, hrun, hdone⟩ := pass_planned throttle random load hquiet
      h.reqsize_pos h.blockSize_pos h.xfer_fits (by omega) h.bytes_fit hops hfuel hseq hfit
    refine ⟨ready, tasks, done, hrun, hdone.targetOps, hdone.length, ?_, ?_,
      hdone.indices, hdone.bytesRemaining, hdone.bytesIssued⟩
    · intro k task hk
      have hplanned := hdone.requests k task hk
      exact ⟨hplanned.opNumber, hplanned.byteOffset, hplanned.xferSize⟩
    · exact ⟨hdone.ranges.contiguous, hdone.ranges.disjoint, hdone.ranges.union⟩

/-- A target with requests of four two-byte blocks, `bytes` bytes in all. -/
def smallTarget (bytes : Int) (restart : Option Restart) : TargetData where
  targetNumber := 1
  reqsize := 4
  blockSize := 2
  numreqs := 0
  bytes := bytes
  startOffset := 3
  rwratio := -1
  startDelay := 0
  restart := restart
  xferSize := 0
  bytesToXferPerPass := 0
  targetOps := 0
  seekhdr := ⟨false, false, false, false, 0, 1, 0, 0, 0, []⟩
  currentByteOffset := 0
  currentOpNumber := 0
  bytesIssued := 0
  bytesCompleted := 0
  bytesRemaining := 0
  timeLimitExpired := false
  abort := false

/-- No throttling. -/
def noThrottle : Throttle := ⟨0, false, 0, 0, 0⟩

/-- Twenty-one bytes in requests of eight, at a displaced start. -/
theorem sequentialPass_exact_iff_small :
    ∃ ready tasks done, runPass ⟨100⟩ noThrottle (fun _ => 0) id 3 (fun _ => .quiet)
        (calculateXferInfo (smallTarget 21 none)) = .ok (ready, tasks, done) ∧
      Completed ⟨100⟩ (smallTarget 21 none) 21 ready tasks done := by
  refine (sequentialPass_exact_iff noThrottle (fun _ => 0) id (fun _ => .quiet) 3
    ⟨by decide, by decide, by decide, by decide, by decide, .inr ⟨rfl, rfl⟩⟩ (by decide)
    (by simp [smallTarget]) ⟨rfl, rfl, rfl, rfl, rfl⟩ ?_ (fun _ => rfl) (by decide)).mpr (by decide)
  intro k hk
  have hk' : (k : Int) < 3 := hk
  simp only [requestOffset, smallTarget]
  omega

/-- A target of one-byte requests, with everything else of a small sequential target. -/
def byteTarget (bytes : Int) : TargetData :=
  { smallTarget bytes none with reqsize := 1, blockSize := 1 }

/-- `2 ^ 32 + 1` requests of one byte, whose offsets are small numbers: the list has one
entry, and the loop looks for the second one behind it. -/
theorem sequentialPass_inexact :
    Requested (byteTarget (2 ^ 32 + 1)) (2 ^ 32 + 1) ∧ Sequential (byteTarget (2 ^ 32 + 1)) ∧
      (∀ k : Nat, k < opsFor 1 (2 ^ 32 + 1) →
        0 ≤ requestOffset ⟨0⟩ (byteTarget (2 ^ 32 + 1)) k ∧
          requestOffset ⟨0⟩ (byteTarget (2 ^ 32 + 1)) k < 2 ^ 63) ∧
      (¬ ∃ ready tasks done, runPass ⟨0⟩ noThrottle (fun _ => 0) id (2 ^ 32 + 1)
          (fun _ => .quiet) (calculateXferInfo (byteTarget (2 ^ 32 + 1))) =
          .ok (ready, tasks, done) ∧
        Completed ⟨0⟩ (byteTarget (2 ^ 32 + 1)) (2 ^ 32 + 1) ready tasks done) ∧
      runPass ⟨0⟩ noThrottle (fun _ => 0) id 2 (fun _ => .quiet)
        (calculateXferInfo (byteTarget (2 ^ 32 + 1))) = .error .seekOutOfBounds := by
  have hrequested : Requested (byteTarget (2 ^ 32 + 1)) (2 ^ 32 + 1) :=
    ⟨by decide, by decide, by decide, by decide, by decide, .inr ⟨rfl, rfl⟩⟩
  refine ⟨hrequested, ⟨rfl, rfl, rfl, rfl, rfl⟩, ?_, ?_, by decide +kernel⟩
  · intro k hk
    have hops : opsFor 1 (2 ^ 32 + 1) = 2 ^ 32 + 1 := by decide
    rw [hops] at hk
    simp only [requestOffset, byteTarget, smallTarget]
    omega
  · rintro ⟨ready, tasks, done, hrun, -⟩
    rw [hrequested.calculateXferInfo_noRestart (by simp [byteTarget, smallTarget]) (by decide)]
      at hrun
    have hops := (opsFor_lt_of_runPass noThrottle (fun _ => 0) id (fun _ => rfl)
      hrequested.reqsize_pos hrequested.blockSize_pos hrequested.xfer_fits
      hrequested.bytes_nonneg hrequested.bytes_fit rfl hrun).2
    exact absurd hops (by decide)

/-! ## Resumed copies -/

/-- The tasks reach every byte of `[R, B)` and none behind it. -/
def CoversRemainder (R B : Int) (tasks : List Task) : Prop :=
  (∀ x, R ≤ x → x < B → ∃ task ∈ tasks, x ∈ task.range) ∧
    ∀ task ∈ tasks, ∀ x ∈ task.range, x < B

/-- Consecutive ranges cover the remainder only if they start at the resume offset. -/
theorem Exact.coversRemainder_iff {R : Int} {tasks : List Task}
    (h : Exact plan td (B - R) tasks) (hRB : R ≤ B) :
    CoversRemainder R B tasks ↔ R = B ∨ requestOffset plan td 0 = R := by
  have hmem : ∀ x, (∃ task ∈ tasks, x ∈ task.range) ↔
      requestOffset plan td 0 ≤ x ∧ x < requestOffset plan td 0 + (B - R) := by
    intro x
    have hunion := Set.ext_iff.mp h.union x
    simpa only [Set.mem_iUnion, exists_prop, Set.mem_Ico] using hunion
  constructor
  · rintro ⟨hcover, hbelow⟩
    by_cases hRlt : R = B
    · exact .inl hRlt
    · right
      have hfirst := (hmem R).mp (hcover R le_rfl (by omega))
      have hlast := (hmem (B - 1)).mp (hcover (B - 1) (by omega) (by omega))
      omega
  · intro hstart
    refine ⟨fun x hlow hhigh => (hmem x).mpr (by omega), ?_⟩
    intro task htask x hx
    have := (hmem x).mp ⟨task, htask, hx⟩
    omega

/-- Rounding down to a block and displacing by blocks both lose the resume offset. -/
theorem scaled_block_eq_iff {bs : Int} (hbs : 0 < bs) (d R : Int) :
    (d + R / bs) * bs = R ↔ bs ∣ R ∧ d = 0 := by
  have hdiv := Int.mul_ediv_add_emod R bs
  constructor
  · intro h
    have hdvd : bs ∣ R := Dvd.intro_left _ h
    refine ⟨hdvd, ?_⟩
    have hscaled : (d + R / bs) * bs = R / bs * bs := by rw [h, Int.ediv_mul_cancel hdvd]
    have := Int.eq_of_mul_eq_mul_right hbs.ne' hscaled
    omega
  · rintro ⟨hdvd, rfl⟩
    rw [zero_add, Int.ediv_mul_cancel hdvd]

/-- A planned pass without requests ends in the assertion of `tot_init`. -/
theorem runPass_planned_zero (throttle : Throttle) (random : Nat → ℚ)
    (load : TargetData → TargetData) {start : Int} {signals : Nat → Signals} {fuel : Nat}
    (hpos : 0 < td.reqsize * td.blockSize) (hseq : Sequential td) :
    runPass plan throttle random load fuel signals (planned td start 0) = .error .assertion := by
  have hops : (planned td start 0).targetOps = 0 := Int.ediv_eq_zero_of_lt (by omega) (by omega)
  have hseq' : Sequential { planned td start 0 with seekhdr := { td.seekhdr with
      totalOps := int32 0
      seeks := List.replicate (int32 0).toNat
        { operation := .unset, reqsize := 0, blockLocation := 0, time1 := 0 } } } :=
    ⟨hseq.generated, hseq.notRandom, hseq.notStaggered, hseq.reseeks, hseq.interleave⟩
  obtain ⟨seeks, hinit, -⟩ := initSeekList_sequential throttle random load hseq'
    List.length_replicate
  have hallocate : allocateSeeks (planned td start 0) =
      .ok { planned td start 0 with seekhdr := { td.seekhdr with
        totalOps := int32 0
        seeks := List.replicate (int32 0).toNat
          { operation := .unset, reqsize := 0, blockLocation := 0, time1 := 0 } } } := by
    simp only [allocateSeeks, hops]
    rfl
  have htot : totInit (planned td start 0).targetOps = .error .assertion := by
    rw [hops]
    rfl
  simp [runPass, targetInit, hallocate, hinit, htot, bind, Except.bind]

/-- A resumed copy runs and covers the rest of the file if and only if something is left to
copy, the resume offset is a whole number of blocks, the target is not displaced, and the
list can count the requests. If nothing is left, there is no pass at all. -/
theorem resumedPass_covers_iff (throttle : Throttle) (random : Nat → ℚ)
    (load : TargetData → TargetData) (signals : Nat → Signals) (fuel : Nat) (R : Int)
    (h : Requested td B) (hfresh : td.targetOps = 0)
    (hrestart : td.restart = some { resumeCopy := true, byteOffset := R })
    (hR : 0 ≤ R) (hRB : R ≤ B) (hseq : Sequential td)
    (hfit : ∀ k : Nat, k < opsFor (td.reqsize * td.blockSize) (B - R) →
      0 ≤ requestOffset plan { td with startOffset := R / td.blockSize } k ∧
        requestOffset plan { td with startOffset := R / td.blockSize } k < 2 ^ 63)
    (hquiet : ∀ n, signals n = .quiet)
    (hfuel : opsFor (td.reqsize * td.blockSize) (B - R) ≤ fuel) :
    ((∃ ready tasks done, runPass plan throttle random load fuel signals (calculateXferInfo td) =
        .ok (ready, tasks, done) ∧ CoversRemainder R B tasks) ↔
      R < B ∧ td.blockSize ∣ R ∧ td.targetNumber * plan.targetOffset = 0 ∧
        opsFor (td.reqsize * td.blockSize) (B - R) < 2 ^ 31) ∧
    (R = B → runPass plan throttle random load fuel signals (calculateXferInfo td) =
      .error .assertion) := by
  have hbs := h.blockSize_pos
  have hfitB := h.bytes_fit
  rcases hRB.eq_or_lt with rfl | hlt
  · -- the end of the file: no requests are planned
    have hnone : runPass plan throttle random load fuel signals (calculateXferInfo td) =
        .error .assertion := by
      by_cases hzero : R = 0
      · subst hzero
        rw [h.calculateXferInfo_zero hfresh]
        exact runPass_planned_zero throttle random load h.xfer_pos hseq
      · rw [h.calculateXferInfo_resume hrestart hR le_rfl hzero, Int.sub_self]
        exact runPass_planned_zero throttle random load h.xfer_pos hseq
    refine ⟨⟨?_, fun hcond => absurd hcond.1 (lt_irrefl R)⟩, fun _ => hnone⟩
    rintro ⟨ready, tasks, done, hrun, -⟩
    rw [hnone] at hrun
    cases hrun
  · refine ⟨?_, fun heq => absurd heq hlt.ne⟩
    have hplan := h.calculateXferInfo_resume hrestart hR hRB (by omega)
    have hoffset : requestOffset plan (planned td (R / td.blockSize) (B - R)) 0 =
        (td.targetNumber * plan.targetOffset + R / td.blockSize) * td.blockSize := by
      simp [requestOffset, planned]
    rw [hplan]
    constructor
    · rintro ⟨ready, tasks, done, hrun, hcovers⟩
      have hops := (opsFor_lt_of_runPass throttle random load hquiet h.reqsize_pos hbs
        h.xfer_fits (by omega) (by omega) hseq.generated hrun).2
      obtain ⟨ready', tasks', done', hrun', hdone⟩ := pass_planned throttle random load hquiet
        h.reqsize_pos hbs h.xfer_fits (by omega) (by omega) hops hfuel hseq hfit
      rw [hrun'] at hrun
      cases hrun
      rw [hdone.ranges.coversRemainder_iff hRB, hoffset, scaled_block_eq_iff (by omega)] at hcovers
      obtain ⟨hdvd, hdisplaced⟩ := hcovers.resolve_left hlt.ne
      exact ⟨hlt, hdvd, hdisplaced, hops⟩
    · rintro ⟨-, hdvd, hdisplaced, hops⟩
      obtain ⟨ready, tasks, done, hrun, hdone⟩ := pass_planned throttle random load hquiet
        h.reqsize_pos hbs h.xfer_fits (by omega) (by omega) hops hfuel hseq hfit
      refine ⟨ready, tasks, done, hrun, ?_⟩
      rw [hdone.ranges.coversRemainder_iff hRB, hoffset, scaled_block_eq_iff (by omega)]
      exact .inr ⟨hdvd, hdisplaced⟩

/-- Resuming sixteen bytes into a file of twenty-one, with two-byte blocks. -/
theorem resumedPass_covers_iff_small :
    ∃ ready tasks done, runPass ⟨0⟩ noThrottle (fun _ => 0) id 3 (fun _ => .quiet)
        (calculateXferInfo (smallTarget 21 (some ⟨true, 16⟩))) = .ok (ready, tasks, done) ∧
      CoversRemainder 16 21 tasks := by
  refine (resumedPass_covers_iff noThrottle (fun _ => 0) id (fun _ => .quiet) 3 16
    ⟨by decide, by decide, by decide, by decide, by decide, .inr ⟨rfl, rfl⟩⟩ rfl rfl
    (by decide) (by decide) ⟨rfl, rfl, rfl, rfl, rfl⟩ ?_ (fun _ => rfl) (by decide)).1.mpr
    (by decide)
  intro k hk
  have hk' : (k : Int) < 1 := hk
  simp only [requestOffset, smallTarget]
  omega

/-- Resuming at byte three of nine with two-byte blocks starts at byte two, is three
bytes shorter, and so never reaches byte eight. -/
theorem resumedPass_misses_last_byte :
    ∃ ready tasks done, runPass ⟨0⟩ noThrottle (fun _ => 0) id 2 (fun _ => .quiet)
        (calculateXferInfo (smallTarget 9 (some ⟨true, 3⟩))) = .ok (ready, tasks, done) ∧
      ¬ CoversRemainder 3 9 tasks := by
  refine ⟨_, [⟨.noop, 6, 2, 0⟩], _, rfl, ?_⟩
  rintro ⟨hcover, -⟩
  obtain ⟨task, hmem, hx⟩ := hcover 8 (by decide) (by decide)
  obtain rfl := List.mem_singleton.mp hmem
  have hlast := (Set.mem_Ico.mp hx).2
  dsimp only at hlast
  omega

end Planning

end Xdd.Target
