import Xdd.Target.Coverage

/-!
# The size of the seek list

The number of operations is planned in 64 bits and handed to the seek list through
`seek_total_ops`, which has 32 bits and a sign. The list is allocated and filled in
for that number, while the pass loop counts operations in 64 bits again. Any options of
the list are allowed here: random, staggered, interleaved and without seeks.
-/

namespace Xdd.Target

variable {td : TargetData}

/-! ## What is asked for -/

/-- The bytes of a whole request, as the planner divides by them. -/
def requestBytes (td : TargetData) : Int := uint64 (int32 (td.reqsize * td.blockSize))

/-- The bytes that are left of `B` when a copy is resumed. -/
def leftToCopy (td : TargetData) (B : Int) : Int :=
  match td.restart with
  | some ⟨true, offset⟩ => uint64 (B - offset)
  | _ => B

/-- The bytes that a target is asked to transfer in a pass. -/
def askedBytes (td : TargetData) : Int :=
  if requestBytes td = 0 then 0
  else if td.numreqs ≠ 0 then
    leftToCopy td (uint64 (int64 (td.numreqs * int32 (td.reqsize * td.blockSize))))
  else if td.bytes ≠ 0 then leftToCopy td (uint64 td.bytes)
  else 0

theorem uint64_nonneg (x : Int) : 0 ≤ uint64 x := Int.emod_nonneg _ (by norm_num)

theorem uint64_lt (x : Int) : uint64 x < 2 ^ 64 := by
  have h := Int.emod_lt_of_pos x (show (0 : Int) < (2 ^ 64 : Nat) by norm_num)
  exact h

theorem requestBytes_eq_zero_iff (td : TargetData) :
    requestBytes td = 0 ↔ int32 (td.reqsize * td.blockSize) = 0 := by
  have hlow := Int.le_bmod (x := td.reqsize * td.blockSize) (m := 2 ^ 32) (by norm_num)
  have hhigh := Int.bmod_lt (x := td.reqsize * td.blockSize) (m := 2 ^ 32) (by norm_num)
  change -(((2 ^ 32 : Nat) : Int) / 2) ≤ int32 (td.reqsize * td.blockSize) at hlow
  change int32 (td.reqsize * td.blockSize) < (((2 ^ 32 : Nat) : Int) + 1) / 2 at hhigh
  unfold requestBytes uint64 CInt.unsigned
  omega

theorem leftToCopy_bounds (td : TargetData) {B : Int} (hlow : 0 ≤ B) (hhigh : B < 2 ^ 64) :
    0 ≤ leftToCopy td B ∧ leftToCopy td B < 2 ^ 64 := by
  unfold leftToCopy
  split
  · exact ⟨uint64_nonneg _, uint64_lt _⟩
  · exact ⟨hlow, hhigh⟩

theorem resumeCopy_bytes (td : TargetData) :
    (resumeCopy td).bytesToXferPerPass = leftToCopy td td.bytesToXferPerPass := by
  cases hr : td.restart with
  | none => simp [resumeCopy, leftToCopy, hr]
  | some restart =>
      obtain ⟨resume, offset⟩ := restart
      cases resume <;> simp [resumeCopy, leftToCopy, hr]

theorem resumeCopy_frame (td : TargetData) :
    (resumeCopy td).xferSize = td.xferSize ∧ (resumeCopy td).reqsize = td.reqsize ∧
      (resumeCopy td).blockSize = td.blockSize ∧ (resumeCopy td).seekhdr = td.seekhdr := by
  unfold resumeCopy
  split
  · exact ⟨rfl, rfl, rfl, rfl⟩
  · split
    · exact ⟨rfl, rfl, rfl, rfl⟩
    · exact ⟨rfl, rfl, rfl, rfl⟩

/-- The planner computes the bytes asked for and the requests that they take, and leaves
the rest of the request and the options of the seek list alone. -/
structure Sized (td planned : TargetData) : Prop where
  bytes : planned.bytesToXferPerPass = askedBytes td
  ops : planned.targetOps = opsFor (requestBytes td) (askedBytes td)
  reqsize : planned.reqsize = td.reqsize
  blockSize : planned.blockSize = td.blockSize
  seekhdr : planned.seekhdr = td.seekhdr

theorem opsFor_zero (xfer : Int) (h : 0 ≤ xfer) : opsFor xfer 0 = 0 := by
  unfold opsFor
  rcases h.eq_or_lt with rfl | hpos
  · simp
  · exact Int.ediv_eq_zero_of_lt (by omega) (by omega)

/-- A count of bytes that has been stored goes through the shift of a resumed copy and the
division. -/
theorem sized_countOps (hxfer : requestBytes td ≠ 0) {B : Int}
    (hasked : askedBytes td = leftToCopy td B) (hlow : 0 ≤ B) (hhigh : B < 2 ^ 64) :
    Sized td (countOps (resumeCopy
      { td with xferSize := int32 (td.reqsize * td.blockSize), bytesToXferPerPass := B })) := by
  generalize hplanned : TargetData.mk _ _ _ _ _ _ _ _ _ _ _ _ _ _ _ _ _ _ _ _ = planned
  have hbytes : (resumeCopy planned).bytesToXferPerPass = askedBytes td := by
    rw [resumeCopy_bytes, hasked]
    subst hplanned
    rfl
  obtain ⟨hxferSize, hreqsize, hblockSize, hseekhdr⟩ := resumeCopy_frame planned
  have hdivisor : uint64 (resumeCopy planned).xferSize = requestBytes td := by
    rw [hxferSize]
    subst hplanned
    rfl
  have hbounds := leftToCopy_bounds td hlow hhigh
  rw [← hasked, ← hbytes] at hbounds
  have hpos : 0 < requestBytes td := lt_of_le_of_ne (uint64_nonneg _) (Ne.symm hxfer)
  rw [countOps_opsFor (hdivisor.symm ▸ hpos) hbounds.1 hbounds.2]
  subst hplanned
  exact ⟨hbytes, by rw [hdivisor, hbytes], hreqsize, hblockSize, hseekhdr⟩

theorem calculateXferInfo_sized (hfresh : td.targetOps = 0) : Sized td (calculateXferInfo td) := by
  have hnone : askedBytes td = 0 →
      Sized td { td with
        xferSize := int32 (td.reqsize * td.blockSize)
        bytesToXferPerPass := 0 } := by
    intro hasked
    refine ⟨hasked.symm, ?_, rfl, rfl, rfl⟩
    rw [hasked, opsFor_zero (requestBytes td) (uint64_nonneg _)]
    exact hfresh
  unfold calculateXferInfo
  dsimp only
  split
  · rename_i hzero
    apply hnone
    rw [askedBytes, if_pos ((requestBytes_eq_zero_iff td).mpr hzero)]
  rename_i hzero
  have hxfer : requestBytes td ≠ 0 := mt (requestBytes_eq_zero_iff td).mp hzero
  split
  · rename_i hnumreqs
    refine sized_countOps hxfer ?_ (uint64_nonneg _) (uint64_lt _)
    rw [askedBytes, if_neg hxfer, if_pos hnumreqs]
  rename_i hnumreqs
  split
  · rename_i hbytes
    refine sized_countOps hxfer ?_ (uint64_nonneg _) (uint64_lt _)
    rw [askedBytes, if_neg hxfer, if_neg hnumreqs, if_pos hbytes]
  · rename_i hbytes
    apply hnone
    rw [askedBytes, if_neg hxfer, if_neg hnumreqs, if_neg hbytes]

/-! ## What is allocated and filled in -/

/-- The first `k` entries of a seek list are filled in. -/
def Initialised (k : Nat) (seeks : List SeekEntry) : Prop :=
  ∀ i < k, ∃ entry, seeks[i]? = some entry ∧ entry.operation ≠ .unset

theorem seekOperation_ne_unset (td : TargetData) (st : SeekLoop) :
    (seekOperation td st).1 ≠ .unset := by
  unfold seekOperation
  split
  · simp
  · dsimp only
    split <;> simp

variable {throttle : Throttle} {random : Nat → ℚ} {load : TargetData → TargetData}

/-- After `k` turns of the loop the first `k` entries are filled in. -/
def Advanced (k : Nat) (st : SeekLoop) : Prop := st.rwIndex = k ∧ Initialised k st.seeks

/-- A turn of the loop fills in the next entry, whatever the options. -/
theorem Advanced.step {k : Nat} {st st' : SeekLoop} (hst : Advanced k st)
    (h : seekStep td throttle random st = .ok st') : Advanced (k + 1) st' := by
  obtain ⟨hindex, hinitialised⟩ := hst
  obtain ⟨location, draws, time1, -, hbound, -, hindex', -, hseeks⟩ := seekStep_inv h
  rw [hindex] at hbound hindex' hseeks
  refine ⟨hindex', ?_⟩
  intro i hi
  rw [hseeks]
  rcases Nat.lt_succ_iff_lt_or_eq.mp hi with hlt | rfl
  · rw [List.getElem?_set_ne (by omega)]
    exact hinitialised i hlt
  · rw [List.getElem?_set_self hbound]
    exact ⟨_, rfl, seekOperation_ne_unset td st⟩

theorem seekLoop_initialised {n : Nat} {st st' : SeekLoop}
    (h : seekLoop td throttle random n st = .ok st') (hindex : st.rwIndex = 0) :
    Initialised n st'.seeks := by
  have hstart : Advanced 0 st := ⟨hindex, fun i hi => absurd hi (Nat.not_lt_zero i)⟩
  have hend := seekLoop_invariant (fun _ _ _ _ hst hturn => Advanced.step hst hturn) h hstart le_rfl
  rw [Nat.zero_add] at hend
  exact hend.2

/-- The entries of a list that has been set up are filled in. -/
theorem targetInit_initialised (hload : td.seekhdr.seekLoad = false) {td' : TargetData}
    (h : targetInit throttle random load td = .ok td') :
    Initialised (int32 td.targetOps).toNat td'.seekhdr.seeks ∧
      td'.bytesToXferPerPass = td.bytesToXferPerPass ∧ td'.reqsize = td.reqsize ∧
      td'.blockSize = td.blockSize := by
  obtain ⟨hframe, -⟩ := targetInit_length throttle random load hload h
  refine ⟨?_, by rw [hframe], by rw [hframe], by rw [hframe]⟩
  simp only [targetInit, bind, Except.bind] at h
  split at h
  · cases h
  next allocated hallocate =>
    obtain ⟨-, hload', htotal, -⟩ := allocateSeeks_length hallocate
    rw [hload] at hload'
    split at h
    · cases h
    next listed hlist =>
      split at h
      · cases h
      · cases h
        rw [initSeekList_generated hload', htotal] at hlist
        cases hloop : seekLoop allocated.generating throttle random (int32 td.targetOps).toNat
            (startLoop throttle allocated) with
        | error fault =>
            rw [hloop] at hlist
            cases hlist
        | ok st =>
            rw [hloop] at hlist
            cases hlist
            exact seekLoop_initialised hloop rfl

/-! ## What the pass loop uses -/

/-- Every operation of a pass uses an entry that is filled in, and the loop never reads
outside the list. -/
def UsesEntries (seeks : List SeekEntry) : Except Fault (List Task × TargetData) → Prop
  | .ok (tasks, _) => ∀ task ∈ tasks, ∃ k : Nat, ∃ entry, task.opNumber = k ∧
      seeks[k]? = some entry ∧ entry.operation ≠ .unset
  | .error fault => fault ≠ .seekOutOfBounds

/-- The pass loop after `k` requests of `xfer` bytes out of `B`. -/
structure Issuing (seeks : List SeekEntry) (xfer B : Int) (k : Nat) (td : TargetData) : Prop where
  list : td.seekhdr.seeks = seeks
  request : uint64 td.xferSize = xfer
  opNumber : td.currentOpNumber = k
  nonneg : 0 ≤ td.bytesRemaining
  fits : td.bytesRemaining < 2 ^ 64
  issued : td.bytesRemaining ≠ 0 → td.bytesRemaining + k * xfer ≤ B

namespace Issuing

variable {plan : Plan} {seeks : List SeekEntry} {xfer B : Int} {k : Nat}

/-- While bytes remain, the next operation has an entry. -/
theorem entry (h : Issuing seeks xfer B k td) (hxfer : 0 < xfer)
    (hseeks : Initialised (opsFor xfer B).toNat seeks) (hremaining : td.bytesRemaining ≠ 0) :
    (k : Int) < opsFor xfer B ∧
      ∀ i ≤ k, ∃ entry, seeks[i]? = some entry ∧ entry.operation ≠ .unset := by
  have hlt : (k : Int) < opsFor xfer B := by
    rw [lt_opsFor_iff hxfer]
    have hissued := h.issued hremaining
    have hnonneg := h.nonneg
    omega
  refine ⟨hlt, ?_⟩
  intro i hi
  exact hseeks i (by omega)

theorem beforeIoOp (h : Issuing seeks xfer B k td) (plan : Plan) (hxfer : 0 < xfer)
    (hseeks : Initialised (opsFor xfer B).toNat seeks) (hremaining : td.bytesRemaining ≠ 0)
    (signals : Signals) :
    ∃ status td', beforeIoOp plan signals td = .ok (status, td') ∧
      Issuing seeks xfer B k td' ∧ td'.bytesRemaining = td.bytesRemaining := by
  have hlookup : ∃ entry, seekEntry td (if td.seekhdr.seekNone then 0 else td.currentOpNumber) =
      .ok entry := by
    obtain ⟨-, hentries⟩ := h.entry hxfer hseeks hremaining
    rw [h.opNumber]
    cases td.seekhdr.seekNone with
    | true =>
        obtain ⟨entry, hentry, -⟩ := hentries 0 (Nat.zero_le k)
        exact ⟨entry, by simp [seekEntry, h.list, hentry]⟩
    | false =>
        obtain ⟨entry, hentry, -⟩ := hentries k le_rfl
        exact ⟨entry, by simp [seekEntry, h.list, hentry]⟩
  obtain ⟨entry, hentry⟩ := hlookup
  have hkeep : ∀ td' : TargetData, td'.seekhdr = td.seekhdr → td'.xferSize = td.xferSize →
      td'.currentOpNumber = td.currentOpNumber → td'.bytesRemaining = td.bytesRemaining →
      Issuing seeks xfer B k td' := by
    intro td' hseekhdr hsize hnumber hbytes
    exact ⟨hseekhdr ▸ h.list, hsize ▸ h.request, hnumber ▸ h.opNumber, hbytes ▸ h.nonneg,
      hbytes ▸ h.fits, hbytes ▸ h.issued⟩
  unfold Target.beforeIoOp
  split
  · exact ⟨_, _, rfl, hkeep _ rfl rfl rfl rfl, rfl⟩
  split
  · exact ⟨_, _, rfl, hkeep _ rfl rfl rfl rfl, rfl⟩
  simp only [hentry, bind, Except.bind]
  split
  · exact ⟨_, _, rfl, hkeep _ rfl rfl rfl rfl, rfl⟩
  split
  · exact ⟨_, _, rfl, hkeep _ rfl rfl rfl rfl, rfl⟩
  · exact ⟨_, _, rfl, hkeep _ rfl rfl rfl rfl, rfl⟩

theorem passTaskSetup (h : Issuing seeks xfer B k td) (hxfer : 0 < xfer)
    (hseeks : Initialised (opsFor xfer B).toNat seeks) (hops : opsFor xfer B < 2 ^ 31)
    (hremaining : td.bytesRemaining ≠ 0) :
    ∃ task td', passTaskSetup td = .ok (task, td') ∧ task.opNumber = k ∧
      Issuing seeks xfer B (k + 1) td' := by
  obtain ⟨hlt, hentries⟩ := h.entry hxfer hseeks hremaining
  obtain ⟨entry, hentry, -⟩ := hentries k le_rfl
  have hlookup : seekEntry td td.currentOpNumber = .ok entry := by
    unfold seekEntry
    rw [h.list, h.opNumber]
    simp [hentry]
  have hnonneg := h.nonneg
  have hfits := h.fits
  have hissued := h.issued hremaining
  simp only [Target.passTaskSetup, hlookup, bind, Except.bind, h.request]
  refine ⟨_, _, rfl, h.opNumber, h.list, h.request, ?_, uint64_nonneg _, uint64_lt _, ?_⟩
  · simp only [h.opNumber]
    rw [uint64_of_fits (by omega) (by omega)]
    rfl
  · -- what remains after the request is a whole request less, or nothing
    dsimp only
    split
    · intro hleft
      exact absurd (by simp [uint64, CInt.unsigned]) hleft
    · rename_i hwhole
      intro _
      rw [uint64_of_fits (by omega) (by omega)]
      push_cast
      linarith

theorem passLoop (h : Issuing seeks xfer B k td) (hxfer : 0 < xfer)
    (hseeks : Initialised (opsFor xfer B).toNat seeks) (hops : opsFor xfer B < 2 ^ 31)
    (fuel : Nat) (signals : Nat → Signals) :
    UsesEntries seeks (passLoop plan fuel signals td) := by
  induction fuel generalizing k td signals with
  | zero =>
      unfold Target.passLoop
      split
      · intro task htask
        cases htask
      · simp [UsesEntries]
  | succ fuel ih =>
      unfold Target.passLoop
      split
      · intro task htask
        cases htask
      rename_i hremaining
      obtain ⟨status, td₁, hbefore, h₁, hbytes⟩ :=
        h.beforeIoOp plan hxfer hseeks hremaining (signals 0)
      rw [← hbytes] at hremaining
      simp only [hbefore, bind, Except.bind]
      cases status with
      | bad =>
          intro task htask
          cases htask
      | good =>
          obtain ⟨task, td₂, hsetup, hnumber, h₂⟩ :=
            h₁.passTaskSetup hxfer hseeks hops hremaining
          have hrest := ih h₂ fun n => signals (n + 1)
          obtain ⟨entry, hentry, hset⟩ := (h₁.entry hxfer hseeks hremaining).2 k le_rfl
          simp only [hsetup]
          cases hloop : Target.passLoop plan fuel (fun n => signals (n + 1)) td₂ with
          | error fault =>
              rw [hloop] at hrest
              exact hrest
          | ok result =>
              rw [hloop] at hrest
              intro other hother
              rcases List.mem_cons.mp hother with rfl | hother
              · exact ⟨k, entry, hnumber, hentry, hset⟩
              · exact hrest other hother

end Issuing

/-- The seek list of a planned target has an entry for every operation: the number of
entries planned and allocated is the number of operations, and every operation of a pass
over a list that could be set up uses an entry that is filled in. -/
structure SeekListComplete (td : TargetData) : Prop where
  allocated : ∃ td', allocateSeeks td = .ok td' ∧ td'.seekhdr.totalOps = td.targetOps ∧
    (td'.seekhdr.seeks.length : Int) = td.targetOps
  used : ∀ throttle random load td', targetInit throttle random load td = .ok td' →
    ∀ start, initTargetDataBeforePass td' = .ok start →
      ∀ plan fuel signals, UsesEntries td'.seekhdr.seeks (passLoop plan fuel signals start)

/-- The number of entries is right exactly when the count fits the header's field. -/
theorem allocateSeeks_eq_iff (hops : 0 ≤ td.targetOps) :
    (∃ td', allocateSeeks td = .ok td' ∧ td'.seekhdr.totalOps = td.targetOps ∧
      (td'.seekhdr.seeks.length : Int) = td.targetOps) ↔ td.targetOps < 2 ^ 31 := by
  constructor
  · rintro ⟨td', hok, htotal, -⟩
    unfold allocateSeeks at hok
    dsimp only at hok
    split at hok
    · cases hok
    · cases hok
      have hhigh := Int.bmod_lt (x := td.targetOps) (m := 2 ^ 32) (by norm_num)
      change int32 td.targetOps < _ at hhigh
      change int32 td.targetOps = td.targetOps at htotal
      omega
  · intro hfits
    have htotal : int32 td.targetOps = td.targetOps := int32_of_fits (by omega) hfits
    unfold allocateSeeks
    rw [htotal, if_neg (not_lt.mpr hops)]
    refine ⟨_, rfl, rfl, ?_⟩
    simp [hops]

/-- The first state of the pass loop. -/
theorem issuing_resetPassVariables {td' : TargetData}
    (hsized : td'.bytesToXferPerPass = askedBytes td) (hreqsize : td'.reqsize = td.reqsize)
    (hblockSize : td'.blockSize = td.blockSize) (hlow : 0 ≤ askedBytes td)
    (hhigh : askedBytes td < 2 ^ 64) :
    Issuing td'.seekhdr.seeks (requestBytes td) (askedBytes td) 0
      (resetPassVariables td') := by
  refine ⟨rfl, ?_, rfl, ?_, ?_, ?_⟩
  · simp [resetPassVariables, requestBytes, hreqsize, hblockSize]
  · exact hlow.trans_eq hsized.symm
  · exact lt_of_eq_of_lt hsized hhigh
  · intro _
    simp [resetPassVariables, hsized]

theorem askedBytes_bounds (td : TargetData) : 0 ≤ askedBytes td ∧ askedBytes td < 2 ^ 64 := by
  unfold askedBytes
  split
  · norm_num
  split
  · exact leftToCopy_bounds td (uint64_nonneg _) (uint64_lt _)
  split
  · exact leftToCopy_bounds td (uint64_nonneg _) (uint64_lt _)
  · norm_num

/-- The seek list has an entry for every operation if and only if the bytes asked for are
at most `2 ^ 31 - 1` requests. -/
theorem seekListComplete_iff (hfresh : td.targetOps = 0) (hload : td.seekhdr.seekLoad = false) :
    SeekListComplete (calculateXferInfo td) ↔
      askedBytes td ≤ (2 ^ 31 - 1) * requestBytes td := by
  have hsized := calculateXferInfo_sized hfresh
  obtain ⟨hlow, hhigh⟩ := askedBytes_bounds td
  have hrequest : 0 ≤ requestBytes td := uint64_nonneg _
  have hzero : requestBytes td = 0 → askedBytes td = 0 := by
    intro h
    rw [askedBytes, if_pos h]
  have hops : 0 ≤ opsFor (requestBytes td) (askedBytes td) := by
    rcases hrequest.eq_or_lt with h | h
    · simp [hzero h.symm, opsFor_zero _ hrequest]
    · exact Int.ediv_nonneg (by omega) hrequest
  have hfits : opsFor (requestBytes td) (askedBytes td) < 2 ^ 31 ↔
      askedBytes td ≤ (2 ^ 31 - 1) * requestBytes td := by
    rcases hrequest.eq_or_lt with h | h
    · rw [hzero h.symm, opsFor_zero _ hrequest, ← h]
      norm_num
    · have hlast := lt_opsFor_iff (B := askedBytes td) h (2 ^ 31 - 1)
      push_cast at hlast
      omega
  rw [← hfits]
  constructor
  · intro hcomplete
    have hallocated := (allocateSeeks_eq_iff (hsized.ops.symm ▸ hops)).mp hcomplete.allocated
    rwa [hsized.ops] at hallocated
  · intro hbound
    refine ⟨?_, ?_⟩
    · apply (allocateSeeks_eq_iff (hsized.ops.symm ▸ hops)).mpr
      rwa [hsized.ops]
    · intro throttle random load td' hinit start hstart plan fuel signals
      have hreset := initTargetDataBeforePass_eq_ok hstart
      subst hreset
      obtain ⟨hseeks, hbytes, hreqsize, hblockSize⟩ :=
        targetInit_initialised (by rw [hsized.seekhdr, hload]) hinit
      rw [hsized.ops, int32_of_fits (by omega) hbound] at hseeks
      have hissuing := issuing_resetPassVariables (hbytes.trans hsized.bytes)
        (hreqsize.trans hsized.reqsize) (hblockSize.trans hsized.blockSize) hlow hhigh
      rcases hrequest.eq_or_lt with h | h
      · -- nothing to transfer: the loop ends at once
        have hnone : (resetPassVariables td').bytesRemaining = 0 := by
          rw [← hzero h.symm, ← hsized.bytes, ← hbytes]
          rfl
        cases fuel <;>
          · unfold passLoop
            rw [if_pos hnone]
            intro task htask
            cases htask
      · exact hissuing.passLoop h hseeks hbound fuel signals

theorem seekListComplete_iff_full :
    SeekListComplete (calculateXferInfo (byteTarget (2 ^ 31 - 1))) :=
  (seekListComplete_iff rfl rfl).mpr (by decide +kernel)

/-- `2 ^ 32 + 1` requests are planned and one entry is allocated. The second request of
the pass reads behind the end of the list. -/
theorem seekList_too_short : ¬ SeekListComplete (calculateXferInfo (byteTarget (2 ^ 32 + 1))) ∧
    (calculateXferInfo (byteTarget (2 ^ 32 + 1))).targetOps = 2 ^ 32 + 1 ∧
    ∃ td', targetInit noThrottle (fun _ => 0) id
        (calculateXferInfo (byteTarget (2 ^ 32 + 1))) = .ok td' ∧
      td'.seekhdr.totalOps = 1 ∧
      runPass ⟨0⟩ noThrottle (fun _ => 0) id 2 (fun _ => .quiet)
          (calculateXferInfo (byteTarget (2 ^ 32 + 1))) =
        .error .seekOutOfBounds := by
  refine ⟨?_, by decide +kernel, _, rfl, rfl, by decide +kernel⟩
  intro hcomplete
  have hfits := (allocateSeeks_eq_iff (by decide +kernel)).mp hcomplete.allocated
  exact absurd hfits (by decide +kernel)

end Xdd.Target
