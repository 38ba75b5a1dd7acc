import Xdd.Target.Coverage

/-!
# The mix of reads and writes

The loop of `xdd_init_seek_list` makes an entry a read when the truncated product of the
read/write ratio and the index has grown since the entry before. With a ratio between 0 and 1
it grows by at most one, so the number of reads so far and the last product go up together;
the value that the product is compared with at first decides the operation of the first entry.
-/

namespace Xdd.Target

/-- The reads among the first entries of a list. -/
def readsAmong (n : Nat) (seeks : List SeekEntry) : Nat :=
  (seeks.take n).countP fun e => e.operation = .read

/-- The first entry is a read from a ratio of one half on. -/
def firstRead (r : ℚ) : Int := if 1 / 2 ≤ r then 1 else 0

/-- The truncated product of an entry, reduced to its type. -/
theorem percentOp_eq {r : ℚ} (hlow : 0 ≤ r) (hhigh : r ≤ 1) {k : Nat} (hk : k < 2 ^ 31) :
    int32 (truncate (r * (k : Int))) = ⌊r * k⌋ := by
  have hnonneg : 0 ≤ r * k := mul_nonneg hlow (Nat.cast_nonneg k)
  have hle : r * k ≤ k := mul_le_of_le_one_left (Nat.cast_nonneg k) hhigh
  have hfloor : ⌊r * k⌋ ≤ k := by
    have h := Int.floor_le_floor hle
    rwa [Int.floor_natCast] at h
  have hfloor_nonneg : 0 ≤ ⌊r * k⌋ := Int.floor_nonneg.mpr hnonneg
  rw [Int.cast_natCast, truncate, if_pos hnonneg]
  exact int32_of_fits (by omega) (by omega)

/-- From one entry to the next the product grows by at most one. -/
theorem floor_succ_cases {r : ℚ} (hlow : 0 ≤ r) (hhigh : r ≤ 1) (k : Nat) :
    ⌊r * (k + 1 : Nat)⌋ = ⌊r * k⌋ ∨ ⌊r * (k + 1 : Nat)⌋ = ⌊r * k⌋ + 1 := by
  have hstep : r * (k + 1 : Nat) = r * k + r := by
    push_cast
    ring
  have hmono : ⌊r * k⌋ ≤ ⌊r * (k + 1 : Nat)⌋ := by
    apply Int.floor_le_floor
    linarith
  have hupper : ⌊r * (k + 1 : Nat)⌋ ≤ ⌊r * k⌋ + 1 := by
    rw [← Int.floor_add_one]
    apply Int.floor_le_floor
    linarith
  omega

/-- After `k` turns of the loop: the reads of all entries so far, and the last product. -/
structure Mixed (td : TargetData) (k : Nat) (st : SeekLoop) : Prop where
  opIndex : st.rwOpIndex = k
  index : st.rwIndex = k
  room : k ≤ st.seeks.length
  previous : (readsAmong k st.seeks : Int) = st.previousPercentOp + firstRead td.rwratio
  reads : ∀ j < k, (readsAmong (j + 1) st.seeks : Int) = ⌊td.rwratio * j⌋ + firstRead td.rwratio
  operations : ∀ e ∈ st.seeks.take k, e.operation = .read ∨ e.operation = .write

/-- Filling in an entry does not change the entries in front of it. -/
theorem readsAmong_set_of_le {n i : Nat} (h : n ≤ i) (seeks : List SeekEntry) (e : SeekEntry) :
    readsAmong n (seeks.set i e) = readsAmong n seeks := by
  rw [readsAmong, List.take_set_of_le h, readsAmong]

/-- One entry more. -/
theorem readsAmong_succ_set {i : Nat} {seeks : List SeekEntry} (h : i < seeks.length)
    (e : SeekEntry) :
    readsAmong (i + 1) (seeks.set i e) =
      readsAmong i seeks + if e.operation = .read then 1 else 0 := by
  have hlength : i < (seeks.set i e).length := by rwa [List.length_set]
  rw [readsAmong, List.take_succ_eq_append_getElem hlength, List.countP_append,
    List.take_set_of_le le_rfl, List.getElem_set_self, List.countP_singleton, readsAmong]
  simp

variable {td : TargetData} {throttle : Throttle} {random : Nat → ℚ} {load : TargetData → TargetData}

namespace Mixed

/-- The product of the next entry is the one before or one more. -/
theorem percentOp_cases {k : Nat} {st : SeekLoop} (h : Mixed td k st) (hlow : 0 ≤ td.rwratio)
    (hhigh : td.rwratio ≤ 1) :
    ⌊td.rwratio * k⌋ = st.previousPercentOp ∨ ⌊td.rwratio * k⌋ = st.previousPercentOp + 1 := by
  have hprevious := h.previous
  cases k with
  | zero =>
    have hfirst : firstRead td.rwratio = 0 ∨ firstRead td.rwratio = 1 := by
      unfold firstRead
      split <;> simp
    simp only [readsAmong, List.take_zero, List.countP_nil] at hprevious
    simp only [Nat.cast_zero, mul_zero, Int.floor_zero]
    omega
  | succ j =>
    have hlast : st.previousPercentOp = ⌊td.rwratio * j⌋ := by
      have hreads := h.reads j (Nat.lt_succ_self j)
      omega
    rw [hlast]
    exact floor_succ_cases hlow hhigh j

theorem step {k : Nat} {st st' : SeekLoop} (h : Mixed td k st) (hlow : 0 ≤ td.rwratio)
    (hhigh : td.rwratio ≤ 1) (hk : k < 2 ^ 31)
    (hturn : seekStep td throttle random st = .ok st') : Mixed td (k + 1) st' := by
  obtain ⟨location, draws, time1, -, hbound, hopIndex, hindex, hprevious, hseeks⟩ :=
    seekStep_inv hturn
  have hne : td.rwratio ≠ -1 := by
    intro heq
    rw [heq] at hlow
    norm_num at hlow
  have hpercent : int32 (truncate (td.rwratio * st.rwOpIndex)) = ⌊td.rwratio * k⌋ := by
    rw [h.opIndex]
    exact percentOp_eq hlow hhigh hk
  simp only [seekOperation, if_neg hne, hpercent] at hprevious hseeks
  rw [h.index] at hbound hindex hseeks
  -- the entry is a read exactly if the product has grown
  have hcount : (readsAmong (k + 1) st'.seeks : Int) = ⌊td.rwratio * k⌋ + firstRead td.rwratio := by
    rw [hseeks, readsAmong_succ_set hbound]
    have hbefore := h.previous
    have hcases := h.percentOp_cases hlow hhigh
    by_cases hgrown : ⌊td.rwratio * k⌋ > st.previousPercentOp
    · rw [if_pos hgrown, if_pos rfl]
      push_cast
      omega
    · rw [if_neg hgrown, if_neg (by simp)]
      push_cast
      omega
  refine ⟨?_, hindex, ?_, ?_, ?_, ?_⟩
  · rw [hopIndex, h.opIndex]
    rfl
  · rw [hseeks, List.length_set]
    exact hbound
  · rw [hcount, hprevious]
  · intro j hj
    rcases Nat.lt_succ_iff_lt_or_eq.mp hj with hlt | rfl
    · rw [hseeks, readsAmong_set_of_le (by omega)]
      exact h.reads j hlt
    · exact hcount
  · intro e he
    have hlength : k < st'.seeks.length := by rwa [hseeks, List.length_set]
    rw [List.take_succ_eq_append_getElem hlength, List.mem_append, List.mem_singleton] at he
    rcases he with he | rfl
    · rw [hseeks, List.take_set_of_le le_rfl] at he
      exact h.operations e he
    · simp only [hseeks, List.getElem_set_self]
      split
      · exact .inl rfl
      · exact .inr rfl

end Mixed

/-- The generated list counts its reads as the loop does. -/
theorem initSeekList_mixed {td' : TargetData} (hload : td.seekhdr.seekLoad = false)
    (hfits : td.seekhdr.totalOps < 2 ^ 31) (hlow : 0 ≤ td.rwratio) (hhigh : td.rwratio ≤ 1)
    (h : initSeekList throttle random load td = .ok td') :
    td.seekhdr.totalOps.toNat ≤ td'.seekhdr.seeks.length ∧
      (∀ j < td.seekhdr.totalOps.toNat,
        (readsAmong (j + 1) td'.seekhdr.seeks : Int) = ⌊td.rwratio * j⌋ + firstRead td.rwratio) ∧
      ∀ e ∈ td'.seekhdr.seeks.take td.seekhdr.totalOps.toNat,
        e.operation = .read ∨ e.operation = .write := by
  rw [initSeekList_generated hload] at h
  cases hloop : seekLoop td.generating throttle random td.seekhdr.totalOps.toNat
      (startLoop throttle td) with
  | error fault =>
    rw [hloop] at h
    cases h
  | ok st =>
    rw [hloop] at h
    cases h
    have hstart : Mixed td.generating 0 (startLoop throttle td) := by
      refine ⟨rfl, rfl, Nat.zero_le _, ?_, fun j hj => absurd hj (Nat.not_lt_zero j), by simp⟩
      show (0 : Int) = (if td.rwratio ≥ 1 / 2 then -1 else 0) + if 1 / 2 ≤ td.rwratio then 1 else 0
      by_cases hhalf : 1 / 2 ≤ td.rwratio
      · rw [if_pos hhalf, if_pos hhalf]
        rfl
      · rw [if_neg hhalf, if_neg hhalf]
        rfl
    have hend := seekLoop_invariant (P := Mixed td.generating) (m := td.seekhdr.totalOps.toNat)
      (fun k _ _ hk hst hturn => hst.step hlow hhigh (by omega) hturn) hloop hstart (by omega)
    rw [Nat.zero_add] at hend
    exact ⟨hend.room, hend.reads, hend.operations⟩

/-- The reads are never as far as three halves from the ratio. -/
theorem abs_reads_sub_lt {r : ℚ} (hlow : 0 ≤ r) (hhigh : r ≤ 1) (j : Nat) :
    |((⌊r * j⌋ + firstRead r : Int) : ℚ) - r * (j + 1)| < 3 / 2 := by
  have hfloor := Int.floor_le (r * j)
  have hceil := Int.lt_floor_add_one (r * j)
  rw [abs_lt, firstRead]
  split
  · push_cast
    constructor <;> linarith
  · push_cast
    constructor <;> linarith

/-- The number of reads among the first `n` entries of every generated list. -/
theorem readsAmong_eq (throttle : Throttle) (random : Nat → ℚ) (load : TargetData → TargetData)
    (td td' : TargetData) (hload : td.seekhdr.seekLoad = false)
    (hfits : td.seekhdr.totalOps < 2 ^ 31) (hlow : 0 ≤ td.rwratio) (hhigh : td.rwratio ≤ 1)
    (h : initSeekList throttle random load td = .ok td') (n : Nat) (hpos : 1 ≤ n)
    (hn : n ≤ td.seekhdr.totalOps) :
    (readsAmong n td'.seekhdr.seeks : Int) =
        ⌊td.rwratio * (n - 1)⌋ + (if 1 / 2 ≤ td.rwratio then 1 else 0) ∧
      |(readsAmong n td'.seekhdr.seeks : ℚ) - td.rwratio * n| < 3 / 2 ∧
      (td.rwratio = 1 → ∀ e ∈ td'.seekhdr.seeks.take n, e.operation = .read) ∧
      (td.rwratio = 0 → ∀ e ∈ td'.seekhdr.seeks.take n, e.operation = .write) := by
  obtain ⟨hroom, hreads, hoperations⟩ := initSeekList_mixed hload hfits hlow hhigh h
  obtain ⟨j, rfl⟩ : ∃ j, n = j + 1 := ⟨n - 1, by omega⟩
  have hcount := hreads j (by omega)
  have hj : ((j + 1 : Nat) : ℚ) - 1 = j := by
    push_cast
    ring
  rw [hj]
  refine ⟨hcount, ?_, ?_, ?_⟩
  · have hcast := congrArg (fun z : Int => (z : ℚ)) hcount
    simp only [Int.cast_natCast] at hcast
    rw [hcast, Nat.cast_add, Nat.cast_one]
    exact abs_reads_sub_lt hlow hhigh j
  · intro hone e he
    rw [hone, one_mul, Int.floor_natCast, firstRead, if_pos (by norm_num)] at hcount
    have hall : (td'.seekhdr.seeks.take (j + 1)).countP (fun e => e.operation = .read) =
        (td'.seekhdr.seeks.take (j + 1)).length := by
      rw [List.length_take, Nat.min_eq_left (by omega)]
      unfold readsAmong at hcount
      omega
    exact of_decide_eq_true (List.countP_eq_length.mp hall e he)
  · intro hzero e he
    rw [hzero, zero_mul, Int.floor_zero, firstRead, if_neg (by norm_num)] at hcount
    have hnone : (td'.seekhdr.seeks.take (j + 1)).countP (fun e => e.operation = .read) = 0 := by
      unfold readsAmong at hcount
      omega
    have hread := List.countP_eq_zero.mp hnone e he
    refine (hoperations e ?_).resolve_left fun hop => hread (decide_eq_true hop)
    exact List.take_subset_take_left _ (by omega) he

/-- Five entries with three reads in ten. -/
def mixTarget : TargetData :=
  { smallTarget 0 none with
    rwratio := 3 / 10
    seekhdr := { (smallTarget 0 none).seekhdr with
      totalOps := 5
      seeks := List.replicate 5
        { operation := .unset, reqsize := 0, blockLocation := 0, time1 := 0 } } }

theorem readsAmong_eq_fiveEntries :
    ∃ td', initSeekList noThrottle (fun _ => 0) id mixTarget = .ok td' ∧
      (readsAmong 5 td'.seekhdr.seeks : Int) = 1 := by
  have hseq : Sequential mixTarget := ⟨rfl, rfl, rfl, rfl, rfl⟩
  obtain ⟨seeks, hinit, -⟩ := initSeekList_sequential noThrottle (fun _ => 0) id hseq rfl
  obtain ⟨hreads, -⟩ := readsAmong_eq noThrottle (fun _ => 0) id mixTarget _ rfl (by decide)
    (by norm_num [mixTarget]) (by norm_num [mixTarget]) hinit 5 (by decide) (by decide)
  refine ⟨_, hinit, hreads.trans ?_⟩
  norm_num [mixTarget]

end Xdd.Target
