import Xdd.Target.Coverage

/-!
# Staggered seek lists

With `SO_SEEK_STAGGER` the entries are a request and a gap apart. The gap spreads the rest of
the range over the entries, but it is a division by the number of entries less one, it reserves
room for one request too many, and a stride replaces it whatever the range. All products and
sums are reduced to the widths of their types.
-/

namespace Xdd.Target

/-- A staggered list without interleave of `n` entries that would fit into the range, with
fields of their types. -/
structure StaggerInput (td : TargetData) : Prop where
  generated : td.seekhdr.seekLoad = false
  notRandom : td.seekhdr.seekRandom = false
  staggered : td.seekhdr.seekStagger = true
  interleave : td.seekhdr.interleave = 1
  ops : 1 ≤ td.seekhdr.totalOps ∧ td.seekhdr.totalOps < 2 ^ 31
  allocated : td.seekhdr.seeks.length = td.seekhdr.totalOps.toNat
  reqsize : 0 < td.reqsize ∧ td.reqsize < 2 ^ 31
  stride : -2 ^ 31 ≤ td.seekhdr.stride ∧ td.seekhdr.stride < 2 ^ 31
  range : td.seekhdr.range < 2 ^ 63
  start : 0 ≤ td.startOffset ∧ td.startOffset < 2 ^ 63
  fits : td.seekhdr.totalOps * td.reqsize ≤ td.seekhdr.range

/-- The list is made, its locations are increasing and a request apart, and every request lies
in the range behind the start offset. -/
def SpacedInRange (td : TargetData) (result : Except Fault TargetData) : Prop :=
  ∃ td', result = .ok td' ∧ ∃ loc : Nat → Int,
    (∀ i : Nat, i < td.seekhdr.totalOps →
      (td'.seekhdr.seeks[i]?).map (·.blockLocation) = some (loc i) ∧
      td.startOffset ≤ loc i ∧ loc i + td.reqsize ≤ td.startOffset + td.seekhdr.range) ∧
    ∀ i j : Nat, i < j → j < td.seekhdr.totalOps → loc i < loc j ∧ loc i + td.reqsize ≤ loc j

/-! ## Locations at a fixed distance -/

/-- Reduced sums that stay near each other differ by what was added. -/
theorem uint64_add_eq {x D : Int} (hx : 0 ≤ x ∧ x < 2 ^ 64) (hD : 0 ≤ D ∧ D < 2 ^ 63)
    (hgrows : x < uint64 (x + D)) : uint64 (x + D) = x + D := by
  simp only [uint64, CInt.unsigned] at hgrows ⊢
  omega

/-- Increasing locations in the range have not been reduced. -/
theorem location_eq {start D range reqsize : Int} {n : Nat} (hstart : 0 ≤ start ∧ start < 2 ^ 63)
    (hrange : range < 2 ^ 63) (hreqsize : 0 < reqsize) (hD : 0 ≤ D ∧ D < 2 ^ 63)
    (hin : ∀ i : Nat, i < n → uint64 (start + i * D) + reqsize ≤ start + range)
    (hapart : ∀ i : Nat, i + 1 < n →
      uint64 (start + i * D) + reqsize ≤ uint64 (start + (i + 1 : Nat) * D)) :
    ∀ i : Nat, i < n → uint64 (start + i * D) = start + i * D := by
  intro i
  induction i with
  | zero =>
    intro _
    rw [Nat.cast_zero, zero_mul, add_zero]
    exact uint64_of_fits hstart.1 (by omega)
  | succ i ih =>
    intro hi
    have hprevious := ih (by omega)
    have hnonneg : 0 ≤ (i : Int) * D := mul_nonneg (Int.natCast_nonneg i) hD.1
    have hbound := hin i (by omega)
    have hgrows := hapart i hi
    have hsum : start + (i + 1 : Nat) * D = start + i * D + D := by
      push_cast
      ring
    rw [hsum] at hgrows ⊢
    rw [hprevious] at hbound hgrows
    exact uint64_add_eq (by omega) hD (by omega)

/-- Locations at the distance `D`, reduced to 64 bits, are a request apart and in the range
exactly if the distance is at least a request and the last one is in the range. -/
theorem spaced_iff {start D range reqsize : Int} {n : Nat} (hstart : 0 ≤ start ∧ start < 2 ^ 63)
    (hrange : range < 2 ^ 63) (hreqsize : 0 < reqsize) (hn : 2 ≤ n)
    (hD : -2 ^ 63 < D ∧ D < 2 ^ 64) :
    ((∀ i : Nat, i < n → start ≤ uint64 (start + i * D) ∧
        uint64 (start + i * D) + reqsize ≤ start + range) ∧
      ∀ i j : Nat, i < j → j < n → uint64 (start + i * D) + reqsize ≤ uint64 (start + j * D)) ↔
    reqsize ≤ D ∧ ((n : Int) - 1) * D + reqsize ≤ range := by
  constructor
  · rintro ⟨hin, hapart⟩
    -- the first step shows that the distance is between a request and the range
    have hfirst : start + reqsize ≤ uint64 (start + D) := by
      have h := hapart 0 1 (by omega) (by omega)
      rwa [Nat.cast_zero, zero_mul, add_zero, Nat.cast_one, one_mul,
        uint64_of_fits hstart.1 (by omega)] at h
    have hsecond : uint64 (start + D) + reqsize ≤ start + range := by
      have h := (hin 1 (by omega)).2
      rwa [Nat.cast_one, one_mul] at h
    have hdistance : reqsize ≤ D ∧ D < 2 ^ 63 := by
      simp only [uint64, CInt.unsigned] at hfirst hsecond
      omega
    have hlast := location_eq hstart hrange hreqsize (n := n) ⟨by omega, hdistance.2⟩
      (fun i hi => (hin i hi).2) (fun i hi => hapart i (i + 1) (Nat.lt_succ_self i) hi)
      (n - 1) (by omega)
    have hbound := (hin (n - 1) (by omega)).2
    rw [hlast, Nat.cast_sub (by omega), Nat.cast_one] at hbound
    exact ⟨hdistance.1, by omega⟩
  · rintro ⟨hdistance, hlast⟩
    have hupto : ∀ i : Nat, i < n → (i : Int) * D ≤ ((n : Int) - 1) * D := fun i hi =>
      mul_le_mul_of_nonneg_right (by omega) (by omega)
    have heq : ∀ i : Nat, i < n → uint64 (start + i * D) = start + i * D := by
      intro i hi
      have hnonneg : 0 ≤ (i : Int) * D := mul_nonneg (Int.natCast_nonneg i) (by omega)
      have hle := hupto i hi
      exact uint64_of_fits (by omega) (by omega)
    refine ⟨?_, ?_⟩
    · intro i hi
      have hnonneg : 0 ≤ (i : Int) * D := mul_nonneg (Int.natCast_nonneg i) (by omega)
      have hle := hupto i hi
      rw [heq i hi]
      omega
    · intro i j hij hj
      rw [heq i (by omega), heq j hj]
      have hstep : ((i : Int) + 1) * D ≤ j * D :=
        mul_le_mul_of_nonneg_right (by omega) (by omega)
      rw [add_mul, one_mul] at hstep
      omega

/-! ## The distance of a staggered list -/

/-- A factor may be reduced before it is multiplied. -/
theorem uint64_add_mul_int64 (a k y : Int) : uint64 (a + k * int64 y) = uint64 (a + k * y) := by
  have hcongr : int64 y ≡ y [ZMOD (2 ^ 64 : Nat)] := Int.bmod_emod
  exact (hcongr.mul_left k).add_left a

/-- The gap before it is stored. -/
def rawGap (td : TargetData) : Int :=
  if td.seekhdr.stride > td.reqsize then td.seekhdr.stride - td.reqsize
  else ((td.seekhdr.range - td.reqsize) - int32 (td.seekhdr.totalOps * td.reqsize)).tdiv
    (td.seekhdr.totalOps - 1)

/-- The location of an entry. -/
def staggeredLocation (td : TargetData) (k : Nat) : Int :=
  uint64 (td.startOffset + k * (td.reqsize + rawGap td))

variable {td : TargetData} (throttle : Throttle) (random : Nat → ℚ) (load : TargetData → TargetData)

namespace StaggerInput

theorem gap_eq (h : StaggerInput td) (hops : td.seekhdr.totalOps ≠ 1) :
    gap td.generating = .ok (int64 (rawGap td)) := by
  have hdivisor : td.seekhdr.totalOps - 1 ≠ 0 := by omega
  simp only [gap, staggerGap, TargetData.generating, h.staggered, if_true, if_neg hdivisor, rawGap]
  split
  · rfl
  · rfl

theorem seekLocation_eq (h : StaggerInput td) (hops : td.seekhdr.totalOps ≠ 1) {k : Nat}
    {st : SeekLoop} (hk : st.rwOpIndex = k) :
    seekLocation td.generating random st = .ok (staggeredLocation td k, st.draws) := by
  have hreqsize : int32 (td.reqsize * td.seekhdr.interleave) = td.reqsize := by
    rw [h.interleave, mul_one]
    exact int32_of_fits (by have := h.reqsize; omega) h.reqsize.2
  have hlocation : uint64 (int64 (td.startOffset + 0 +
      int64 (k * int64 (td.reqsize + int64 (rawGap td))))) = staggeredLocation td k := by
    have hinner : (k : Int) * (td.reqsize + int64 (rawGap td)) =
        k * td.reqsize + k * int64 (rawGap td) := by ring
    have houter : td.startOffset + k * (td.reqsize + rawGap td) =
        td.startOffset + k * td.reqsize + k * rawGap td := by ring
    rw [add_zero, staggeredLocation, houter, ← uint64_add_mul_int64, add_assoc, ← hinner,
      ← uint64_add_mul_int64]
    simp only [uint64, int64, CInt.unsigned_signed, CInt.unsigned_add_signed]
  have hnone : ¬ (1 : Int) > 1 := by omega
  unfold seekLocation
  rw [h.gap_eq hops]
  simp only [TargetData.generating, h.notRandom, hk, Bool.false_eq_true, if_false, bind,
    Except.bind, hreqsize]
  rw [h.interleave, if_neg hnone, hlocation]

/-- The division by zero of a list with one entry. -/
theorem initSeekList_one (h : StaggerInput td) (hone : td.seekhdr.totalOps = 1) :
    initSeekList throttle random load td = .error .divideByZero := by
  have hgap : gap td.generating = .error .divideByZero := by
    simp [gap, staggerGap, TargetData.generating, h.staggered, hone]
  have hlocation : seekLocation td.generating random (startLoop throttle td) =
      .error .divideByZero := by
    unfold seekLocation
    rw [hgap]
    simp [TargetData.generating, h.notRandom, bind, Except.bind]
  rw [initSeekList_generated h.generated, hone]
  show Except.map _ (seekLoop _ _ _ 1 _) = _
  simp [seekLoop, seekStep, hlocation, bind, Except.bind, Except.map]

/-- A list with more entries is made. -/
theorem initSeekList_located (h : StaggerInput td) (hops : td.seekhdr.totalOps ≠ 1) :
    ∃ td', initSeekList throttle random load td = .ok td' ∧
      ∀ i : Nat, i < td.seekhdr.totalOps →
        (td'.seekhdr.seeks[i]?).map (·.blockLocation) = some (staggeredLocation td i) := by
  have hstart : Located (staggeredLocation td) td.seekhdr.totalOps.toNat 0
      (startLoop throttle td) :=
    ⟨rfl, rfl, h.allocated, fun i hi => absurd hi (Nat.not_lt_zero i)⟩
  have hlocation : ∀ k < td.seekhdr.totalOps.toNat, ∀ st : SeekLoop, st.rwOpIndex = k →
      ∃ draws, seekLocation td.generating random st = .ok (staggeredLocation td k, draws) :=
    fun k _ st hopIndex => ⟨st.draws, h.seekLocation_eq random hops hopIndex⟩
  obtain ⟨st, hloop, hst⟩ := seekLoop_located throttle random hlocation hstart
    (n := td.seekhdr.totalOps.toNat) (by omega)
  rw [initSeekList_generated h.generated, hloop]
  refine ⟨_, rfl, ?_⟩
  intro i hi
  exact hst.location i (by omega)

/-- The distance is not too far from zero to be told from its reduction. -/
theorem distance_bounds (h : StaggerInput td) :
    -2 ^ 63 < td.reqsize + rawGap td ∧ td.reqsize + rawGap td < 2 ^ 64 := by
  have hreqsize := h.reqsize
  have hstride := h.stride
  have hrange := h.range
  have hn := h.ops
  have hpos : 0 < td.seekhdr.totalOps * td.reqsize := mul_pos (by omega) hreqsize.1
  have hfits := h.fits
  unfold rawGap
  split
  · omega
  · have hlow := Int.le_bmod (x := td.seekhdr.totalOps * td.reqsize) (m := 2 ^ 32) (by decide)
    have hhigh := Int.bmod_lt (x := td.seekhdr.totalOps * td.reqsize) (m := 2 ^ 32) (by decide)
    simp only [int32, CInt.signed]
    generalize (td.seekhdr.totalOps * td.reqsize).bmod (2 ^ 32) = w at hlow hhigh ⊢
    have hnatAbs := Int.natAbs_tdiv_le_natAbs (td.seekhdr.range - td.reqsize - w)
      (td.seekhdr.totalOps - 1)
    by_cases hrest : 0 ≤ td.seekhdr.range - td.reqsize - w
    · have hquotient := Int.tdiv_nonneg hrest (show 0 ≤ td.seekhdr.totalOps - 1 by omega)
      omega
    · omega

end StaggerInput

/-! ## When the list stays in range -/

/-- The quotient of the rest of the range, if it is computed without overflow. -/
theorem quotient_iff {n reqsize range : Int} (hn : 2 ≤ n) (hreqsize : 0 < reqsize)
    (hfits : n * reqsize ≤ range) :
    (0 ≤ (range - reqsize - n * reqsize).tdiv (n - 1) ∧
      (n - 1) * (range - reqsize - n * reqsize).tdiv (n - 1) + n * reqsize ≤ range) ↔
    (n + 1) * reqsize < range + n - 1 := by
  have hexpand : (n + 1) * reqsize = n * reqsize + reqsize := by ring
  rw [hexpand]
  generalize hproduct : n * reqsize = product at hfits ⊢
  have hdivision := Int.mul_tdiv_add_tmod (range - reqsize - product) (n - 1)
  have hmod := Int.tmod_lt_of_pos (range - reqsize - product) (show 0 < n - 1 by omega)
  have hmod' := Int.lt_tmod_of_pos (range - reqsize - product) (show 0 < n - 1 by omega)
  constructor
  · rintro ⟨hquotient, -⟩
    have hnonneg : 0 ≤ (n - 1) * (range - reqsize - product).tdiv (n - 1) :=
      mul_nonneg (by omega) hquotient
    omega
  · intro hlarge
    by_cases hrest : 0 ≤ range - reqsize - product
    · have hquotient := Int.tdiv_nonneg hrest (show 0 ≤ n - 1 by omega)
      have hremainder := Int.tmod_nonneg (n - 1) hrest
      exact ⟨hquotient, by omega⟩
    · -- the rest is negative but not a whole divisor below zero
      have hzero : (range - reqsize - product).tdiv (n - 1) = 0 := by
        have hneg := Int.tdiv_eq_zero_of_lt (a := -(range - reqsize - product)) (b := n - 1)
          (by omega) (by omega)
        rw [Int.neg_tdiv] at hneg
        omega
      rw [hzero, mul_zero]
      exact ⟨le_rfl, by omega⟩

/-- A product that does not fit makes the gap too large. -/
theorem quotient_overflow {n reqsize range : Int} (hn : 2 ≤ n ∧ n < 2 ^ 31)
    (hreqsize : 0 < reqsize ∧ reqsize < 2 ^ 31) (hlarge : 2 ^ 31 ≤ n * reqsize) :
    ¬ (n - 1) * (range - reqsize - int32 (n * reqsize)).tdiv (n - 1) + n * reqsize ≤ range := by
  have hreduced : int32 (n * reqsize) ≤ n * reqsize - 2 ^ 32 := by
    have hhigh := Int.bmod_lt (x := n * reqsize) (m := 2 ^ 32) (by decide)
    have hcongr : (n * reqsize).bmod (2 ^ 32) % (2 ^ 32 : Nat) = n * reqsize % (2 ^ 32 : Nat) :=
      Int.bmod_emod
    simp only [int32, CInt.signed]
    omega
  have hdivision := Int.mul_tdiv_add_tmod (range - reqsize - int32 (n * reqsize)) (n - 1)
  have hmod := Int.tmod_lt_of_pos (range - reqsize - int32 (n * reqsize)) (show 0 < n - 1 by omega)
  omega

/-- A list with more entries stays in range exactly if its distance is not less than a request and
the last request is still in the range. -/
theorem StaggerInput.spacedInRange_iff_distance {td : TargetData} (h : StaggerInput td)
    (throttle : Throttle) (random : Nat → ℚ) (load : TargetData → TargetData)
    (hone : td.seekhdr.totalOps ≠ 1) :
    SpacedInRange td (initSeekList throttle random load td) ↔
      td.reqsize ≤ td.reqsize + rawGap td ∧
        (td.seekhdr.totalOps - 1) * (td.reqsize + rawGap td) + td.reqsize ≤ td.seekhdr.range := by
  have hn := h.ops
  have hreqsize := h.reqsize
  obtain ⟨td', hinit, hlocations⟩ := h.initSeekList_located throttle random load hone
  have hcast : ((td.seekhdr.totalOps.toNat : Nat) : Int) = td.seekhdr.totalOps := by omega
  have hspaced := spaced_iff (n := td.seekhdr.totalOps.toNat) h.start h.range hreqsize.1 (by omega)
    h.distance_bounds
  rw [hcast] at hspaced
  rw [← hspaced]
  constructor
  · rintro ⟨td'', hresult, loc, hin, hapart⟩
    rw [hinit] at hresult
    cases hresult
    have hloc : ∀ i : Nat, i < td.seekhdr.totalOps.toNat →
        loc i = uint64 (td.startOffset + i * (td.reqsize + rawGap td)) := by
      intro i hi
      have hsame := (hin i (by omega)).1
      rw [hlocations i (by omega)] at hsame
      exact (Option.some.inj hsame).symm
    refine ⟨?_, ?_⟩
    · intro i hi
      rw [← hloc i hi]
      exact (hin i (by omega)).2
    · intro i j hij hj
      rw [← hloc i (by omega), ← hloc j hj]
      exact (hapart i j hij (by omega)).2
  · rintro ⟨hin, hapart⟩
    refine ⟨td', hinit, staggeredLocation td, ?_, ?_⟩
    · intro i hi
      exact ⟨hlocations i hi, hin i (by omega)⟩
    · intro i j hij hj
      have hstep : staggeredLocation td i + td.reqsize ≤ staggeredLocation td j :=
        hapart i j hij (by omega)
      exact ⟨by omega, hstep⟩

/-- The distance in terms of the stride or of the quotient. -/
theorem StaggerInput.distance_iff {td : TargetData} (h : StaggerInput td)
    (htwo : 2 ≤ td.seekhdr.totalOps) :
    (td.reqsize ≤ td.reqsize + rawGap td ∧
        (td.seekhdr.totalOps - 1) * (td.reqsize + rawGap td) + td.reqsize ≤ td.seekhdr.range) ↔
      if td.seekhdr.stride > td.reqsize then
        (td.seekhdr.totalOps - 1) * td.seekhdr.stride + td.reqsize ≤ td.seekhdr.range
      else
        td.seekhdr.totalOps * td.reqsize < 2 ^ 31 ∧
          (td.seekhdr.totalOps + 1) * td.reqsize < td.seekhdr.range + td.seekhdr.totalOps - 1 := by
  have hreqsize := h.reqsize
  unfold rawGap
  split
  · have hsum : td.reqsize + (td.seekhdr.stride - td.reqsize) = td.seekhdr.stride := by ring
    rw [hsum]
    exact and_iff_right (by omega)
  · have hlast : ∀ q : Int, (td.seekhdr.totalOps - 1) * (td.reqsize + q) + td.reqsize =
        (td.seekhdr.totalOps - 1) * q + td.seekhdr.totalOps * td.reqsize := by
      intro q
      ring
    rw [hlast, le_add_iff_nonneg_right]
    by_cases hproduct : td.seekhdr.totalOps * td.reqsize < 2 ^ 31
    · have hnonneg : 0 ≤ td.seekhdr.totalOps * td.reqsize := mul_nonneg (by omega) hreqsize.1.le
      rw [int32_of_fits (by omega) hproduct, and_iff_right hproduct]
      exact quotient_iff htwo hreqsize.1 h.fits
    · refine iff_of_false ?_ fun hcondition => hproduct hcondition.1
      rintro ⟨-, hin⟩
      exact quotient_overflow ⟨htwo, h.ops.2⟩ hreqsize (not_lt.mp hproduct) hin

/-- A staggered list is made and stays in range exactly if it has more than one entry and
either a stride with which the last request is still in the range, or no stride, a product that
fits its type, and room for nearly one request more than there are. -/
theorem spacedInRange_iff (throttle : Throttle) (random : Nat → ℚ)
    (load : TargetData → TargetData) (td : TargetData) (h : StaggerInput td) :
    SpacedInRange td (initSeekList throttle random load td) ↔
      td.seekhdr.totalOps ≠ 1 ∧
        if td.seekhdr.stride > td.reqsize then
          (td.seekhdr.totalOps - 1) * td.seekhdr.stride + td.reqsize ≤ td.seekhdr.range
        else
          td.seekhdr.totalOps * td.reqsize < 2 ^ 31 ∧
            (td.seekhdr.totalOps + 1) * td.reqsize < td.seekhdr.range + td.seekhdr.totalOps - 1 := by
  have hn := h.ops
  by_cases hone : td.seekhdr.totalOps = 1
  · rw [h.initSeekList_one throttle random load hone]
    refine iff_of_false ?_ fun hcondition => hcondition.1 hone
    rintro ⟨td', herror, -⟩
    cases herror
  · rw [h.spacedInRange_iff_distance throttle random load hone, and_iff_right hone]
    exact h.distance_iff (by omega)

/-- Three entries of ten blocks. -/
def staggeredTarget (ops range stride : Int) : TargetData :=
  { smallTarget 0 none with
    reqsize := 10
    startOffset := 5
    seekhdr := { (smallTarget 0 none).seekhdr with
      seekStagger := true
      range := range
      stride := stride
      totalOps := ops
      seeks := List.replicate ops.toNat
        { operation := .unset, reqsize := 0, blockLocation := 0, time1 := 0 } } }

theorem spacedInRange_threeEntries :
    SpacedInRange (staggeredTarget 3 100 0)
      (initSeekList noThrottle (fun _ => 0) id (staggeredTarget 3 100 0)) := by
  apply (spacedInRange_iff noThrottle (fun _ => 0) id (staggeredTarget 3 100 0)
    ⟨rfl, rfl, rfl, rfl, by decide, rfl, by decide, by decide, by decide, by decide, by decide⟩).mpr
  decide

theorem staggerInput_one : StaggerInput (staggeredTarget 1 100 0) :=
  ⟨rfl, rfl, rfl, rfl, by decide, rfl, by decide, by decide, by decide, by decide, by decide⟩

theorem staggerInput_stride : StaggerInput (staggeredTarget 3 100 50) :=
  ⟨rfl, rfl, rfl, rfl, by decide, rfl, by decide, by decide, by decide, by decide, by decide⟩

/-- One entry is a division by zero; three entries at a stride of fifty leave the range of a
hundred blocks. -/
theorem staggered_fails :
    initSeekList noThrottle (fun _ => 0) id (staggeredTarget 1 100 0) = .error .divideByZero ∧
    ¬ SpacedInRange (staggeredTarget 1 100 0)
      (initSeekList noThrottle (fun _ => 0) id (staggeredTarget 1 100 0)) ∧
    ¬ SpacedInRange (staggeredTarget 3 100 50)
      (initSeekList noThrottle (fun _ => 0) id (staggeredTarget 3 100 50)) := by
  have hone := staggerInput_one.initSeekList_one noThrottle (fun _ => 0) id rfl
  refine ⟨hone, ?_, ?_⟩
  · rintro ⟨td', hresult, -⟩
    rw [hone] at hresult
    cases hresult
  · rintro ⟨td', hresult, loc, hin, -⟩
    obtain ⟨td'', hinit, hlocations⟩ := staggerInput_stride.initSeekList_located noThrottle
      (fun _ => 0) id (by decide)
    rw [hinit] at hresult
    cases hresult
    obtain ⟨hloc, -, hbehind⟩ := hin 2 (by decide)
    rw [hlocations 2 (by decide)] at hloc
    have hlast : staggeredLocation (staggeredTarget 3 100 50) 2 = 105 := by decide
    rw [← Option.some.inj hloc, hlast] at hbehind
    exact absurd hbehind (by decide)

end Xdd.Target
