import Xdd.Target.Data

/-!
# Throttled operations

Before a throttled operation a worker looks at the clock, and sleeps until the time of the
operation in the seek list, counted from the start of the pass. The time to sleep is an unsigned
number of nanoseconds, but it goes through a signed variable of 32 bits. With a constant delay
nothing is done with the time to sleep.
-/

namespace Xdd.Target.Throttling

inductive ThrottleType where
  | ops
  | bw
  | delay
deriving DecidableEq, Repr

/-- `xint_throttle_t` without a variance. A delay is in seconds. -/
structure XintThrottle where
  throttle : ℚ
  throttleType : ThrottleType

/-- `CLK_TCK`, the clock ticks of a second, as `sysconf` returns them. -/
structure ClkTck where
  ticks : Int
  pos : 1 ≤ ticks
  le : ticks ≤ 2 ^ 31

/-- `xdd_throttle_before_io_op`: the time at which it returns. `usleep` is given the time and the
number of microseconds, and `time1` is that of each entry of the seek list. -/
def xddThrottleBeforeIoOp (clkTck : ClkTck) (usleep : Int → Int → Int)
    (throtp : Option XintThrottle) (passStartTime : UInt64) (time1 : Nat → UInt64)
    (taskOpNumber : Nat) (now : UInt64) : Int :=
  match throtp with
  | none => now.toNat
  | some throtp =>
    if throtp.throttle ≤ 0 then now.toNat
    else
      match throtp.throttleType with
      -- the time to sleep is computed, but the sleep is in the other branch
      | .delay => now.toNat
      | .ops | .bw =>
        if now - passStartTime < time1 taskOpNumber then
          let sleepTime := time1 taskOpNumber - (now - passStartTime)
          if 0 < sleepTime then
            let sleepTimeDw := int32 sleepTime.toNat
            if int64 (sleepTimeDw * clkTck.ticks) > 1000 then
              usleep now.toNat (sleepTimeDw.tdiv 1000)
            else now.toNat
          else now.toNat
        else now.toNat

/-! ## Not early -/

/-- `usleep` returns after at least the microseconds that it was given. -/
def Sleeps (usleep : Int → Int → Int) : Prop := ∀ t m, 0 ≤ m → t + 1000 * m ≤ usleep t m

/-- The rounding of a clock tick and of a microsecond, in nanoseconds. -/
def slack (clkTck : ClkTck) : Int := 1000000000 / clkTck.ticks + 1000

/-- However long `usleep` takes, an operation is not issued before its time in the seek list, and
with a delay not before the delay has passed. -/
def NeverEarly (clkTck : ClkTck) (throttle : XintThrottle) (passStartTime : UInt64)
    (time1 : Nat → UInt64) (k : Nat) (now : UInt64) : Prop :=
  ∀ usleep, Sleeps usleep →
    let returns := xddThrottleBeforeIoOp clkTck usleep (some throttle) passStartTime time1 k now
    match throttle.throttleType with
    | .delay => (now.toNat : ℚ) + throttle.throttle * 1000000000 ≤ (returns + slack clkTck : Int)
    | .ops | .bw => (passStartTime.toNat + (time1 k).toNat : Int) ≤ returns + slack clkTck

/-- The nanoseconds that are left until the time of an operation. -/
def remaining (passStartTime : UInt64) (time1 : Nat → UInt64) (k : Nat) (now : UInt64) : Int :=
  passStartTime.toNat + (time1 k).toNat - now.toNat

/-- A delay lasts no longer than the rounding. Otherwise the pass has begun and less than 2^31
nanoseconds are left, or no more than the rounding. -/
def InTime (clkTck : ClkTck) (throttle : XintThrottle) (passStartTime : UInt64)
    (time1 : Nat → UInt64) (k : Nat) (now : UInt64) : Prop :=
  match throttle.throttleType with
  | .delay => throttle.throttle * 1000000000 ≤ (slack clkTck : ℚ)
  | .ops | .bw =>
    (passStartTime ≤ now ∧ remaining passStartTime time1 k now < 2 ^ 31) ∨
      remaining passStartTime time1 k now ≤ slack clkTck

theorem slack_bounds (clkTck : ClkTck) : 1000 ≤ slack clkTck ∧ slack clkTck ≤ 1000001000 := by
  have hpos := clkTck.pos
  have hlow : 0 ≤ 1000000000 / clkTck.ticks := Int.ediv_nonneg (by omega) (by omega)
  have hhigh : 1000000000 / clkTck.ticks ≤ 1000000000 := Int.ediv_le_self _ (by omega)
  unfold slack
  omega

/-- How long a worker sleeps before an operation, at least. -/
def slept (clkTck : ClkTck) (sleepTime : Int) : Int :=
  if int32 sleepTime * clkTck.ticks > 1000 then 1000 * (int32 sleepTime / 1000) else 0

theorem int32_bounds (x : Int) : -2 ^ 31 ≤ int32 x ∧ int32 x < 2 ^ 31 := by
  have hlow := Int.le_bmod (x := x) (m := 2 ^ 32) (by omega)
  have hhigh := Int.bmod_lt (x := x) (m := 2 ^ 32) (by omega)
  unfold int32 CInt.signed
  omega

/-- The product with the tick rate is computed in 64 bits. -/
theorem int64_product (clkTck : ClkTck) (x : Int) :
    int64 (int32 x * clkTck.ticks) = int32 x * clkTck.ticks := by
  obtain ⟨hlow, hhigh⟩ := int32_bounds x
  have hpos := clkTck.pos
  have hle := clkTck.le
  apply int64_of_fits
  · nlinarith
  · nlinarith

/-- A worker that sleeps sleeps for a positive time. -/
theorem pos_of_product {clkTck : ClkTck} {x : Int} (hlong : x * clkTck.ticks > 1000) : 0 < x := by
  have hticks := clkTck.pos
  by_contra hneg
  have hproduct : x * clkTck.ticks ≤ 0 :=
    mul_nonpos_of_nonpos_of_nonneg (not_lt.mp hneg) (by omega)
  omega

/-- A time of less than 2^31 nanoseconds is slept up to the rounding. -/
theorem slept_of_lt (clkTck : ClkTck) {sleepTime : Int} (hpos : 0 < sleepTime)
    (hlt : sleepTime < 2 ^ 31) : sleepTime ≤ slept clkTck sleepTime + slack clkTck := by
  have hslack := slack_bounds clkTck
  have hticks := clkTck.pos
  rw [slept, int32_of_fits (by omega) hlt]
  split
  · omega
  · next hshort =>
    have hle : sleepTime ≤ sleepTime * clkTck.ticks := le_mul_of_one_le_right hpos.le hticks
    omega

/-- No more than the lowest 32 bits of a time are slept. -/
theorem slept_le (clkTck : ClkTck) {sleepTime : Int} (hpos : 0 ≤ sleepTime) :
    0 ≤ slept clkTck sleepTime ∧ slept clkTck sleepTime ≤ sleepTime ∧
      slept clkTck sleepTime < 2 ^ 31 ∧
      (2 ^ 31 ≤ sleepTime → slept clkTck sleepTime + 2 ^ 31 ≤ sleepTime) := by
  obtain ⟨_, hhigh⟩ := int32_bounds sleepTime
  have hdiv := Int.bmod_add_bdiv sleepTime (2 ^ 32)
  have hdw : int32 sleepTime = sleepTime.bmod (2 ^ 32) := rfl
  rw [slept]
  split
  · next hlong =>
    have hdwpos := pos_of_product hlong
    omega
  · omega

theorem toNat_sub_of_lt {a b : UInt64} (h : a < b) : (b - a).toNat = b.toNat - a.toNat :=
  UInt64.toNat_sub_of_le _ _ (UInt64.le_of_lt h)

/-- The time that a worker wants to sleep before an operation. -/
def pause (passStartTime : UInt64) (time1 : Nat → UInt64) (k : Nat) (now : UInt64) : Int :=
  if now - passStartTime < time1 k then (time1 k - (now - passStartTime)).toNat else 0

section Operations

variable {clkTck : ClkTck} {throttle : XintThrottle} {passStartTime now : UInt64}
  {time1 : Nat → UInt64} {k : Nat}

/-- With a delay there is no sleep. -/
theorem returns_delay (hpos : 0 < throttle.throttle) (htype : throttle.throttleType = .delay)
    (usleep : Int → Int → Int) :
    xddThrottleBeforeIoOp clkTck usleep (some throttle) passStartTime time1 k now = now.toNat := by
  rw [xddThrottleBeforeIoOp]
  dsimp only
  rw [if_neg (not_le.mpr hpos), htype]

/-- What is given to `usleep`. -/
theorem returns_eq (hpos : 0 < throttle.throttle) (htype : throttle.throttleType ≠ .delay)
    (usleep : Int → Int → Int) :
    xddThrottleBeforeIoOp clkTck usleep (some throttle) passStartTime time1 k now =
      if int32 (pause passStartTime time1 k now) * clkTck.ticks > 1000 then
        usleep now.toNat (int32 (pause passStartTime time1 k now) / 1000)
      else now.toNat := by
  have hoperations : xddThrottleBeforeIoOp clkTck usleep (some throttle) passStartTime time1 k now =
      if now - passStartTime < time1 k then
        if 0 < time1 k - (now - passStartTime) then
          if int64 (int32 (time1 k - (now - passStartTime)).toNat * clkTck.ticks) > 1000 then
            usleep now.toNat ((int32 (time1 k - (now - passStartTime)).toNat).tdiv 1000)
          else now.toNat
        else now.toNat
      else now.toNat := by
    rw [xddThrottleBeforeIoOp]
    dsimp only
    rw [if_neg (not_le.mpr hpos)]
    cases hkind : throttle.throttleType with
    | delay => exact absurd hkind htype
    | ops => rfl
    | bw => rfl
  rw [hoperations, pause]
  by_cases hlt : now - passStartTime < time1 k
  · have hsleep : 0 < time1 k - (now - passStartTime) := by
      have hltNat := UInt64.lt_iff_toNat_lt.mp hlt
      rw [UInt64.lt_iff_toNat_lt, toNat_sub_of_lt hlt]
      exact Nat.sub_pos_of_lt hltNat
    rw [if_pos hlt, if_pos hsleep, if_pos hlt, int64_product]
    split
    · next hlong => rw [Int.tdiv_eq_ediv_of_nonneg (pos_of_product hlong).le]
    · rfl
  · rw [if_neg hlt, if_neg hlt, show int32 0 = 0 from rfl, Int.zero_mul, if_neg (by decide)]

/-- A worker comes back after what it has slept, and may come back just then. -/
theorem neverEarly_operation (hpos : 0 < throttle.throttle)
    (htype : throttle.throttleType ≠ .delay) :
    NeverEarly clkTck throttle passStartTime time1 k now ↔
      remaining passStartTime time1 k now ≤
        slept clkTck (pause passStartTime time1 k now) + slack clkTck := by
  have hkind : NeverEarly clkTck throttle passStartTime time1 k now ↔ ∀ usleep, Sleeps usleep →
      (passStartTime.toNat + (time1 k).toNat : Int) ≤
        xddThrottleBeforeIoOp clkTck usleep (some throttle) passStartTime time1 k now +
          slack clkTck := by
    rw [NeverEarly]
    cases hkind : throttle.throttleType with
    | delay => exact absurd hkind htype
    | ops => exact Iff.rfl
    | bw => exact Iff.rfl
  rw [hkind, remaining, slept]
  constructor
  · intro hnever
    have hearly := hnever (fun t m => t + 1000 * m) fun _ _ _ => le_rfl
    rw [returns_eq hpos htype] at hearly
    split at hearly
    · omega
    · omega
  · intro hslept usleep hsleeps
    rw [returns_eq hpos htype]
    split
    · next hlong =>
      have hreturns := hsleeps now.toNat (int32 (pause passStartTime time1 k now) / 1000)
        (Int.ediv_nonneg (pos_of_product hlong).le (by omega))
      omega
    · omega

/-- After the start of the pass a worker wants to sleep until the time of the operation; before it
the difference wraps around. -/
theorem pause_eq : pause passStartTime time1 k now =
    if passStartTime ≤ now then max 0 (remaining passStartTime time1 k now)
    else max 0 (remaining passStartTime time1 k now - 2 ^ 64) := by
  have hnow := now.toNat_lt
  have hstart := passStartTime.toNat_lt
  have htime := (time1 k).toNat_lt
  have helapsed := UInt64.toNat_sub now passStartTime
  rw [pause, remaining]
  by_cases hlt : now - passStartTime < time1 k
  · have hltNat := UInt64.lt_iff_toNat_lt.mp hlt
    rw [if_pos hlt, toNat_sub_of_lt hlt]
    split
    · next hstarted =>
      have hstartedNat := UInt64.le_iff_toNat_le.mp hstarted
      omega
    · next hbefore =>
      have hbeforeNat := mt UInt64.le_iff_toNat_le.mpr hbefore
      omega
  · have hltNat := mt UInt64.lt_iff_toNat_lt.mpr hlt
    rw [if_neg hlt]
    split
    · next hstarted =>
      have hstartedNat := UInt64.le_iff_toNat_le.mp hstarted
      omega
    · next hbefore =>
      have hbeforeNat := mt UInt64.le_iff_toNat_le.mpr hbefore
      omega

end Operations

/-- When a throttle does not issue an operation early. -/
theorem neverEarly_iff (clkTck : ClkTck) (throttle : XintThrottle) (hpos : 0 < throttle.throttle)
    (passStartTime : UInt64) (time1 : Nat → UInt64) (k : Nat) (now : UInt64) :
    NeverEarly clkTck throttle passStartTime time1 k now ↔
      InTime clkTck throttle passStartTime time1 k now := by
  obtain ⟨hslackLow, hslackHigh⟩ := slack_bounds clkTck
  have hoperation : throttle.throttleType ≠ .delay →
      (NeverEarly clkTck throttle passStartTime time1 k now ↔
        (passStartTime ≤ now ∧ remaining passStartTime time1 k now < 2 ^ 31) ∨
          remaining passStartTime time1 k now ≤ slack clkTck) := by
    intro htype
    rw [neverEarly_operation hpos htype, pause_eq]
    generalize remaining passStartTime time1 k now = left
    by_cases hstarted : passStartTime ≤ now
    · rw [if_pos hstarted]
      obtain ⟨_, _, hbound, hlow⟩ := slept_le clkTck (le_max_left 0 left)
      by_cases hlt : left < 2 ^ 31
      · refine iff_of_true ?_ (.inl ⟨hstarted, hlt⟩)
        by_cases hleft : 0 < left
        · rw [max_eq_right hleft.le]
          exact slept_of_lt clkTck hleft hlt
        · rw [max_eq_left (not_lt.mp hleft)]
          have hzero : slept clkTck 0 = 0 := by
            rw [slept, show int32 0 = 0 from rfl, Int.zero_mul, if_neg (by decide)]
          omega
      · refine iff_of_false ?_ ?_
        · omega
        · rintro (⟨_, h⟩ | h)
          · exact hlt h
          · omega
    · rw [if_neg hstarted]
      obtain ⟨hnonneg, hle, hbound, _⟩ := slept_le clkTck (le_max_left 0 (left - 2 ^ 64))
      constructor
      · intro hslept
        right
        omega
      · rintro (⟨h, _⟩ | h)
        · exact absurd h hstarted
        · omega
  cases hkind : throttle.throttleType with
  | delay =>
    rw [NeverEarly, InTime, hkind]
    dsimp only
    constructor
    · intro hnever
      have hdelay := hnever (fun t m => t + 1000 * m) fun _ _ _ => le_rfl
      rw [returns_delay hpos hkind] at hdelay
      push_cast at hdelay
      linarith
    · intro hshort usleep _
      rw [returns_delay hpos hkind]
      push_cast
      linarith
  | ops =>
    rw [hoperation (by rw [hkind]; decide), InTime, hkind]
  | bw =>
    rw [hoperation (by rw [hkind]; decide), InTime, hkind]

/-- A hundred clock ticks in a second. -/
def hundredTicks : ClkTck := ⟨100, by decide, by decide⟩

/-- The first operation of a pass that is to run one operation in a second. -/
theorem neverEarly_oneSecond :
    NeverEarly hundredTicks ⟨1, .ops⟩ 0 (fun _ => 1000000000) 0 0 :=
  (neverEarly_iff hundredTicks ⟨1, .ops⟩ one_pos 0 (fun _ => 1000000000) 0 0).mpr
    (.inl ⟨by decide, by decide⟩)

/-- With one operation in ten seconds the first is issued after 1.4 seconds, with one in four
seconds at once, and a delay of a second is none. -/
theorem throttle_early :
    (xddThrottleBeforeIoOp hundredTicks (fun t m => t + 1000 * m) (some ⟨1 / 10, .ops⟩) 0
        (fun _ => 10000000000) 0 0 = 1410065000 ∧
      ¬ NeverEarly hundredTicks ⟨1 / 10, .ops⟩ 0 (fun _ => 10000000000) 0 0) ∧
    (xddThrottleBeforeIoOp hundredTicks (fun t m => t + 1000 * m) (some ⟨1 / 4, .ops⟩) 0
        (fun _ => 4000000000) 0 0 = 0 ∧
      ¬ NeverEarly hundredTicks ⟨1 / 4, .ops⟩ 0 (fun _ => 4000000000) 0 0) ∧
    ∀ usleep, xddThrottleBeforeIoOp hundredTicks usleep (some ⟨1, .delay⟩) 0
        (fun _ => 1000000000) 0 0 = 0 ∧
      ¬ NeverEarly hundredTicks ⟨1, .delay⟩ 0 (fun _ => 1000000000) 0 0 := by
  refine ⟨⟨by decide +kernel, ?_⟩, ⟨by decide +kernel, ?_⟩, ?_⟩
  · rw [neverEarly_operation (by norm_num) (by decide)]
    decide +kernel
  · rw [neverEarly_operation (by norm_num) (by decide)]
    decide +kernel
  · intro usleep
    refine ⟨returns_delay one_pos rfl usleep, ?_⟩
    intro hnever
    have hdelay := hnever (fun t m => t + 1000 * m) fun _ _ _ => le_rfl
    rw [returns_delay one_pos rfl] at hdelay
    have hslack : slack hundredTicks = 10001000 := by decide
    rw [hslack] at hdelay
    norm_num at hdelay

end Xdd.Target.Throttling
