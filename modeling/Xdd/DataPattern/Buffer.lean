import Xdd.DataPattern.Hex
import Xdd.Library.Stream
import Xdd.Target.Data

/-!
# Filling and verifying buffers

A pattern is put into the buffer of a worker when the thread starts, or, if it is sequenced,
before every write. The writers go by the request size of the target and the verifiers by the
size of the task or the length of the pattern. The loops over a pattern go on by its length; the
length of the empty string is 0.
-/

namespace Xdd.DataPattern

/-! ## Patterns -/

/-- The argument of `-datapattern ascii` or `-datapattern hex`. -/
inductive Argument where
  | ascii (text : List UInt8)
  | hex (digits : List Char)
deriving DecidableEq, Repr

def Argument.length : Argument → Nat
  | .ascii text => text.length
  | .hex digits => digits.length

/-- The bytes that `data_pattern` points to, as many as `data_pattern_length` says. For an empty
string of digits there is a warning that `0x00` is used, but the length is 0. `xdd_atohex` returns
the number of digits as a 32-bit number. -/
def Argument.pattern : Argument → List UInt8
  | .ascii text => text
  | .hex digits =>
    if digits.length = 0 then []
    else
      let (patternValue, nibbles) := xddAtohex (fun _ => 0) digits
      let patternLength := (uint64 (int32 nibbles)).toNat
      (List.range (if patternLength > 1 then (patternLength + 1) % 2 ^ 64 / 2 else 1)).map
        patternValue

theorem length_pattern_hex {digits : List Char} (hlength : digits.length < 2 ^ 31) :
    (Argument.hex digits).pattern.length = (digits.length + 1) / 2 := by
  rw [Argument.pattern]
  split
  · next hempty =>
    rw [hempty]
    rfl
  · show (List.map _
      (List.range (if (uint64 (int32 digits.length)).toNat > 1 then _ else _))).length = _
    rw [List.length_map, List.length_range, int32_of_fits (by omega) (by omega),
      uint64_of_fits (by omega) (by omega), Int.toNat_natCast]
    split <;> omega

/-- Strings of less than 2 GiB have a pattern exactly if they are not empty. -/
theorem pattern_eq_nil_iff {argument : Argument} (hlength : argument.length < 2 ^ 31) :
    argument.pattern = [] ↔ argument.length = 0 := by
  cases argument with
  | ascii text => exact List.length_eq_zero_iff.symm
  | hex digits =>
    rw [← List.length_eq_zero_iff, length_pattern_hex hlength]
    show _ ↔ digits.length = 0
    omega

theorem length_pattern_le {argument : Argument} (hlength : argument.length < 2 ^ 31) :
    argument.pattern.length ≤ argument.length := by
  cases argument with
  | ascii text => exact le_rfl
  | hex digits =>
    rw [length_pattern_hex hlength]
    show _ ≤ digits.length
    omega

/-! ## Filling a buffer with a pattern -/

def memcpy (destp : Memory) (start : Nat) (bytes : List UInt8) : Memory :=
  fun i => if start ≤ i then bytes[i - start]?.getD (destp i) else destp i

/-- The loop for `DP_REPLICATE_PATTERN`. -/
def replicateLoop (pattern : List UInt8) : Nat → Nat → Nat → Memory → Option Memory
  | 0, _, _, _ => none
  | fuel + 1, remaining, ucp, buffer =>
    if remaining = 0 then some buffer
    else
      let length := if pattern.length < remaining then pattern.length else remaining
      replicateLoop pattern fuel (remaining - length) (ucp + length)
        (memcpy buffer ucp (pattern.take length))

/-- `xdd_datapattern_buffer_init` for an ascii or hex pattern. -/
def xddDatapatternBufferInit (fuel : Nat) (pattern : List UInt8) (replicate : Bool)
    (xferSize : Nat) (buffer : Memory) : Option Memory :=
  let buffer := memset buffer 0 xferSize
  if replicate then replicateLoop pattern fuel xferSize 0 buffer
  else
    let length := if pattern.length < xferSize then pattern.length else xferSize
    some (memcpy buffer 0 (pattern.take length))

/-! ## Verifying a pattern -/

/-- The variables of `xdd_verify_hex`; `examined` is the end of the bytes it has looked at. -/
structure HexCheck where
  bufferp : Nat
  remaining : Int
  errors : Nat
  examined : Nat
deriving DecidableEq, Repr

/-- The inner loop. It is left before `bufferp` goes on when nothing remains. -/
def comparePattern (buffer : Memory) : List UInt8 → HexCheck → HexCheck
  | [], st => st
  | byte :: patternp, st =>
    let st := { st with
      errors := if byte ≠ buffer st.bufferp then st.errors + 1 else st.errors
      remaining := st.remaining - 1
      examined := st.bufferp + 1 }
    if st.remaining ≤ 0 then st
    else comparePattern buffer patternp { st with bufferp := st.bufferp + 1 }

/-- The outer loop. -/
def compareLoop (buffer : Memory) (pattern : List UInt8) : Nat → HexCheck → Option HexCheck
  | 0, _ => none
  | fuel + 1, st =>
    if st.remaining = 0 then some st
    else compareLoop buffer pattern fuel (comparePattern buffer pattern st)

def xddVerifyHex (fuel : Nat) (pattern : List UInt8) (replicate : Bool) (taskXferSize : Nat)
    (buffer : Memory) : Option HexCheck :=
  compareLoop buffer pattern fuel
    { bufferp := 0
      remaining := if replicate then int32 taskXferSize else int32 pattern.length
      errors := 0
      examined := 0 }

/-! ## The replicated pattern -/

/-- A loop over a pattern that is not empty ends, with the pattern over and over in the buffer. -/
theorem replicateLoop_eq {pattern : List UInt8} (hne : pattern ≠ []) {fuel remaining : Nat}
    (hfuel : remaining < fuel) (ucp : Nat) (buffer : Memory) :
    ∃ filled, replicateLoop pattern fuel remaining ucp buffer = some filled ∧
      (∀ i < remaining, pattern[i % pattern.length]? = some (filled (ucp + i))) ∧
      ∀ i < ucp, filled i = buffer i := by
  have hpos : 0 < pattern.length := List.length_pos_iff.mpr hne
  induction fuel generalizing remaining ucp buffer with
  | zero => omega
  | succ fuel ih =>
    rw [replicateLoop]
    by_cases hdone : remaining = 0
    · rw [if_pos hdone]
      exact ⟨buffer, rfl, fun i hi => by omega, fun _ _ => rfl⟩
    rw [if_neg hdone]
    by_cases hshort : pattern.length < remaining
    · rw [if_pos hshort]
      dsimp only
      rw [List.take_length]
      obtain ⟨filled, hloop, hpattern, hframe⟩ := @ih (remaining - pattern.length)
        (by omega) (ucp + pattern.length) (memcpy buffer ucp pattern)
      refine ⟨filled, hloop, ?_, ?_⟩
      · intro i hi
        by_cases hfirst : i < pattern.length
        · rw [Nat.mod_eq_of_lt hfirst, hframe (ucp + i) (by omega), memcpy,
            if_pos (Nat.le_add_right ucp i), Nat.add_sub_cancel_left,
            List.getElem?_eq_getElem hfirst, Option.getD_some]
        · obtain ⟨k, rfl⟩ : ∃ k, i = pattern.length + k := ⟨i - pattern.length, by omega⟩
          rw [Nat.add_mod_left, ← Nat.add_assoc]
          exact hpattern k (by omega)
      · intro i hi
        rw [hframe i (by omega), memcpy, if_neg (by omega)]
    · -- the last copy may be a part of the pattern
      rw [if_neg hshort]
      dsimp only
      rw [Nat.sub_self]
      obtain ⟨filled, hloop, -, hframe⟩ := @ih 0 (by omega) (ucp + remaining)
        (memcpy buffer ucp (pattern.take remaining))
      refine ⟨filled, hloop, ?_, ?_⟩
      · intro i hi
        have hinside : i < (pattern.take remaining).length := by
          rw [List.length_take]
          omega
        rw [Nat.mod_eq_of_lt (by omega), hframe (ucp + i) (by omega), memcpy,
          if_pos (Nat.le_add_right ucp i), Nat.add_sub_cancel_left,
          List.getElem?_eq_getElem hinside, Option.getD_some, List.getElem_take,
          List.getElem?_eq_getElem]
      · intro i hi
        rw [hframe i (by omega), memcpy, if_neg (by omega)]

/-- With an empty pattern nothing is ever copied and the loop does not end. -/
theorem replicateLoop_nil {remaining : Nat} (hpos : remaining ≠ 0) (fuel ucp : Nat)
    (buffer : Memory) : replicateLoop [] fuel remaining ucp buffer = none := by
  induction fuel generalizing ucp buffer with
  | zero => rfl
  | succ fuel ih =>
    rw [replicateLoop, if_neg hpos, if_pos (by simpa using Nat.pos_of_ne_zero hpos)]
    exact ih _ _

/-! ## The comparison -/

/-- The inner loop compares the pattern, or as much of it as remains. -/
theorem comparePattern_eq (buffer : Memory) {n : Nat} (hn : 0 < n) (patternp : List UInt8)
    (st : HexCheck) (hremaining : st.remaining = n) :
    (comparePattern buffer patternp st).remaining = (n - min n patternp.length : Nat) ∧
      (n > patternp.length →
        (comparePattern buffer patternp st).bufferp = st.bufferp + patternp.length) ∧
      (patternp ≠ [] →
        (comparePattern buffer patternp st).examined = st.bufferp + min n patternp.length) ∧
      ((∀ k < min n patternp.length, patternp[k]? = some (buffer (st.bufferp + k))) →
        (comparePattern buffer patternp st).errors = st.errors) := by
  induction patternp generalizing n st with
  | nil => exact ⟨by simp [comparePattern, hremaining], fun _ => rfl, fun h => absurd rfl h,
      fun _ => rfl⟩
  | cons byte patternp ih =>
    obtain ⟨bufferp, remaining, errors, examined⟩ := st
    obtain rfl : remaining = n := hremaining
    rw [comparePattern, List.length_cons]
    dsimp only
    have hfirst : (∀ k < min n (patternp.length + 1),
        (byte :: patternp)[k]? = some (buffer (bufferp + k))) →
        (if byte ≠ buffer bufferp then errors + 1 else errors) = errors := by
      intro hmatch
      have hbyte := hmatch 0 (by omega)
      rw [List.getElem?_cons_zero, Nat.add_zero] at hbyte
      rw [if_neg (not_not_intro (Option.some.inj hbyte))]
    by_cases hlast : n = 1
    · rw [if_pos (by omega)]
      refine ⟨?_, ?_, ?_, hfirst⟩
      · dsimp only
        omega
      · intro hlong
        omega
      · intro _
        dsimp only
        omega
    · rw [if_neg (by omega)]
      obtain ⟨hremaining', hbufferp, hexamined, herrors⟩ := ih (n := n - 1) (by omega)
        { bufferp := bufferp + 1
          remaining := (n : Int) - 1
          errors := if byte ≠ buffer bufferp then errors + 1 else errors
          examined := bufferp + 1 } (by dsimp only; omega)
      refine ⟨?_, ?_, ?_, ?_⟩
      · rw [hremaining']
        omega
      · intro hlong
        rw [hbufferp (by omega)]
        dsimp only
        omega
      · intro _
        by_cases hnil : patternp = []
        · subst hnil
          simp only [comparePattern, List.length_nil]
          omega
        · rw [hexamined hnil]
          dsimp only
          omega
      · intro hmatch
        rw [herrors]
        · exact hfirst hmatch
        · intro k hk
          have hnext := hmatch (k + 1) (by omega)
          rw [List.getElem?_cons_succ] at hnext
          rw [hnext]
          congr 2
          dsimp only
          omega

/-- The comparison of `n` bytes with a pattern that is not empty ends; it has looked at these
bytes only and has found no error if they are the pattern over and over. -/
theorem compareLoop_eq (buffer : Memory) {pattern : List UInt8} (hne : pattern ≠ []) {n : Nat}
    {fuel : Nat} (hfuel : n < fuel) (st : HexCheck) (hremaining : st.remaining = n) :
    ∃ st', compareLoop buffer pattern fuel st = some st' ∧
      (n ≠ 0 → st'.examined = st.bufferp + n) ∧ (n = 0 → st' = st) ∧
      ((∀ k < n, pattern[k % pattern.length]? = some (buffer (st.bufferp + k))) →
        st'.errors = st.errors) := by
  have hpos : 0 < pattern.length := List.length_pos_iff.mpr hne
  induction fuel generalizing n st with
  | zero => omega
  | succ fuel ih =>
    rw [compareLoop]
    by_cases hdone : n = 0
    · subst hdone
      rw [if_pos (by simpa using hremaining)]
      exact ⟨st, rfl, fun h => absurd rfl h, fun _ => rfl, fun _ => rfl⟩
    rw [if_neg (by rw [hremaining]; omega)]
    obtain ⟨hleft, hbufferp, hexamined, herrors⟩ :=
      comparePattern_eq buffer (Nat.pos_of_ne_zero hdone) pattern st hremaining
    obtain ⟨st', hloop, hmore, hnone, hmatches⟩ := ih (n := n - min n pattern.length) (by omega)
      (comparePattern buffer pattern st) hleft
    refine ⟨st', hloop, ?_, fun h => absurd h hdone, ?_⟩
    · intro _
      by_cases hlong : n > pattern.length
      · rw [hmore (by omega), hbufferp hlong]
        omega
      · rw [hnone (by omega), hexamined hne]
        omega
    · intro hmatch
      have hfirst : (comparePattern buffer pattern st).errors = st.errors := by
        apply herrors
        intro k hk
        have hbyte := hmatch k (by omega)
        rwa [Nat.mod_eq_of_lt (by omega)] at hbyte
      rw [hmatches, hfirst]
      intro k hk
      have hbyte := hmatch (pattern.length + k) (by omega)
      rw [Nat.add_mod_left] at hbyte
      rw [hbyte, hbufferp (by omega)]
      congr 2
      omega

/-! ## The loops end -/

/-- Filling ends, with the pattern over and over if it is replicated, and so does the
verification of whatever is read. -/
def LoopsEnd (argument : Argument) (replicate : Bool) (xferSize taskXferSize : Nat) : Prop :=
  ∀ buffer : Memory,
    (∃ fuel filled, xddDatapatternBufferInit fuel argument.pattern replicate xferSize buffer =
        some filled ∧
      (replicate = true → ∀ i < xferSize,
        argument.pattern[i % argument.pattern.length]? = some (filled i))) ∧
    ∃ fuel st, xddVerifyHex fuel argument.pattern replicate taskXferSize buffer = some st

theorem bufferInit_replicate {pattern : List UInt8} (hne : pattern ≠ []) (xferSize : Nat)
    (buffer : Memory) :
    ∃ filled, xddDatapatternBufferInit (xferSize + 1) pattern true xferSize buffer = some filled ∧
      ∀ i < xferSize, pattern[i % pattern.length]? = some (filled i) := by
  obtain ⟨filled, hloop, hpattern, -⟩ := replicateLoop_eq hne (Nat.lt_succ_self xferSize) 0
    (memset buffer 0 xferSize)
  refine ⟨filled, hloop, ?_⟩
  intro i hi
  have hbyte := hpattern i hi
  rwa [Nat.zero_add] at hbyte

theorem bufferInit_nil {xferSize : Nat} (hpos : xferSize ≠ 0) (fuel : Nat) (buffer : Memory) :
    xddDatapatternBufferInit fuel [] true xferSize buffer = none :=
  replicateLoop_nil hpos fuel 0 _

/-- With replication the data of the task are compared. -/
theorem verifyHex_replicate {pattern : List UInt8} (hne : pattern ≠ []) {taskXferSize : Nat}
    (hpos : taskXferSize ≠ 0) (hsize : taskXferSize < 2 ^ 31) (buffer : Memory) :
    ∃ st, xddVerifyHex (taskXferSize + 1) pattern true taskXferSize buffer = some st ∧
      st.examined = taskXferSize ∧
      ((∀ k < taskXferSize, pattern[k % pattern.length]? = some (buffer k)) → st.errors = 0) := by
  unfold xddVerifyHex
  rw [if_pos rfl, int32_of_fits (by omega) (by omega)]
  obtain ⟨st, hst, hexamined, -, herrors⟩ := compareLoop_eq buffer hne
    (Nat.lt_succ_self taskXferSize) ⟨0, taskXferSize, 0, 0⟩ rfl
  refine ⟨st, hst, ?_, ?_⟩
  · rw [hexamined hpos, Nat.zero_add]
  · intro hmatch
    apply herrors
    intro k hk
    rw [Nat.zero_add]
    exact hmatch k hk

theorem int32_natCast_le {x n : Nat} (h : int32 x = n) : n ≤ x := by
  rw [int32, CInt.signed, Int.bmod_def] at h
  split at h <;> omega

/-- Without it the pattern is compared once, as far as a 32-bit counter goes, and the comparison
ends also if there is nothing to compare. -/
theorem verifyHex_once {pattern : List UInt8} {n : Nat} (hn : int32 pattern.length = n)
    (taskXferSize : Nat) (buffer : Memory) :
    ∃ st, xddVerifyHex (n + 1) pattern false taskXferSize buffer = some st ∧
      st.examined = n ∧ ((∀ k < n, pattern[k]? = some (buffer k)) → st.errors = 0) := by
  have hle := int32_natCast_le hn
  unfold xddVerifyHex
  rw [if_neg Bool.false_ne_true, hn]
  by_cases hzero : n = 0
  · subst hzero
    exact ⟨⟨0, 0, 0, 0⟩, rfl, rfl, fun _ => rfl⟩
  have hne : pattern ≠ [] := by
    rintro rfl
    exact hzero (Nat.le_zero.mp hle)
  obtain ⟨st, hst, hexamined, -, herrors⟩ := compareLoop_eq buffer hne (Nat.lt_succ_self n)
    ⟨0, n, 0, 0⟩ rfl
  refine ⟨st, hst, ?_, ?_⟩
  · rw [hexamined hzero, Nat.zero_add]
  · intro hmatch
    apply herrors
    intro k hk
    rw [Nat.mod_eq_of_lt (by omega), Nat.zero_add]
    exact hmatch k hk

/-- A counter that begins below 0 goes down at every byte and does not come to 0. -/
theorem compareLoop_negative (buffer : Memory) {pattern : List UInt8} (hne : pattern ≠ [])
    (fuel : Nat) {st : HexCheck} (hremaining : st.remaining < 0) :
    compareLoop buffer pattern fuel st = none := by
  induction fuel generalizing st with
  | zero => rfl
  | succ fuel ih =>
    rw [compareLoop, if_neg (by omega)]
    cases pattern with
    | nil => exact absurd rfl hne
    | cons byte patternp =>
      apply ih
      rw [comparePattern]
      dsimp only
      rw [if_pos (by omega)]
      dsimp only
      omega

theorem verifyHex_negative {pattern : List UInt8} (hnegative : int32 pattern.length < 0)
    (fuel taskXferSize : Nat) (buffer : Memory) :
    xddVerifyHex fuel pattern false taskXferSize buffer = none := by
  have hne : pattern ≠ [] := by
    rintro rfl
    exact absurd hnegative (by decide)
  unfold xddVerifyHex
  rw [if_neg Bool.false_ne_true]
  apply compareLoop_negative buffer hne
  dsimp only
  omega

/-- The loops end exactly if the pattern has a length where it is replicated, and else its length
is not negative as a 32-bit number. For strings of less than 2 GiB this is: if the pattern is not
replicated or the string is not empty. -/
theorem loopsEnd_iff (argument : Argument) (replicate : Bool) (xferSize taskXferSize : Nat)
    (hpos : 1 ≤ taskXferSize) (htask : taskXferSize ≤ xferSize) (hsize : xferSize < 2 ^ 31) :
    (LoopsEnd argument replicate xferSize taskXferSize ↔
        if replicate then argument.pattern.length ≠ 0
        else 0 ≤ int32 argument.pattern.length) ∧
      (argument.length < 2 ^ 31 →
        (LoopsEnd argument replicate xferSize taskXferSize ↔
          (replicate = true → argument.length ≠ 0))) := by
  have hiff : LoopsEnd argument replicate xferSize taskXferSize ↔
      if replicate then argument.pattern.length ≠ 0 else 0 ≤ int32 argument.pattern.length := by
    cases replicate with
    | true =>
      rw [if_pos rfl]
      constructor
      · intro hend hempty
        obtain ⟨⟨fuel, filled, hfilled, -⟩, -⟩ := hend fun _ => 0
        rw [List.length_eq_zero_iff.mp hempty, bufferInit_nil (by omega)] at hfilled
        cases hfilled
      · intro hnonempty buffer
        have hne : argument.pattern ≠ [] := fun hnil => hnonempty (by rw [hnil]; rfl)
        obtain ⟨filled, hfilled, hpattern⟩ := bufferInit_replicate hne xferSize buffer
        obtain ⟨st, hst, -⟩ := verifyHex_replicate hne (Nat.ne_of_gt hpos)
          (lt_of_le_of_lt htask hsize) buffer
        exact ⟨⟨_, filled, hfilled, fun _ => hpattern⟩, _, st, hst⟩
    | false =>
      rw [if_neg Bool.false_ne_true]
      constructor
      · intro hend
        by_contra hnegative
        obtain ⟨-, fuel, st, hst⟩ := hend fun _ => 0
        rw [verifyHex_negative (not_le.mp hnegative)] at hst
        cases hst
      · intro hnonneg buffer
        obtain ⟨n, hn⟩ := Int.eq_ofNat_of_zero_le hnonneg
        obtain ⟨st, hst, -⟩ := verifyHex_once hn taskXferSize buffer
        exact ⟨⟨0, _, rfl, fun h => by cases h⟩, _, st, hst⟩
  refine ⟨hiff, ?_⟩
  intro hlength
  have hpattern := pattern_eq_nil_iff hlength
  have hle := length_pattern_le hlength
  rw [hiff]
  cases replicate with
  | true => rw [if_pos rfl, ne_eq, List.length_eq_zero_iff, hpattern, forall_prop_of_true rfl]
  | false =>
    rw [if_neg Bool.false_ne_true, int32_of_fits (by omega) (by omega)]
    exact iff_of_true (Int.natCast_nonneg _) fun h => by cases h

theorem loopsEnd_threeDigits : LoopsEnd (.hex "abc".toList) true 5 5 :=
  ((loopsEnd_iff (.hex "abc".toList) true 5 5 (by decide) (by decide) (by decide)).2
    (by decide)).mpr (by decide)

/-- The empty string for either kind of pattern. -/
theorem loops_never_end :
    ¬ LoopsEnd (.ascii []) true 1 1 ∧ ¬ LoopsEnd (.hex []) true 1 1 := by
  have hnever (argument : Argument) (hempty : argument.pattern = []) :
      ¬ LoopsEnd argument true 1 1 := by
    intro hend
    obtain ⟨⟨fuel, filled, hfilled, -⟩, -⟩ := hend fun _ => 0
    rw [hempty, bufferInit_nil Nat.one_ne_zero] at hfilled
    cases hfilled
  exact ⟨hnever _ rfl, hnever _ rfl⟩

end Xdd.DataPattern
