import Xdd.DataPattern.Buffer

/-!
# Patterns against themselves

A sequenced pattern is written in words of eight bytes, as many as the request size of the target
has room for. It is verified in words as well, for all words that begin inside the task, so the
last of them may lie partly behind the data. A pattern of hexadecimal digits that is not
replicated is written into the buffer as far as there is room and verified over its length.
-/

namespace Xdd.DataPattern

/-! ## Words of a sequenced pattern -/

def loadWord (buffer : Memory) (start : Nat) : Nat :=
  Stream.leNat ((List.range 8).map fun k => buffer (start + k))

def storeWord (buffer : Memory) (start word : Nat) : Memory :=
  memcpy buffer start (Stream.leBytes 8 word)

/-- The settings of a sequenced pattern: `task_byte_offset`, which is converted to unsigned when
the position is added; the prefix, if there is one; and `DP_INVERSE_PATTERN`. -/
structure Sequence where
  byteOffset : UInt64
  prefixBinary : Option UInt64
  inverse : Bool
deriving DecidableEq, Repr

/-- The writer takes the prefix as it is in the target, where it is 0 if none is given. -/
def filledWord (sequence : Sequence) (i : Nat) : Nat :=
  let word := sequencedWord (sequence.byteOffset.toNat + i) (sequence.prefixBinary.getD 0).toNat
  if sequence.inverse then word ^^^ 0xffffffffffffffff else word

/-- The verifier takes the prefix only with `DP_PATTERN_PREFIX`. -/
def expectedData (sequence : Sequence) (i : Nat) : Nat :=
  let expected := (sequence.byteOffset.toNat + i) % 2 ^ 64
  let expected := match sequence.prefixBinary with
    | some binary => expected ||| binary.toNat
    | none => expected
  if sequence.inverse then expected ^^^ 0xffffffffffffffff else expected

def xddDatapatternFill (sequence : Sequence) (xferSize : Nat) (buffer : Memory) : Memory :=
  (List.range (xferSize / 8)).foldl
    (fun buffer j => storeWord buffer (8 * j) (filledWord sequence (8 * j))) buffer

/-- The number of errors. The loop goes over the multiples of 8 below the size of the task. -/
def xddVerifySequence (sequence : Sequence) (taskXferSize : Nat) (buffer : Memory) : Nat :=
  (List.range ((taskXferSize + 7) / 8)).foldl
    (fun errors j => if loadWord buffer (8 * j) ≠ expectedData sequence (8 * j) then errors + 1
      else errors) 0

/-! ## Loading and storing words -/

theorem memcpy_inside (destp : Memory) (start : Nat) {bytes : List UInt8} {k : Nat}
    (hk : k < bytes.length) : memcpy destp start bytes (start + k) = bytes[k] := by
  rw [memcpy, if_pos (Nat.le_add_right start k), Nat.add_sub_cancel_left,
    List.getElem?_eq_getElem hk, Option.getD_some]

theorem memcpy_outside (destp : Memory) {start : Nat} {bytes : List UInt8} {i : Nat}
    (hi : i < start ∨ start + bytes.length ≤ i) : memcpy destp start bytes i = destp i := by
  rw [memcpy]
  split
  · rw [List.getElem?_eq_none (by omega), Option.getD_none]
  · rfl

theorem loadWord_congr {a b : Memory} {start : Nat} (h : ∀ k < 8, a (start + k) = b (start + k)) :
    loadWord a start = loadWord b start := by
  rw [loadWord, loadWord]
  congr 1
  apply List.map_congr_left
  intro k hk
  exact h k (List.mem_range.mp hk)

/-- A word determines its bytes. -/
theorem bytes_eq_of_loadWord_eq {a b : Memory} {start : Nat}
    (h : loadWord a start = loadWord b start) {k : Nat} (hk : k < 8) :
    a (start + k) = b (start + k) := by
  have hbytes := Stream.eq_of_leNat_eq (by rw [List.length_map, List.length_map]) h
  exact List.map_inj_left.mp hbytes k (List.mem_range.mpr hk)

theorem loadWord_storeWord (buffer : Memory) (start : Nat) {word : Nat} (hword : word < 2 ^ 64) :
    loadWord (storeWord buffer start word) start = word := by
  have hbytes : (List.range 8).map (fun k => storeWord buffer start word (start + k)) =
      Stream.leBytes 8 word := by
    apply List.ext_getElem
    · rw [List.length_map, List.length_range, Stream.length_leBytes]
    · intro k hk hk'
      rw [List.getElem_map, List.getElem_range]
      exact memcpy_inside buffer start hk'
  rw [loadWord, hbytes, Stream.leNat_leBytes]
  exact Nat.mod_eq_of_lt hword

theorem loadWord_storeWord_ne (buffer : Memory) {i j : Nat} (word : Nat) (hne : i ≠ j) :
    loadWord (storeWord buffer (8 * j) word) (8 * i) = loadWord buffer (8 * i) := by
  apply loadWord_congr
  intro k hk
  apply memcpy_outside
  rw [Stream.length_leBytes]
  omega

/-! ## The sequenced pattern -/

theorem filledWord_lt (sequence : Sequence) (i : Nat) : filledWord sequence i < 2 ^ 64 := by
  have hword := Nat.or_lt_two_pow (Nat.mod_lt (sequence.byteOffset.toNat + i) (by decide))
    (sequence.prefixBinary.getD 0).toNat_lt
  rw [filledWord]
  split
  · exact Nat.xor_lt_two_pow hword (by decide)
  · exact hword

/-- What is written is what is expected. -/
theorem filledWord_eq (sequence : Sequence) (i : Nat) :
    filledWord sequence i = expectedData sequence i := by
  obtain ⟨byteOffset, prefixBinary, inverse⟩ := sequence
  cases prefixBinary with
  | none => simp [filledWord, expectedData, sequencedWord]
  | some binary => rfl

/-- The first `n` words are written and nothing else is. -/
theorem fillLoop_eq (sequence : Sequence) (buffer : Memory) (n : Nat) :
    (∀ j < n, loadWord ((List.range n).foldl (fun buffer j =>
      storeWord buffer (8 * j) (filledWord sequence (8 * j))) buffer) (8 * j) =
        expectedData sequence (8 * j)) ∧
    ∀ i ≥ 8 * n, (List.range n).foldl (fun buffer j =>
      storeWord buffer (8 * j) (filledWord sequence (8 * j))) buffer i = buffer i := by
  induction n with
  | zero => exact ⟨fun j hj => absurd hj (Nat.not_lt_zero j), fun _ _ => rfl⟩
  | succ n ih =>
    obtain ⟨hwords, hrest⟩ := ih
    rw [List.range_succ, List.foldl_append, List.foldl_cons, List.foldl_nil]
    refine ⟨?_, ?_⟩
    · intro j hj
      by_cases hlast : j = n
      · subst hlast
        rw [loadWord_storeWord _ _ (filledWord_lt sequence _), filledWord_eq]
      · rw [loadWord_storeWord_ne _ _ hlast, hwords j (by omega)]
    · intro i hi
      rw [storeWord, memcpy_outside _ (by rw [Stream.length_leBytes]; omega), hrest i (by omega)]

theorem errorLoop_eq (sequence : Sequence) (buffer : Memory) (words : List Nat) (errors : Nat) :
    words.foldl (fun errors j => if loadWord buffer (8 * j) ≠ expectedData sequence (8 * j) then
      errors + 1 else errors) errors =
      errors + words.countP fun j => loadWord buffer (8 * j) ≠ expectedData sequence (8 * j) := by
  induction words generalizing errors with
  | nil => rfl
  | cons j words ih =>
    rw [List.foldl_cons, ih, List.countP_cons]
    split
    · next hmismatch =>
      rw [if_pos (by simpa using hmismatch)]
      omega
    · next hmatch =>
      rw [if_neg (by simpa using hmatch)]
      omega

/-- There is no error exactly if each word that begins inside the task is as expected. -/
theorem verifySequence_eq_zero_iff {sequence : Sequence} {taskXferSize : Nat} {buffer : Memory} :
    xddVerifySequence sequence taskXferSize buffer = 0 ↔
      ∀ j < (taskXferSize + 7) / 8, loadWord buffer (8 * j) = expectedData sequence (8 * j) := by
  rw [xddVerifySequence, errorLoop_eq, Nat.zero_add, List.countP_eq_zero]
  constructor
  · intro h j hj
    simpa using h j (List.mem_range.mpr hj)
  · intro h j hj
    simpa using h j (List.mem_range.mp hj)

/-- A buffer that is filled is accepted, and with any other byte in the data of the task it is
not. -/
def SequenceVerifies (sequence : Sequence) (xferSize taskXferSize : Nat) : Prop :=
  ∀ buffer : Memory,
    xddVerifySequence sequence taskXferSize (xddDatapatternFill sequence xferSize buffer) = 0 ∧
    ∀ i < taskXferSize, ∀ byte ≠ xddDatapatternFill sequence xferSize buffer i,
      1 ≤ xddVerifySequence sequence taskXferSize
        (Function.update (xddDatapatternFill sequence xferSize buffer) i byte)

theorem sequenceVerifies_iff (sequence : Sequence) (xferSize taskXferSize : Nat) :
    SequenceVerifies sequence xferSize taskXferSize ↔ (taskXferSize + 7) / 8 ≤ xferSize / 8 := by
  constructor
  · intro h
    by_contra hlong
    -- the word behind the last one that is written is whatever the buffer had
    have hword (byte : UInt8) : loadWord (fun _ => byte) (8 * (xferSize / 8)) =
        expectedData sequence (8 * (xferSize / 8)) := by
      rw [← verifySequence_eq_zero_iff.mp (h fun _ => byte).1 (xferSize / 8) (by omega)]
      apply loadWord_congr
      intro k _
      exact ((fillLoop_eq sequence (fun _ => byte) (xferSize / 8)).2 _ (Nat.le_add_right _ k)).symm
    have hbyte := bytes_eq_of_loadWord_eq ((hword 0).trans (hword 1).symm) (k := 0) (by decide)
    exact absurd hbyte (by decide)
  · intro hroom buffer
    have hzero : xddVerifySequence sequence taskXferSize
        (xddDatapatternFill sequence xferSize buffer) = 0 := by
      rw [verifySequence_eq_zero_iff]
      intro j hj
      exact (fillLoop_eq sequence buffer (xferSize / 8)).1 j (by omega)
    refine ⟨hzero, ?_⟩
    intro i hi byte hbyte
    rw [Nat.one_le_iff_ne_zero]
    intro hchanged
    have hword : loadWord (Function.update (xddDatapatternFill sequence xferSize buffer) i byte)
        (8 * (i / 8)) = loadWord (xddDatapatternFill sequence xferSize buffer) (8 * (i / 8)) := by
      rw [verifySequence_eq_zero_iff.mp hchanged (i / 8) (by omega),
        verifySequence_eq_zero_iff.mp hzero (i / 8) (by omega)]
    have hsame := bytes_eq_of_loadWord_eq hword (Nat.mod_lt i (by decide))
    rw [Nat.div_add_mod, Function.update_self] at hsame
    exact hbyte hsame

/-! ## Patterns of hexadecimal digits -/

/-- Filling and verification end, without an error and without a look behind the data of the
task. -/
def HexVerifies (digits : List Char) (replicate : Bool) (xferSize taskXferSize : Nat) : Prop :=
  ∀ buffer : Memory, ∃ fuel filled fuel' st,
    xddDatapatternBufferInit fuel (Argument.hex digits).pattern replicate xferSize buffer =
      some filled ∧
    xddVerifyHex fuel' (Argument.hex digits).pattern replicate taskXferSize filled = some st ∧
    st.errors = 0 ∧ st.examined ≤ taskXferSize

/-- Two runs of the loop that end give the same result. -/
theorem compareLoop_unique {buffer : Memory} {pattern : List UInt8} {fuel fuel' : Nat}
    {st a b : HexCheck} (ha : compareLoop buffer pattern fuel st = some a)
    (hb : compareLoop buffer pattern fuel' st = some b) : a = b := by
  induction fuel generalizing fuel' st with
  | zero => cases ha
  | succ fuel ih =>
    cases fuel' with
    | zero => cases hb
    | succ fuel' =>
      rw [compareLoop] at ha hb
      split at ha
      · next hdone =>
        rw [if_pos hdone] at hb
        exact Option.some.inj (ha.symm.trans hb)
      · next hmore =>
        rw [if_neg hmore] at hb
        exact ih ha hb

/-- The bytes of a pattern are put at the beginning of the buffer, as far as there is room. -/
theorem bufferInit_once (pattern : List UInt8) (xferSize fuel : Nat) (buffer : Memory) :
    ∃ filled, xddDatapatternBufferInit fuel pattern false xferSize buffer = some filled ∧
      ∀ k < xferSize, k < pattern.length → pattern[k]? = some (filled k) := by
  unfold xddDatapatternBufferInit
  rw [if_neg Bool.false_ne_true]
  refine ⟨_, rfl, ?_⟩
  intro k hk hlength
  have hcopied : k < (pattern.take (if pattern.length < xferSize then pattern.length
      else xferSize)).length := by
    rw [List.length_take]
    split <;> omega
  have hbyte := memcpy_inside (memset buffer 0 xferSize) 0 hcopied
  rw [Nat.zero_add, List.getElem_take] at hbyte
  rw [hbyte, List.getElem?_eq_getElem]

/-- The condition is about the number of bytes in the pattern. -/
theorem hexVerifies_iff (digits : List Char) (replicate : Bool) (xferSize taskXferSize : Nat)
    (hpos : 1 ≤ taskXferSize) (htask : taskXferSize ≤ xferSize) (hsize : xferSize < 2 ^ 31) :
    HexVerifies digits replicate xferSize taskXferSize ↔
      if replicate then (Argument.hex digits).pattern.length ≠ 0
      else 0 ≤ int32 (Argument.hex digits).pattern.length ∧
        int32 (Argument.hex digits).pattern.length ≤ taskXferSize := by
  unfold HexVerifies
  generalize (Argument.hex digits).pattern = pattern
  cases replicate with
  | true =>
    rw [if_pos rfl]
    constructor
    · intro h hempty
      obtain ⟨fuel, filled, -, -, hfilled, -⟩ := h fun _ => 0
      rw [List.length_eq_zero_iff.mp hempty, bufferInit_nil (by omega)] at hfilled
      cases hfilled
    · intro hnonempty buffer
      have hne : pattern ≠ [] := fun hnil => hnonempty (by rw [hnil]; rfl)
      obtain ⟨filled, hfilled, hbytes⟩ := bufferInit_replicate hne xferSize buffer
      obtain ⟨st, hst, hexamined, herrors⟩ := verifyHex_replicate hne
        (Nat.ne_of_gt hpos) (lt_of_le_of_lt htask hsize) filled
      refine ⟨_, filled, _, st, hfilled, hst, ?_, hexamined.le⟩
      exact herrors fun k hk => hbytes k (lt_of_lt_of_le hk htask)
  | false =>
    rw [if_neg Bool.false_ne_true]
    constructor
    · intro h
      obtain ⟨fuel, filled, fuel', st, -, hst, -, hexamined⟩ := h fun _ => 0
      by_cases hnonneg : 0 ≤ int32 pattern.length
      · obtain ⟨n, hn⟩ := Int.eq_ofNat_of_zero_le hnonneg
        obtain ⟨st', hst', hexamined', -⟩ := verifyHex_once hn taskXferSize filled
        rw [compareLoop_unique hst hst', hexamined'] at hexamined
        omega
      · rw [verifyHex_negative (not_le.mp hnonneg)] at hst
        cases hst
    · rintro ⟨hnonneg, hfits⟩ buffer
      obtain ⟨n, hn⟩ := Int.eq_ofNat_of_zero_le hnonneg
      have hle := int32_natCast_le hn
      obtain ⟨filled, hfilled, hbytes⟩ := bufferInit_once pattern xferSize 0 buffer
      obtain ⟨st, hst, hexamined, herrors⟩ := verifyHex_once hn taskXferSize filled
      refine ⟨0, filled, _, st, hfilled, hst, ?_, by omega⟩
      apply herrors
      intro k hk
      exact hbytes k (by omega) (by omega)

/-! ## Both patterns -/

/-- A sequenced pattern verifies against itself exactly if the words of the task, the last one
as a whole, are among the words of a full request. A pattern of digits does exactly if it has a
length where it is replicated, and is not longer than the task where it is not; for less than
2 GiB of digits, two of them are a byte. -/
theorem verifies_iff (sequence : Sequence) (digits : List Char) (replicate : Bool)
    (xferSize taskXferSize : Nat) (hpos : 1 ≤ taskXferSize) (htask : taskXferSize ≤ xferSize)
    (hsize : xferSize < 2 ^ 31) :
    (SequenceVerifies sequence xferSize taskXferSize ↔
        (taskXferSize + 7) / 8 ≤ xferSize / 8) ∧
      (HexVerifies digits replicate xferSize taskXferSize ↔
        if replicate then (Argument.hex digits).pattern.length ≠ 0
        else 0 ≤ int32 (Argument.hex digits).pattern.length ∧
          int32 (Argument.hex digits).pattern.length ≤ taskXferSize) ∧
      (digits.length < 2 ^ 31 →
        (HexVerifies digits replicate xferSize taskXferSize ↔
          if replicate then digits ≠ [] else (digits.length + 1) / 2 ≤ taskXferSize)) := by
  have hhex := hexVerifies_iff digits replicate xferSize taskXferSize hpos htask hsize
  refine ⟨sequenceVerifies_iff sequence xferSize taskXferSize, hhex, ?_⟩
  intro hlength
  rw [hhex, length_pattern_hex hlength]
  cases replicate with
  | true =>
    rw [if_pos rfl, if_pos rfl, ne_eq, ne_eq, ← List.length_eq_zero_iff, not_iff_not]
    omega
  | false =>
    rw [if_neg Bool.false_ne_true, if_neg Bool.false_ne_true,
      int32_of_fits (by omega) (by omega)]
    omega

theorem verifies_short :
    SequenceVerifies ⟨4096, some 0x0123000000000000, true⟩ 16 13 ∧
      HexVerifies "abc".toList false 16 13 := by
  obtain ⟨hsequence, -, hhex⟩ := verifies_iff ⟨4096, some 0x0123000000000000, true⟩ "abc".toList
    false 16 13 (by decide) (by decide) (by decide)
  exact ⟨hsequence.mpr (by decide), (hhex (by decide)).mpr (by decide)⟩

/-- Twelve bytes of a sequenced pattern, four digits for a task of one byte, and no digit. -/
theorem verification_fails :
    ¬ SequenceVerifies ⟨0, none, false⟩ 12 12 ∧ ¬ HexVerifies "abcd".toList false 1 1 ∧
      ¬ HexVerifies [] true 1 1 := by
  refine ⟨?_, ?_, ?_⟩
  · rw [sequenceVerifies_iff]
    decide
  · rw [hexVerifies_iff _ _ _ _ (by decide) (by decide) (by decide)]
    decide +kernel
  · rw [hexVerifies_iff _ _ _ _ (by decide) (by decide) (by decide)]
    decide +kernel

end Xdd.DataPattern
