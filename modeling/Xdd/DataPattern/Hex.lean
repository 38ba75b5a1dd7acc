import Mathlib

/-!
# Hexadecimal patterns

`xdd_atohex` turns a string of hexadecimal digits into bytes, the highest one first. It works
on a copy of the string with a leading zero if the number of digits is odd, clears as many bytes
of the destination as the copy has characters, and puts in one nibble at a time. The prefix of a
sequenced pattern is made from these bytes: it is collected in a 64-bit number, which is then
shifted to the left.
-/

namespace Xdd.DataPattern

/-- The memory behind a pointer. -/
abbrev Memory := Nat → UInt8

/-- The value of a digit in either case; any other character counts as 0. -/
def nibble : Char → UInt8
  | '1' => 0x1
  | '2' => 0x2
  | '3' => 0x3
  | '4' => 0x4
  | '5' => 0x5
  | '6' => 0x6
  | '7' => 0x7
  | '8' => 0x8
  | '9' => 0x9
  | 'a' | 'A' => 0xa
  | 'b' | 'B' => 0xb
  | 'c' | 'C' => 0xc
  | 'd' | 'D' => 0xd
  | 'e' | 'E' => 0xe
  | 'f' | 'F' => 0xf
  | _ => 0

/-- The loop over the copy. `hi` tells which half of the byte at `ucp` is next. -/
def hexLoop : List Char → Bool → Nat → Memory → Memory
  | [], _, _, destp => destp
  | c :: tmpp, hi, ucp, destp =>
    let destp := Function.update destp ucp
      (destp ucp ||| if hi then nibble c * 0x10 else nibble c)
    if hi then hexLoop tmpp false ucp destp else hexLoop tmpp true (ucp + 1) destp

/-- The copy of the string. -/
def evenDigits (sourcep : List Char) : List Char :=
  if sourcep.length % 2 = 1 then '0' :: sourcep else sourcep

def memset (destp : Memory) (byte : UInt8) (length : Nat) : Memory :=
  fun i => if i < length then byte else destp i

/-- `xdd_atohex`: the destination afterwards and the number of nibbles. -/
def xddAtohex (destp : Memory) (sourcep : List Char) : Memory × Nat :=
  let tmpp := evenDigits sourcep
  (hexLoop tmpp true 0 (memset destp 0 tmpp.length), sourcep.length)

/-- The number that a string of digits denotes. -/
def hexValue (digits : List Char) : Nat :=
  digits.foldl (fun value c => 16 * value + (nibble c).toNat) 0

/-! ## The bytes of a string -/

/-- Two digits are a byte. -/
def digitBytes : List Char → List UInt8
  | high :: low :: rest => (nibble high * 0x10 ||| nibble low) :: digitBytes rest
  | _ => []

theorem length_evenDigits (sourcep : List Char) :
    (evenDigits sourcep).length = 2 * ((sourcep.length + 1) / 2) := by
  unfold evenDigits
  split
  · rw [List.length_cons]
    omega
  · omega

theorem hexValue_evenDigits (sourcep : List Char) :
    hexValue (evenDigits sourcep) = hexValue sourcep := by
  unfold evenDigits
  split
  · rfl
  · rfl

theorem length_digitBytes : ∀ digits : List Char, (digitBytes digits).length = digits.length / 2
  | [] => rfl
  | [_] => by simp [digitBytes]
  | _ :: _ :: rest => by
    rw [digitBytes, List.length_cons, length_digitBytes rest, List.length_cons, List.length_cons]
    omega

/-- The loop puts the bytes of the digits one after the other and leaves the rest alone. -/
theorem hexLoop_eq : ∀ (digits : List Char) (ucp : Nat) (destp : Memory),
    digits.length % 2 = 0 → (∀ i, ucp ≤ i → i < ucp + digits.length / 2 → destp i = 0) →
    ∀ i, hexLoop digits true ucp destp i =
      if ucp ≤ i then (digitBytes digits)[i - ucp]?.getD (destp i) else destp i
  | [], ucp, destp, _, _, i => by simp [hexLoop, digitBytes]
  | [_], _, _, hlength, _, _ => by simp at hlength
  | high :: low :: rest, ucp, destp, hlength, hclear, i => by
    rw [List.length_cons, List.length_cons] at hlength hclear
    rw [hexLoop, if_pos rfl, hexLoop, if_neg (by decide)]
    have hzero : destp ucp = 0 := hclear ucp le_rfl (by omega)
    rw [hexLoop_eq rest (ucp + 1) _ (by omega)]
    · rcases Nat.lt_trichotomy i ucp with hlt | rfl | hgt
      · have hbefore : ¬ ucp ≤ i := by omega
        rw [if_neg (show ¬ ucp + 1 ≤ i by omega), if_neg hbefore, Function.update_of_ne (by omega),
          Function.update_of_ne (by omega)]
      · rw [if_neg (by omega), if_pos le_rfl, Nat.sub_self, Function.update_self,
          Function.update_self, hzero]
        simp [digitBytes]
      · obtain ⟨k, rfl⟩ : ∃ k, i = ucp + 1 + k := ⟨i - (ucp + 1), by omega⟩
        have hnext : ucp + 1 + k - (ucp + 1) = k := by omega
        have hhere : ucp + 1 + k - ucp = k + 1 := by omega
        have hbehind : ucp ≤ ucp + 1 + k := by omega
        rw [if_pos (show ucp + 1 ≤ ucp + 1 + k by omega), if_pos hbehind, hnext, hhere, digitBytes,
          List.getElem?_cons_succ, Function.update_of_ne (by omega),
          Function.update_of_ne (by omega)]
    · intro j hlow hhigh
      rw [Function.update_of_ne (by omega), Function.update_of_ne (by omega)]
      exact hclear j (by omega) (by omega)

/-- The first bytes of the destination are those of the digits. -/
theorem xddAtohex_bytes (destp : Memory) (sourcep : List Char) :
    (List.range ((sourcep.length + 1) / 2)).map (xddAtohex destp sourcep).1 =
      digitBytes (evenDigits sourcep) := by
  have hlength := length_evenDigits sourcep
  apply List.ext_getElem
  · rw [List.length_map, List.length_range, length_digitBytes]
    omega
  · intro i hi _
    rw [List.length_map, List.length_range] at hi
    rw [List.getElem_map, List.getElem_range]
    show hexLoop (evenDigits sourcep) true 0 (memset destp 0 (evenDigits sourcep).length) i = _
    rw [hexLoop_eq _ _ _ (by omega), if_pos (Nat.zero_le i), Nat.sub_zero,
      List.getElem?_eq_getElem, Option.getD_some]
    intro j _ hj
    rw [memset, if_pos (by omega)]

/-! ## The number of the bytes -/

theorem nibble_lt (c : Char) : (nibble c).toNat < 16 := by
  unfold nibble
  split <;> decide

theorem byte_toNat {a b : UInt8} (ha : a.toNat < 16) (hb : b.toNat < 16) :
    (a * 0x10 ||| b).toNat = 16 * a.toNat + b.toNat := by
  have hall : ∀ x y : Fin 16, (UInt8.ofNat x * 0x10 ||| UInt8.ofNat y).toNat = 16 * x.val + y.val := by
    decide
  have h := hall ⟨a.toNat, ha⟩ ⟨b.toNat, hb⟩
  simpa using h

/-- Collecting bytes in a number of 64 bits. -/
def collectBytes (bytes : List UInt8) : Nat :=
  bytes.foldl (fun binary byte => (binary <<< 8) % 2 ^ 64 ||| byte.toNat) 0

/-- Digits that go on behind a number multiply it. -/
theorem hexFold_eq (digits : List Char) (value : Nat) :
    digits.foldl (fun value c => 16 * value + (nibble c).toNat) value =
      value * 16 ^ digits.length + hexValue digits := by
  unfold hexValue
  induction digits generalizing value with
  | nil => simp
  | cons c digits ih =>
    rw [List.foldl_cons, List.foldl_cons, ih, ih (16 * 0 + _), List.length_cons, Nat.pow_succ]
    ring

theorem hexValue_lt (digits : List Char) : hexValue digits < 16 ^ digits.length := by
  induction digits with
  | nil => simp [hexValue]
  | cons c digits ih =>
    have hfold := hexFold_eq digits (16 * 0 + (nibble c).toNat)
    have hc := nibble_lt c
    show digits.foldl _ _ < _
    rw [hfold, List.length_cons, Nat.pow_succ]
    have hle : (16 * 0 + (nibble c).toNat) * 16 ^ digits.length ≤ 15 * 16 ^ digits.length :=
      Nat.mul_le_mul_right _ (by omega)
    omega

/-- Up to eight bytes are collected without loss. -/
theorem collectBytes_digitBytes : ∀ (digits : List Char) (binary : Nat),
    digits.length % 2 = 0 → binary * 16 ^ digits.length + 16 ^ digits.length ≤ 2 ^ 64 →
    (digitBytes digits).foldl (fun binary byte => (binary <<< 8) % 2 ^ 64 ||| byte.toNat) binary =
      digits.foldl (fun value c => 16 * value + (nibble c).toNat) binary
  | [], binary, _, _ => rfl
  | [_], _, hlength, _ => by simp at hlength
  | high :: low :: rest, binary, hlength, hroom => by
    rw [List.length_cons, List.length_cons] at hlength hroom
    have hpow : 16 ^ (rest.length + 1 + 1) = 256 * 16 ^ rest.length := by ring
    rw [hpow] at hroom
    have hpos : 0 < 16 ^ rest.length := Nat.pow_pos (by omega)
    have hsmall : binary * 256 + 256 ≤ 2 ^ 64 := by
      calc binary * 256 + 256 = (binary * 256 + 256) * 1 := by ring
        _ ≤ (binary * 256 + 256) * 16 ^ rest.length := Nat.mul_le_mul_left _ hpos
        _ ≤ 2 ^ 64 := by linarith
    have hbyte := byte_toNat (nibble_lt high) (nibble_lt low)
    have hhigh := nibble_lt high
    have hlow := nibble_lt low
    have hstep : (binary <<< 8) % 2 ^ 64 ||| (nibble high * 0x10 ||| nibble low).toNat =
        16 * (16 * binary + (nibble high).toNat) + (nibble low).toNat := by
      rw [Nat.mod_eq_of_lt (by rw [Nat.shiftLeft_eq]; omega),
        ← Nat.shiftLeft_add_eq_or_of_lt (by omega), Nat.shiftLeft_eq, hbyte]
      ring
    rw [digitBytes, List.foldl_cons, hstep, List.foldl_cons, List.foldl_cons]
    apply collectBytes_digitBytes rest _ (by omega)
    calc (16 * (16 * binary + (nibble high).toNat) + (nibble low).toNat) * 16 ^ rest.length +
          16 ^ rest.length
        = (256 * binary + 16 * (nibble high).toNat + (nibble low).toNat + 1) * 16 ^ rest.length := by
          ring
      _ ≤ (256 * binary + 256) * 16 ^ rest.length := Nat.mul_le_mul_right _ (by omega)
      _ ≤ 2 ^ 64 := by linarith

/-! ## The prefix of a sequenced pattern -/

/-- What `-datapattern prefix` stores into a target. -/
structure Prefix where
  value : List UInt8
  binary : Nat
  length : Nat
deriving DecidableEq, Repr

/-- The distance of the last shift. -/
def prefixShift (length : Nat) : Int := ((64 : Int) - length * 2) % 2 ^ 64

/-- `xddfunc_datapattern` for a prefix. At most 16 digits are used. Behind the conversion the
length is in bytes. -/
def xddfuncDatapatternPrefix (pattern : List Char) : Prefix :=
  let pattern := pattern.take 16
  let (patternValue, nibbles) := xddAtohex (fun _ => 0) pattern
  let patternLength := if nibbles > 1 then (nibbles + 1) / 2 else 1
  let value := (List.range patternLength).map patternValue
  { value := value
    binary := (collectBytes value <<< (prefixShift patternLength).toNat) % 2 ^ 64
    length := patternLength }

/-- The word of a sequenced pattern, as `xdd_datapattern_fill` makes it from an offset. -/
def sequencedWord (offset binary : Nat) : Nat := offset % 2 ^ 64 ||| binary

/-- The number of digits that are used. -/
def digitsUsed (pattern : List Char) : Nat := min pattern.length 16

/-- The prefix is stored in the highest nibbles, and so it is in every word of a sequenced
pattern whose offset does not reach into them; no shift is too far. -/
structure PrefixPlaced (pattern : List Char) : Prop where
  binary : (xddfuncDatapatternPrefix pattern).binary =
    hexValue (pattern.take 16) * 2 ^ (64 - 4 * digitsUsed pattern)
  words : ∀ offset < 2 ^ (64 - 4 * digitsUsed pattern),
    sequencedWord offset (xddfuncDatapatternPrefix pattern).binary =
      hexValue (pattern.take 16) * 2 ^ (64 - 4 * digitsUsed pattern) + offset
  shift : 0 ≤ prefixShift (xddfuncDatapatternPrefix pattern).length ∧
    prefixShift (xddfuncDatapatternPrefix pattern).length ≤ 63

/-- The digits are shifted by two bits for each of their bytes. -/
theorem prefix_binary {pattern : List Char} (hne : pattern ≠ []) :
    (xddfuncDatapatternPrefix pattern).length = (digitsUsed pattern + 1) / 2 ∧
    (xddfuncDatapatternPrefix pattern).binary =
      hexValue (pattern.take 16) * 2 ^ (64 - 2 * ((digitsUsed pattern + 1) / 2)) % 2 ^ 64 := by
  have hlength : (pattern.take 16).length = digitsUsed pattern := by
    rw [List.length_take, digitsUsed, Nat.min_comm]
  have hpos : 0 < digitsUsed pattern := by
    have hpattern := List.length_pos_iff.mpr hne
    unfold digitsUsed
    omega
  have hsmall : digitsUsed pattern ≤ 16 := Nat.min_le_right _ _
  have hbytes : (if digitsUsed pattern > 1 then (digitsUsed pattern + 1) / 2 else 1) =
      (digitsUsed pattern + 1) / 2 := by
    split <;> omega
  have heven := length_evenDigits (pattern.take 16)
  rw [hlength] at heven
  have hcollect : collectBytes (digitBytes (evenDigits (pattern.take 16))) =
      hexValue (pattern.take 16) := by
    rw [← hexValue_evenDigits]
    apply collectBytes_digitBytes _ 0 (by omega)
    rw [Nat.zero_mul, Nat.zero_add, heven]
    calc 16 ^ (2 * ((digitsUsed pattern + 1) / 2)) ≤ 16 ^ 16 :=
          Nat.pow_le_pow_right (by omega) (by omega)
      _ = 2 ^ 64 := by norm_num
  have hshift : (prefixShift ((digitsUsed pattern + 1) / 2)).toNat =
      64 - 2 * ((digitsUsed pattern + 1) / 2) := by
    unfold prefixShift
    omega
  have hvalue := xddAtohex_bytes (fun _ => 0) (pattern.take 16)
  rw [hlength] at hvalue
  have hnibbles : (xddAtohex (fun _ => 0) (pattern.take 16)).2 = digitsUsed pattern := hlength
  simp only [xddfuncDatapatternPrefix, hnibbles, hbytes, hvalue, hcollect, hshift, true_and]
  rw [Nat.shiftLeft_eq]

/-- A number whose bits are all below `2 ^ a` is not moved by a further shift only if it is
zero. -/
theorem eq_zero_of_shifted {v a b k : Nat} (hv : v < 2 ^ b) (hk : 0 < k)
    (h : v * (2 ^ a * 2 ^ k) % (2 ^ a * 2 ^ b) = v * 2 ^ a) : v = 0 := by
  have hdivision := Nat.div_add_mod (v * (2 ^ a * 2 ^ k)) (2 ^ a * 2 ^ b)
  rw [h] at hdivision
  generalize v * (2 ^ a * 2 ^ k) / (2 ^ a * 2 ^ b) = q at hdivision
  have hcancel : 2 ^ b * q + v = v * 2 ^ k := by
    apply Nat.eq_of_mul_eq_mul_left (Nat.two_pow_pos a)
    linarith
  have hdvd : 2 ^ b ∣ v * (2 ^ k - 1) := by
    refine ⟨q, ?_⟩
    rw [Nat.mul_sub_one]
    omega
  have hodd : Odd (2 ^ k - 1) :=
    Nat.Even.sub_odd Nat.one_le_two_pow ((Nat.even_pow.mpr ⟨even_two, hk.ne'⟩)) odd_one
  have hcoprime : Nat.Coprime (2 ^ b) (2 ^ k - 1) :=
    Nat.Coprime.pow_left b (Nat.coprime_two_left.mpr hodd)
  exact Nat.eq_zero_of_dvd_of_lt (hcoprime.dvd_of_dvd_mul_right hdvd) hv

/-- The prefix of a string of digits is in its place only if its value is zero. -/
theorem prefixPlaced_iff (pattern : List Char) (hne : pattern ≠ []) :
    PrefixPlaced pattern ↔ hexValue (pattern.take 16) = 0 := by
  obtain ⟨hlength, hbinary⟩ := prefix_binary hne
  have hpos : 0 < digitsUsed pattern := by
    have hpattern := List.length_pos_iff.mpr hne
    unfold digitsUsed
    omega
  have hsmall : digitsUsed pattern ≤ 16 := Nat.min_le_right _ _
  constructor
  · intro hplaced
    have hvalue : hexValue (pattern.take 16) < 2 ^ (4 * digitsUsed pattern) := by
      have hlt := hexValue_lt (pattern.take 16)
      rw [List.length_take, Nat.min_comm, show (16 : Nat) = 2 ^ 4 by norm_num, ← pow_mul] at hlt
      exact hlt
    have hsame := hbinary.symm.trans hplaced.binary
    -- the shift is by a positive number of bits more than it should be
    have hshift : 2 ^ (64 - 2 * ((digitsUsed pattern + 1) / 2)) =
        2 ^ (64 - 4 * digitsUsed pattern) *
          2 ^ (4 * digitsUsed pattern - 2 * ((digitsUsed pattern + 1) / 2)) := by
      rw [← pow_add]
      congr 1
      omega
    have hword : 2 ^ 64 = 2 ^ (64 - 4 * digitsUsed pattern) * 2 ^ (4 * digitsUsed pattern) := by
      rw [← pow_add]
      congr 1
      omega
    rw [hshift, hword] at hsame
    exact eq_zero_of_shifted hvalue (by omega) hsame
  · intro hzero
    rw [hzero, Nat.zero_mul, Nat.zero_mod] at hbinary
    refine ⟨?_, ?_, ?_⟩
    · rw [hbinary, hzero, Nat.zero_mul]
    · intro offset hoffset
      have hle : 2 ^ (64 - 4 * digitsUsed pattern) ≤ 2 ^ 64 :=
        Nat.pow_le_pow_right (by omega) (by omega)
      rw [hbinary, hzero, Nat.zero_mul, Nat.zero_add, sequencedWord, Nat.or_zero,
        Nat.mod_eq_of_lt (by omega)]
    · rw [hlength, prefixShift]
      omega

theorem prefixPlaced_twoZeros : PrefixPlaced "00".toList :=
  (prefixPlaced_iff "00".toList (by decide)).mpr (by decide)

/-- The prefix of the comment beside `xdd_verify_sequence`. -/
theorem prefix_misplaced :
    (xddfuncDatapatternPrefix "0123".toList).binary = 0x3000000000000000 ∧
    hexValue "0123".toList * 2 ^ 48 = 0x0123000000000000 ∧ ¬ PrefixPlaced "0123".toList := by
  have hbinary : (xddfuncDatapatternPrefix "0123".toList).binary = 0x3000000000000000 := by
    decide +kernel
  refine ⟨hbinary, by decide +kernel, ?_⟩
  intro hplaced
  have hsame := hplaced.binary
  rw [hbinary] at hsame
  exact absurd hsame (by decide +kernel)

end Xdd.DataPattern
