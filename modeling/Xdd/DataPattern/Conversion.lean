import Xdd.DataPattern.Hex
import Xdd.Target.Data

/-!
# The conversion of a hexadecimal string

The callers of `xdd_atohex` allocate a byte for every two digits. The conversion itself fills
exactly these bytes, but the destination is cleared by the number of characters of the copy, which
is twice as much.
-/

namespace Xdd.DataPattern

/-- The number of bytes that the callers allocate for a string. -/
def allocated (sourcep : List Char) : Nat := (sourcep.length + 1) / 2

/-- The byte at an index of the big-endian representation of a number in `count` bytes. -/
def bigEndianByte (count value i : Nat) : UInt8 := UInt8.ofNat (value / 256 ^ (count - 1 - i))

/-- The first bytes of the destination are those of the number that the string denotes. -/
def Converted (sourcep : List Char) : Prop :=
  ∀ destp : Memory, ∀ i < allocated sourcep,
    (xddAtohex destp sourcep).1 i = bigEndianByte (allocated sourcep) (hexValue sourcep) i

/-- The conversion is exact: the bytes are right, no byte behind them is written, whatever the
destination held before, and the 32-bit return value is the number of digits. -/
structure ConversionExact (sourcep : List Char) : Prop where
  converted : Converted sourcep
  confined : ∀ destp : Memory, ∀ i, allocated sourcep ≤ i →
    (xddAtohex destp sourcep).1 i = destp i
  returned : ∀ destp : Memory, int32 (xddAtohex destp sourcep).2 = sourcep.length

/-! ## The bytes -/

/-- The leading two digits of a number are its highest byte. -/
theorem hexValue_cons_cons {high low : Char} {rest : List Char} (hlength : rest.length % 2 = 0) :
    hexValue (high :: low :: rest) =
      (16 * (nibble high).toNat + (nibble low).toNat) * 256 ^ (rest.length / 2) + hexValue rest := by
  have hpow : 16 ^ rest.length = 256 ^ (rest.length / 2) := by
    rw [show (256 : Nat) = 16 ^ 2 by norm_num, ← pow_mul]
    congr 1
    omega
  calc hexValue (high :: low :: rest)
      = rest.foldl (fun value c => 16 * value + (nibble c).toNat)
          (16 * (16 * 0 + (nibble high).toNat) + (nibble low).toNat) := rfl
    _ = (16 * (nibble high).toNat + (nibble low).toNat) * 256 ^ (rest.length / 2) +
          hexValue rest := by
        rw [hexFold_eq, hpow, Nat.mul_zero, Nat.zero_add]

theorem hexValue_lt_bytes {digits : List Char} (hlength : digits.length % 2 = 0) :
    hexValue digits < 256 ^ (digits.length / 2) := by
  calc hexValue digits < 16 ^ digits.length := hexValue_lt digits
    _ = 256 ^ (digits.length / 2) := by
      rw [show (256 : Nat) = 16 ^ 2 by norm_num, ← pow_mul]
      congr 1
      omega

/-- What is divided into a multiple of 256 does not show in a byte. -/
theorem ofNat_div_high {low : Nat} (hlow : 0 < low) (high shift value : Nat) :
    UInt8.ofNat ((high * (low * (shift * 256)) + value) / low) = UInt8.ofNat (value / low) := by
  have hsplit : high * (low * (shift * 256)) + value = value + low * (high * shift * 256) := by
    ring
  have hzero : UInt8.ofNat (high * shift * 256) = 0 := by
    rw [UInt8.ofNat_mul]
    exact mul_zero _
  rw [hsplit, Nat.add_mul_div_left _ _ hlow, UInt8.ofNat_add, hzero, add_zero]

/-- The digits two by two are the bytes of the number. -/
theorem digitBytes_getElem? : ∀ {digits : List Char} {i : Nat},
    digits.length % 2 = 0 → i < digits.length / 2 →
    (digitBytes digits)[i]? = some (bigEndianByte (digits.length / 2) (hexValue digits) i)
  | [], _, _, hi => by simp at hi
  | [_], _, hlength, _ => by simp at hlength
  | high :: low :: rest, i, hlength, hi => by
    rw [List.length_cons, List.length_cons] at hlength hi
    have hrest : rest.length % 2 = 0 := by omega
    have hcount : (high :: low :: rest).length / 2 = rest.length / 2 + 1 := by
      rw [List.length_cons, List.length_cons]
      omega
    have hbyte := byte_toNat (nibble_lt high) (nibble_lt low)
    have hbound := hexValue_lt_bytes hrest
    rw [digitBytes, hcount, hexValue_cons_cons hrest, bigEndianByte, Nat.add_sub_cancel]
    cases i with
    | zero =>
      rw [List.getElem?_cons_zero, Nat.sub_zero, Nat.add_comm,
        Nat.add_mul_div_right _ _ (Nat.pow_pos (by omega)), Nat.div_eq_of_lt hbound, Nat.zero_add,
        ← hbyte, UInt8.ofNat_toNat]
    | succ i =>
      rw [List.getElem?_cons_succ, digitBytes_getElem? hrest (by omega), bigEndianByte]
      have hshift : rest.length / 2 - (i + 1) = rest.length / 2 - 1 - i := by omega
      have hpow : 256 ^ (rest.length / 2) = 256 ^ (rest.length / 2 - 1 - i) * (256 ^ i * 256) := by
        rw [← pow_succ, ← pow_add]
        congr 1
        omega
      rw [hshift, hpow, ofNat_div_high (Nat.pow_pos (by omega))]

theorem xddAtohex_converted (sourcep : List Char) : Converted sourcep := by
  intro destp i hi
  have heven := length_evenDigits sourcep
  have hcount : (evenDigits sourcep).length / 2 = allocated sourcep := by
    rw [heven, allocated]
    omega
  have hbytes := congrArg (fun bytes => bytes[i]?) (xddAtohex_bytes destp sourcep)
  rw [digitBytes_getElem? (by omega) (by omega), hcount, hexValue_evenDigits,
    List.getElem?_map, List.getElem?_range (show i < (sourcep.length + 1) / 2 from hi)] at hbytes
  exact Option.some.inj hbytes

/-! ## The bytes behind them -/

/-- Behind its result the function clears the destination up to the length of the copy. -/
theorem xddAtohex_behind (destp : Memory) {sourcep : List Char} {i : Nat}
    (hi : allocated sourcep ≤ i) :
    (xddAtohex destp sourcep).1 i = memset destp 0 (2 * allocated sourcep) i := by
  have heven := length_evenDigits sourcep
  show hexLoop (evenDigits sourcep) true 0 (memset destp 0 (evenDigits sourcep).length) i = _
  rw [hexLoop_eq _ _ _ (by omega), if_pos (Nat.zero_le i), Nat.sub_zero, List.getElem?_eq_none,
    Option.getD_none, heven, allocated]
  · rw [length_digitBytes, heven]
    rw [allocated] at hi
    omega
  · intro j _ hj
    rw [memset, if_pos (by omega)]

/-- The bytes are right for every string, but only the empty one does not clear more of the
destination than was allocated for it. -/
theorem conversionExact_iff (sourcep : List Char) :
    Converted sourcep ∧ (ConversionExact sourcep ↔ sourcep = []) := by
  refine ⟨xddAtohex_converted sourcep, ?_⟩
  constructor
  · intro hexact
    by_contra hne
    have hlength : 0 < sourcep.length := List.length_pos_iff.mpr hne
    have hpos : 0 < allocated sourcep := by
      rw [allocated]
      omega
    -- a destination without a zero shows the first byte that is cleared in vain
    have hkept := hexact.confined (fun _ => 1) (allocated sourcep) le_rfl
    rw [xddAtohex_behind _ le_rfl, memset, if_pos (by omega)] at hkept
    exact absurd hkept (by decide)
  · rintro rfl
    refine ⟨xddAtohex_converted [], ?_, ?_⟩
    · intro destp i hi
      rw [xddAtohex_behind destp hi]
      rfl
    · intro destp
      show int32 0 = 0
      rfl

/-- A byte behind the one that is allocated for two digits is cleared. -/
theorem conversion_overruns :
    (xddAtohex (fun _ => 0x55) "ab".toList).1 0 = 0xab ∧
    (xddAtohex (fun _ => 0x55) "ab".toList).1 1 = 0 ∧ allocated "ab".toList = 1 ∧
    ¬ ConversionExact "ab".toList := by
  have hcleared : (xddAtohex (fun _ => 0x55) "ab".toList).1 1 = 0 := by decide +kernel
  refine ⟨by decide +kernel, hcleared, by decide +kernel, ?_⟩
  intro hexact
  have hkept := hexact.confined (fun _ => 0x55) 1 (by decide)
  rw [hcleared] at hkept
  exact absurd hkept (by decide)

end Xdd.DataPattern
