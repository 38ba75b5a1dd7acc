import Mathlib

/-!
# Numbers in text

Decimal numbers as `printf` writes them and as the `scanf` and `strtol` families read
them: white space is skipped, a sign may stand in front, and the number ends at the first
character that is not a digit. Reading gives back what was written, whatever follows, as
long as it does not go on with a digit.
-/

namespace Text

/-- White space in the sense of `isspace`. -/
def isSpace (c : Char) : Bool := c = ' ' || (9 ≤ c.toNat && c.toNat ≤ 13)

/-- An unsigned number, filled up with zeros on the left. -/
def padded (width n : Nat) : List Char :=
  List.replicate (width - (Nat.toDigits 10 n).length) '0' ++ Nat.toDigits 10 n

/-- A signed number. -/
def integer : Int → List Char
  | .ofNat n => Nat.toDigits 10 n
  | .negSucc n => '-' :: Nat.toDigits 10 (n + 1)

/-- The number that the digits at the front make, and the rest of the text. -/
def readDigits (text : List Char) : Option (Nat × List Char) :=
  match text.takeWhile Char.isDigit with
  | [] => none
  | digits => some (Nat.ofDigitChars 10 digits 0, text.dropWhile Char.isDigit)

def readSigned : List Char → Option (Int × List Char)
  | '-' :: text => (readDigits text).map fun (n, rest) => (-(n : Int), rest)
  | '+' :: text => (readDigits text).map fun (n, rest) => ((n : Int), rest)
  | text => (readDigits text).map fun (n, rest) => ((n : Int), rest)

/-- Skip white space and read a number with an optional sign. -/
def readInteger (text : List Char) : Option (Int × List Char) :=
  readSigned (text.dropWhile isSpace)

/-- The text does not go on with a digit. -/
def NoDigit (rest : List Char) : Prop := ∀ c ∈ rest.head?, c.isDigit = false

theorem noDigit_cons {c : Char} {rest : List Char} (h : c.isDigit = false) :
    NoDigit (c :: rest) := by
  simpa [NoDigit] using h

theorem isSpace_of_isDigit {c : Char} (h : c.isDigit = true) : isSpace c = false := by
  have hrange : 48 ≤ c.toNat ∧ c.toNat ≤ 57 := Char.isDigit_iff_toNat.mp h
  have hne : c ≠ ' ' := by
    rintro rfl
    exact absurd h (by decide)
  have hhigh : ¬ c.toNat ≤ 13 := by omega
  simp [isSpace, hne, hhigh]

theorem isDigit_of_mem_padded {width n : Nat} {c : Char} (h : c ∈ padded width n) :
    c.isDigit = true := by
  rcases List.mem_append.mp h with hzero | hdigit
  · rw [(List.mem_replicate.mp hzero).2]
    decide
  · exact Nat.isDigit_of_mem_toDigits (by omega) (by omega) hdigit

theorem padded_ne_nil (width n : Nat) : padded width n ≠ [] := by
  simp [padded, Nat.toDigits_ne_nil]

theorem padded_zero (n : Nat) : padded 0 n = Nat.toDigits 10 n := by
  simp [padded]

theorem value_padded (width n : Nat) : Nat.ofDigitChars 10 (padded width n) 0 = n := by
  simp [padded, Nat.ofDigitChars_append]

/-- Digits that are followed by something else are read as a whole. -/
theorem readDigits_append {digits rest : List Char} (hne : digits ≠ [])
    (hdigits : ∀ c ∈ digits, c.isDigit = true) (hrest : NoDigit rest) :
    readDigits (digits ++ rest) = some (Nat.ofDigitChars 10 digits 0, rest) := by
  have htake : rest.takeWhile Char.isDigit = [] := by
    cases rest with
    | nil => rfl
    | cons c rest => simp [hrest c rfl]
  have hdrop : rest.dropWhile Char.isDigit = rest := by
    cases rest with
    | nil => rfl
    | cons c rest => simp [hrest c rfl]
  unfold readDigits
  rw [List.takeWhile_append_of_pos hdigits, List.dropWhile_append_of_pos hdigits, htake, hdrop,
    List.append_nil]
  split
  · contradiction
  · rfl

/-- A text that starts with a digit has no sign to read. -/
theorem readSigned_of_digit {c : Char} {text : List Char} (h : c.isDigit = true) :
    readSigned (c :: text) = (readDigits (c :: text)).map fun (n, rest) => ((n : Int), rest) := by
  unfold readSigned
  split
  · rename_i heq
    cases heq
    exact absurd h (by decide)
  · rename_i heq
    cases heq
    exact absurd h (by decide)
  · rfl

/-- A padded number is read back, white space in front of it or not. -/
theorem readInteger_padded (space : List Char) {rest : List Char} (width n : Nat)
    (hspace : ∀ c ∈ space, isSpace c = true) (hrest : NoDigit rest) :
    readInteger (space ++ (padded width n ++ rest)) = some ((n : Int), rest) := by
  obtain ⟨c, digits, hcons⟩ := List.exists_cons_of_ne_nil (padded_ne_nil width n)
  have hdigits : ∀ d ∈ c :: digits, d.isDigit = true := fun d hd =>
    isDigit_of_mem_padded (hcons ▸ hd)
  have hc : c.isDigit = true := hdigits c List.mem_cons_self
  unfold readInteger
  rw [List.dropWhile_append_of_pos hspace, hcons, List.cons_append,
    List.dropWhile_cons_of_neg (by simp [isSpace_of_isDigit hc]), readSigned_of_digit hc,
    ← List.cons_append, readDigits_append (List.cons_ne_nil c digits) hdigits hrest, ← hcons,
    value_padded]
  rfl

/-- A signed number is read back, white space in front of it or not. -/
theorem readInteger_integer (space : List Char) {rest : List Char} (z : Int)
    (hspace : ∀ c ∈ space, isSpace c = true) (hrest : NoDigit rest) :
    readInteger (space ++ (integer z ++ rest)) = some (z, rest) := by
  cases z with
  | ofNat n =>
      have h := readInteger_padded space 0 n hspace hrest
      rw [padded_zero] at h
      exact h
  | negSucc n =>
      unfold readInteger
      rw [List.dropWhile_append_of_pos hspace]
      have hdigits : ∀ d ∈ Nat.toDigits 10 (n + 1), d.isDigit = true := fun d hd =>
        Nat.isDigit_of_mem_toDigits (by omega) (by omega) hd
      simp only [integer, List.cons_append, readSigned,
        List.dropWhile_cons_of_neg (show ¬ isSpace '-' = true by decide),
        readDigits_append Nat.toDigits_ne_nil hdigits hrest, Nat.ofDigitChars_ten_toDigits,
        Option.map_some]
      rfl

theorem length_padded_le (width n k : Nat) (hk : 0 < k) (h : n < 10 ^ k) :
    (padded width n).length ≤ max width k := by
  have hlen : (Nat.toDigits 10 n).length ≤ k :=
    (Nat.length_toDigits_le_iff (by omega) hk).mpr h
  simp only [padded, List.length_append, List.length_replicate]
  omega

theorem length_integer_le {z : Int} {k : Nat} (hk : 0 < k) (h : z.natAbs < 10 ^ k) :
    (integer z).length ≤ k + 1 := by
  cases z with
  | ofNat n =>
      have hlen : (Nat.toDigits 10 n).length ≤ k :=
        (Nat.length_toDigits_le_iff (by omega) hk).mpr h
      simp only [integer]
      omega
  | negSucc n =>
      have hlen : (Nat.toDigits 10 (n + 1)).length ≤ k :=
        (Nat.length_toDigits_le_iff (by omega) hk).mpr h
      simp only [integer, List.length_cons]
      omega

end Text
