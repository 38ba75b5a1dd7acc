import Xdd.Library.Text

/-!
# Unsigned numbers as `strtoul` reads them

White space is skipped, a sign may stand in front, and the number ends at the first character
that is not a digit. A minus sign negates the number modulo 2^64. If there is no digit the number
is 0 and nothing has been read. A number that does not fit sets `errno`, which is left alone
otherwise.
-/

namespace Text

def ERANGE : Nat := 34

/-- The return value, the text at the end pointer, and `errno`. -/
structure Strtoul where
  num : Nat
  rest : List Char
  errno : Nat
deriving DecidableEq, Repr

/-- Whether there is a minus sign, and what follows the sign. -/
def readSign : List Char → Bool × List Char
  | '-' :: text => (true, text)
  | '+' :: text => (false, text)
  | text => (false, text)

/-- `strtoul` and `strtoull` with base 10, both of 64 bits. -/
def strtoul (errno : Nat) (val : List Char) : Strtoul :=
  let (negative, text) := readSign (val.dropWhile isSpace)
  match readDigits text with
  | none => { num := 0, rest := val, errno := errno }
  | some (n, rest) =>
    if n < 2 ^ 64 then
      { num := if negative then (2 ^ 64 - n) % 2 ^ 64 else n, rest := rest, errno := errno }
    else { num := 2 ^ 64 - 1, rest := rest, errno := ERANGE }

/-- A text with a number at the front: white space, a sign, digits, and what follows them. -/
structure Numeral (val space sign digits rest : List Char) : Prop where
  eq : val = space ++ (sign ++ (digits ++ rest))
  space : ∀ c ∈ space, isSpace c = true
  sign : sign = [] ∨ sign = ['+'] ∨ sign = ['-']
  digits_ne_nil : digits ≠ []
  digits : ∀ c ∈ digits, c.isDigit = true
  rest : NoDigit rest

/-- The number that digits make. -/
abbrev value (digits : List Char) : Nat := Nat.ofDigitChars 10 digits 0

theorem readSign_of_digit {c : Char} {text : List Char} (h : c.isDigit = true) :
    readSign (c :: text) = (false, c :: text) := by
  rw [readSign]
  · rintro text' heq
    cases heq
    exact absurd h (by decide)
  · rintro text' heq
    cases heq
    exact absurd h (by decide)

namespace Numeral

variable {val space sign digits rest : List Char}

/-- A number that fits is returned, negated if there is a minus sign. -/
theorem strtoul_eq (hnumeral : Numeral val space sign digits rest) (errno : Nat) :
    strtoul errno val =
      if value digits < 2 ^ 64 then
        { num := if sign = ['-'] then (2 ^ 64 - value digits) % 2 ^ 64 else value digits,
          rest := rest, errno := errno }
      else { num := 2 ^ 64 - 1, rest := rest, errno := ERANGE } := by
  obtain ⟨c, digits', hcons⟩ := List.exists_cons_of_ne_nil hnumeral.digits_ne_nil
  have hc : c.isDigit = true := hnumeral.digits c (hcons ▸ List.mem_cons_self)
  have hread := readDigits_append hnumeral.digits_ne_nil hnumeral.digits hnumeral.rest
  have hsign : readSign (val.dropWhile isSpace) = (decide (sign = ['-']), digits ++ rest) := by
    rw [hnumeral.eq, List.dropWhile_append_of_pos hnumeral.space]
    obtain hsign | hsign | hsign := hnumeral.sign
    · rw [hsign, hcons, List.nil_append, List.cons_append,
        List.dropWhile_cons_of_neg (by simp [isSpace_of_isDigit hc]), readSign_of_digit hc]
      rfl
    · rw [hsign]
      rfl
    · rw [hsign]
      rfl
  rw [strtoul, hsign]
  dsimp only
  rw [hread]
  simp only [decide_eq_true_eq]

theorem rest_eq (hnumeral : Numeral val space sign digits rest) (errno : Nat) :
    (strtoul errno val).rest = rest := by
  rw [hnumeral.strtoul_eq errno]
  split
  · rfl
  · rfl

/-- What is read is not empty. -/
theorem length_lt (hnumeral : Numeral val space sign digits rest) :
    rest.length < val.length := by
  have hpos := List.length_pos_iff.mpr hnumeral.digits_ne_nil
  rw [hnumeral.eq, List.length_append, List.length_append, List.length_append]
  omega

end Numeral

/-- Either there is a number at the front or nothing is read. -/
theorem numeral_or_unread (errno : Nat) (val : List Char) :
    (∃ space sign digits rest, Numeral val space sign digits rest) ∨
      strtoul errno val = { num := 0, rest := val, errno := errno } := by
  obtain ⟨sign, hsign, happend⟩ : ∃ sign, (sign = [] ∨ sign = ['+'] ∨ sign = ['-']) ∧
      val.dropWhile isSpace = sign ++ (readSign (val.dropWhile isSpace)).2 := by
    generalize val.dropWhile isSpace = text
    unfold readSign
    split
    · exact ⟨['-'], .inr (.inr rfl), rfl⟩
    · exact ⟨['+'], .inr (.inl rfl), rfl⟩
    · exact ⟨[], .inl rfl, rfl⟩
  generalize hread : (readSign (val.dropWhile isSpace)).2 = text at happend
  have hsplit : text = text.takeWhile Char.isDigit ++ text.dropWhile Char.isDigit :=
    List.takeWhile_append_dropWhile.symm
  cases hdigits : text.takeWhile Char.isDigit with
  | nil =>
    right
    have hnone : readDigits text = none := by
      rw [readDigits, hdigits]
    rw [strtoul]
    dsimp only
    rw [hread, hnone]
  | cons c digits =>
    left
    refine ⟨val.takeWhile isSpace, sign, c :: digits, text.dropWhile Char.isDigit, ?_, ?_, hsign,
      List.cons_ne_nil c digits, ?_, ?_⟩
    · rw [← hdigits, ← hsplit, ← happend, List.takeWhile_append_dropWhile]
    · intro d hd
      exact List.mem_takeWhile_imp hd
    · intro d hd
      rw [← hdigits] at hd
      exact List.mem_takeWhile_imp hd
    · intro d hd
      have hhead := List.head?_dropWhile_not Char.isDigit text
      rw [Option.mem_def.mp hd] at hhead
      simpa using hhead

end Text
