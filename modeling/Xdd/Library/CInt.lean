import Mathlib

/-!
# Fixed-width integers of C

A value of a C integer type is the mathematical integer it stands for. Storing a
result reduces it to the width of its type: modulo `2 ^ w` for unsigned types, and
to the balanced residue for signed ones. Both are ring congruences, so a chain of
conversions can be cut down to the outermost one, and a result that fits its type
is not changed at all.
-/

namespace CInt

/-- Conversion to the unsigned type of width `w`. -/
def unsigned (w : Nat) (x : Int) : Int := x % (2 ^ w : Nat)

/-- Conversion to the signed type of width `w`, in two's complement. -/
def signed (w : Nat) (x : Int) : Int := x.bmod (2 ^ w)

variable {w : Nat} {x y : Int}

theorem unsigned_of_fits (hlow : 0 ≤ x) (hhigh : x < (2 ^ w : Nat)) : unsigned w x = x :=
  Int.emod_eq_of_lt hlow hhigh

theorem signed_of_fits (hlow : -(2 ^ w : Nat) ≤ x) (hhigh : x < (2 ^ w : Nat)) :
    signed (w + 1) x = x := by
  have hpow : ((2 ^ (w + 1) : Nat) : Int) = 2 * (2 ^ w : Nat) := by
    rw [Nat.pow_succ]
    omega
  refine Int.bmod_eq_of_le ?_ ?_ <;> omega

theorem unsigned_signed (w : Nat) (x : Int) : unsigned w (signed w x) = unsigned w x :=
  Int.bmod_emod

theorem unsigned_add_unsigned (w : Nat) (x y : Int) :
    unsigned w (x + unsigned w y) = unsigned w (x + y) :=
  Int.add_emod_emod x y _

theorem unsigned_unsigned_add (w : Nat) (x y : Int) :
    unsigned w (unsigned w x + y) = unsigned w (x + y) :=
  Int.emod_add_emod x _ y

theorem unsigned_add_signed (w : Nat) (x y : Int) :
    unsigned w (x + signed w y) = unsigned w (x + y) := by
  rw [← unsigned_add_unsigned, unsigned_signed, unsigned_add_unsigned]

theorem unsigned_unsigned_mul (w : Nat) (x y : Int) :
    unsigned w (unsigned w x * y) = unsigned w (x * y) := by
  simp only [unsigned]
  exact (Int.mod_modEq x _).mul_right y

end CInt
