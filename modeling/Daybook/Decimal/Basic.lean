/-!
# Decimal numbers

A decimal number has a sign, a mantissa of 96 bits and up to 28 decimals: it is the mantissa divided
by the power of ten that its scale names. The scale is part of the number (`5.00` keeps its zeros)
and so is the sign of zero. Sums are compared through `units`, the number as a multiple of a small
common unit; changing the sign negates them (`units_neg`).
-/

namespace Daybook

namespace Decimal

/-- The most decimals that a number can have. -/
def maxScale : Nat := 28

/-- The first mantissa that is too large, `2 ^ 96`. -/
def mantissaLimit : Nat := 79228162514264337593543950336

def powerOfTen (n : Nat) : Nat := Nat.pow 10 n

end Decimal

/-- The number `±mantissa / 10 ^ scale`. -/
structure Decimal where
  negative : Bool
  mantissa : Nat
  scale : Nat
  mantissa_lt : mantissa < Decimal.mantissaLimit
  scale_le : scale ≤ Decimal.maxScale
  deriving DecidableEq, Repr

namespace Decimal

def zero : Decimal := ⟨false, 0, 0, by decide, by decide⟩

def one : Decimal := ⟨false, 1, 0, by decide, by decide⟩

instance : Inhabited Decimal := ⟨zero⟩

/-- The number with the given parts, if they are in range. A zero gets no minus sign. -/
def ofParts? (negative : Bool) (mantissa scale : Nat) : Option Decimal :=
  if h : mantissa < mantissaLimit ∧ scale ≤ maxScale then
    some ⟨negative && mantissa ≠ 0, mantissa, scale, h.1, h.2⟩
  else none

/-- Whether the number is zero, of either sign and with any number of decimals. -/
def isZero (a : Decimal) : Bool := a.mantissa = 0

def isBelowZero (a : Decimal) : Bool := a.negative && a.mantissa ≠ 0

/-- The number with the opposite sign, also for zero. -/
def neg (a : Decimal) : Decimal := { a with negative := !a.negative }

/-- The number without its sign. -/
def abs (a : Decimal) : Decimal := { a with negative := false }

/-- One, minus one or zero, by the sign of the number. -/
def signum (a : Decimal) : Decimal :=
  if a.isZero then zero else if a.negative then one.neg else one

def coefficient (a : Decimal) : Int := if a.negative then -(a.mantissa : Int) else a.mantissa

/-- The number as a multiple of `10 ^ -s`, exact when `s` is at least its scale. -/
def units (a : Decimal) (s : Nat) : Int := a.coefficient * powerOfTen (s - a.scale)

/-- Whether the first number is at most the second. -/
def le (a b : Decimal) : Bool :=
  a.units (max a.scale b.scale) ≤ b.units (max a.scale b.scale)

@[simp] theorem powerOfTen_zero : powerOfTen 0 = 1 := rfl

theorem powerOfTen_succ (n : Nat) : powerOfTen (n + 1) = 10 * powerOfTen n :=
  Nat.mul_comm (powerOfTen n) 10

theorem powerOfTen_pos (n : Nat) : 0 < powerOfTen n := by
  induction n with
  | zero => exact Nat.one_pos
  | succ n ih => rw [powerOfTen_succ]; omega

@[simp] theorem coefficient_zero : zero.coefficient = 0 := rfl

@[simp] theorem coefficient_neg (a : Decimal) : a.neg.coefficient = -a.coefficient := by
  cases h : a.negative <;> simp [coefficient, neg, h]

@[simp] theorem units_neg (a : Decimal) (s : Nat) : a.neg.units s = -a.units s := by
  have hs : a.neg.scale = a.scale := rfl
  simp only [units, coefficient_neg, hs, Int.neg_mul]

@[simp] theorem neg_neg (a : Decimal) : a.neg.neg = a := by
  simp [neg]

theorem natAbs_coefficient (a : Decimal) : a.coefficient.natAbs = a.mantissa := by
  cases h : a.negative <;> simp [coefficient, h]

theorem isZero_iff_coefficient (a : Decimal) : a.isZero = true ↔ a.coefficient = 0 := by
  cases h : a.negative <;> simp [isZero, coefficient, h]

end Decimal

end Daybook
