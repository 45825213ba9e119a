import Daybook.Decimal.Basic

/-!
# Sums, differences and products of decimal numbers

A result that does not fit the mantissa loses decimals, rounded half to even, until it does; it
overflows when no decimals are left to lose. Main statement: a sum whose exact value fits is exact
(`units_ofUnits?`).
-/

namespace Daybook.Decimal

/-- The quotient rounded to the nearest whole number, a half to the even neighbour. -/
def roundQuotient (m d : Nat) : Nat :=
  let q := m / d
  let twice := 2 * (m % d)
  if d < twice || (twice = d && q % 2 = 1) then q + 1 else q

@[simp] theorem roundQuotient_one (m : Nat) : roundQuotient m 1 = m := by
  simp [roundQuotient, Nat.mod_one]

/-- The number `m / 10 ^ dropped` with `scale` decimals, or with as few less as make it fit. -/
def settle (negative : Bool) (m dropped : Nat) : (scale : Nat) → Option Decimal
  | 0 => ofParts? negative (roundQuotient m (powerOfTen dropped)) 0
  | scale + 1 =>
    match ofParts? negative (roundQuotient m (powerOfTen dropped)) (scale + 1) with
    | some a => some a
    | none => settle negative m (dropped + 1) scale

/-- The number `n / 10 ^ scale`, rounded if it does not fit; `none` when it overflows. -/
def ofUnits? (n : Int) (scale : Nat) : Option Decimal := settle (n < 0) n.natAbs 0 scale

/-- The sum. A zero leaves the other number as it is, decimals and all. -/
def add? (a b : Decimal) : Option Decimal :=
  if a.isZero then some b
  else if b.isZero then some a
  else
    let s := max a.scale b.scale
    ofUnits? (a.units s + b.units s) s

/-- The difference. A zero taken from a zero is the result as it stands. -/
def sub? (a b : Decimal) : Option Decimal :=
  if a.isZero && b.isZero then some b else a.add? b.neg

def isSmall (a : Decimal) : Bool := a.mantissa < 4294967296

/-- The most decimals that a product of two small mantissas is computed with. -/
def smallProductScale : Nat := 47

/-- The product. A product with a zero is the plain zero, and so is one of two small mantissas with
more decimals than `smallProductScale`. -/
def mul? (a b : Decimal) : Option Decimal :=
  if a.isZero || b.isZero then some zero
  else if a.isSmall && b.isSmall && smallProductScale < a.scale + b.scale then some zero
  else settle (a.negative != b.negative) (a.mantissa * b.mantissa) 0 (a.scale + b.scale)

/-- The number rounded to at most `places` decimals, half to even. A zero keeps its sign, and a
number that becomes zero has none. -/
def round (a : Decimal) (places : Nat) : Decimal :=
  if h : places < a.scale then
    let m := roundQuotient a.mantissa (powerOfTen (a.scale - places))
    if hm : m < mantissaLimit then
      ⟨a.negative && (a.isZero || m ≠ 0), m, places, hm,
        Nat.le_trans (Nat.le_of_lt h) a.scale_le⟩
    else a
  else a

theorem ofParts?_of_fits {negative : Bool} {m s : Nat} (hm : m < mantissaLimit)
    (hs : s ≤ maxScale) :
    ofParts? negative m s = some ⟨negative && m ≠ 0, m, s, hm, hs⟩ :=
  dif_pos ⟨hm, hs⟩

theorem settle_of_fits {negative : Bool} {m scale : Nat} (hm : m < mantissaLimit)
    (hs : scale ≤ maxScale) :
    settle negative m 0 scale = ofParts? negative m scale := by
  cases scale with
  | zero => simp [settle]
  | succ s => simp [settle, ofParts?_of_fits hm hs]

theorem coefficient_of_ofParts? {negative : Bool} {m s : Nat} {a : Decimal}
    (h : ofParts? negative m s = some a) :
    a.coefficient = (if negative then -(m : Int) else m) ∧ a.scale = s := by
  simp only [ofParts?] at h
  split at h
  · obtain rfl := Option.some.inj h
    refine ⟨?_, rfl⟩
    cases negative
    · simp [coefficient]
    · by_cases hm : m = 0 <;> simp [coefficient, hm]
  · simp at h

theorem units_ofUnits? {n : Int} {s : Nat} (hn : n.natAbs < mantissaLimit) (hs : s ≤ maxScale) :
    ∃ a, ofUnits? n s = some a ∧ a.coefficient = n ∧ a.scale = s := by
  refine ⟨⟨decide (n < 0) && n.natAbs ≠ 0, n.natAbs, s, hn, hs⟩, ?_, ?_, rfl⟩
  · rw [ofUnits?, settle_of_fits hn hs, ofParts?_of_fits hn hs]
  · simp only [coefficient]
    split <;> rename_i hc
    · simp only [Bool.and_eq_true, decide_eq_true_eq] at hc
      omega
    · simp only [Bool.and_eq_true, decide_eq_true_eq, not_and] at hc
      omega

theorem add?_of_zero_left {a b : Decimal} (h : a.isZero = true) : a.add? b = some b := by
  simp [add?, h]

end Daybook.Decimal
