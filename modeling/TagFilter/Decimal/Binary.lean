/-!
# Decimal numbers and their nearest binary neighbours

A number written with a point or an exponent is kept as it was written. Where it is used, it stands
for the nearest number with 53 significant bits.

* `Decimal` — a number as it is written: sign, digits and a power of ten;
* `Binary` — a mantissa and a power of two;
* `Decimal.toBinary?` — the nearest number with 53 bits, unless the decimal is beyond all of them.
-/

namespace TagFilter

/-- The number `digits * 10 ^ exponent`, or its opposite. -/
structure Decimal where
  negative : Bool
  digits : Nat
  exponent : Int
  deriving DecidableEq, Repr

/-- The number `mantissa * 2 ^ exponent`. -/
structure Binary where
  mantissa : Nat
  exponent : Int
  deriving DecidableEq, Repr

namespace Binary

/-- The smallest power of two that a mantissa is multiplied by. -/
def leastExponent : Int := -1074

/-- The largest power of two that a mantissa is multiplied by. -/
def greatestExponent : Int := 971

/-- The smallest mantissa of a number with all its 53 bits: two to the power of 52. -/
def leastFull : Nat := 0x10000000000000

/-- The number itself. -/
def value (b : Binary) : Rat := b.mantissa * (2 : Rat) ^ b.exponent

/-- The integer nearest to a rational that is not negative; a half goes to the even neighbour. -/
def roundEven (x : Rat) : Nat :=
  let low := x.floor.toNat
  let excess := x - low
  if excess < 1 / 2 then low
  else if 1 / 2 < excess then low + 1
  else if low % 2 = 0 then low else low + 1

/-- The greatest power of two that is at most `x`, for a positive `x`. -/
def log2 (x : Rat) : Int :=
  let guess : Int := (x.num.natAbs.log2 : Int) - x.den.log2
  if (2 : Rat) ^ guess ≤ x then guess else guess - 1

/-- The number with 53 bits that is nearest to a rational that is not negative. -/
def nearest (x : Rat) : Binary :=
  let exponent := max (log2 x - 52) leastExponent
  let mantissa := roundEven (x / (2 : Rat) ^ exponent)
  -- rounding up may need one bit more
  if mantissa = 2 * leastFull then ⟨leastFull, exponent + 1⟩ else ⟨mantissa, exponent⟩

end Binary

/-- The nearest number with 53 bits to a decimal without its sign, if there is one. Numbers that are
too large or too small by many orders are settled by their length alone. -/
def Decimal.toBinary? (d : Decimal) : Option Binary :=
  let order := (Nat.repr d.digits).length + d.exponent
  if d.digits = 0 ∨ order < -330 then some ⟨0, Binary.leastExponent⟩
  else if 310 < order then none
  else
    let b := Binary.nearest (d.digits * (10 : Rat) ^ d.exponent)
    if Binary.greatestExponent < b.exponent then none else some b

end TagFilter
