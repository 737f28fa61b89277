import TagFilter.Decimal.Binary

/-!
# The shortest decimal

A binary number is written with the fewest decimal digits that still tell it from every other
number of 53 bits: among the decimals that round to it, one with the fewest digits, and of those
the nearest.

* `Binary.roundsTo` — does a rational round to this number?
* `Binary.shortest` — the digits and their power of ten;
* `Decimal.Style` — where a point is used and where an exponent, and how the exponent is written;
* `Decimal.textIn` — the written form in a style.
-/

namespace TagFilter

namespace Binary

/-- Does a positive rational round to this number? It does between the points halfway to the
neighbours, and at these points if the mantissa is even. Below a power of two the neighbour is at
half the distance. -/
def roundsTo (b : Binary) (x : Rat) : Bool :=
  let unit := (2 : Rat) ^ b.exponent
  let narrow := b.mantissa = leastFull ∧ leastExponent < b.exponent
  let low := b.value - (if narrow then unit / 4 else unit / 2)
  let high := b.value + unit / 2
  if b.mantissa % 2 = 0 then low ≤ x && x ≤ high else low < x && x < high

/-- The number of digits before the point, for a positive number; zeros right after the point count
below zero. Every number of 53 bits is greater than `10 ^ (-400)`. -/
def wholeDigits (x : Rat) : Int :=
  (Nat.repr (x * (10 : Rat) ^ (400 : Int)).floor.toNat).length - 400

/-- One of the two neighbours of `x` among the multiples of `10 ^ place` that rounds to `b`, the
nearer one if both do. -/
def neighbour? (b : Binary) (x : Rat) (place : Int) : Option (Nat × Int) :=
  let unit := (10 : Rat) ^ place
  -- `x` lies between `low * unit` and the next multiple
  let low := (x / unit).floor.toNat
  let lowGap := x - low * unit
  let highGap := (low + 1) * unit - x
  let lowFits := low ≠ 0 && b.roundsTo (low * unit)
  let highFits := b.roundsTo ((low + 1) * unit)
  if lowFits && highFits then
    if lowGap < highGap ∨ (lowGap = highGap ∧ low % 2 = 0) then some (low, place)
    else some (low + 1, place)
  else if lowFits then some (low, place)
  else if highFits then some (low + 1, place)
  else none

/-- The shortest decimal that rounds to a positive number, as digits and a power of ten. Seventeen
digits always suffice. -/
def shortest (b : Binary) : Nat × Int :=
  let x := b.value
  let whole := wholeDigits x
  -- the grid with the fewest digits on which a neighbour of `x` rounds to `x`
  ((List.range 17).findSome? fun n : Nat => neighbour? b x (whole - (n + 1))).getD (0, 0)

end Binary

/-- Digits without the zeros at their end. -/
def withoutFinalZeros (digits : List Char) : List Char :=
  (digits.reverse.dropWhile (· = '0')).reverse

/-- Digits with a point after the first `whole` of them; `whole` may lie outside the digits. -/
def positional (digits : List Char) (whole : Int) : List Char :=
  if whole ≤ 0 then '0' :: '.' :: List.replicate (-whole).toNat '0' ++ digits
  else
    let n := whole.toNat
    let fraction := digits.drop n
    digits.take n ++ List.replicate (n - digits.length) '0' ++
      '.' :: (if fraction.isEmpty then ['0'] else fraction)

/-- How the digits of a number are laid out. -/
structure Decimal.Style where
  /-- The fewest digits before the point with which a number is written without an exponent; zeros
  right after the point count below zero. -/
  fewest : Int
  /-- The most of them. -/
  most : Int
  /-- Does a plus sign stand before an exponent that is not negative? -/
  plus : Bool
  /-- The fewest digits that an exponent has. -/
  width : Nat
  deriving DecidableEq, Repr

/-- Digits with a point after the first one, and a power of ten. -/
def scientific (style : Decimal.Style) (digits : List Char) (power : Int) : List Char :=
  let size := (Nat.repr power.natAbs).toList
  let sign := if power < 0 then ['-'] else if style.plus then ['+'] else []
  let mantissa := match digits with
    | [] => []
    | [d] => [d]
    | d :: fraction => d :: '.' :: fraction
  mantissa ++ 'e' :: (sign ++ List.replicate (style.width - size.length) '0' ++ size)

/-- The text of the nearest number with 53 bits. -/
def Decimal.textIn (style : Decimal.Style) (d : Decimal) : String :=
  let body := match d.toBinary? with
    | none => ['i', 'n', 'f']
    | some b =>
      if b.mantissa = 0 then ['0', '.', '0']
      else
        let (digits, place) := b.shortest
        let shown := (Nat.repr digits).toList
        let whole := shown.length + place
        let kept := withoutFinalZeros shown
        if style.fewest ≤ whole ∧ whole ≤ style.most then positional kept whole
        else scientific style kept (whole - 1)
  String.ofList (if d.negative then '-' :: body else body)

end TagFilter
