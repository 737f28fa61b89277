import TagFilter.Text.Numeral

/-!
# Integers written as text

A lenient reader of integers. A text that is no plain integer is tidied up first, in this order:

1. blanks around it go;
2. a plus sign in front goes;
3. zeros in front go, and with them underscores after the first zero; a minus sign may stand before
   the number or right after these zeros;
4. a point with zeros after it, and nothing else, goes;
5. single underscores between other characters go.

What is left has to be a plain integer.

* `Text.isWhitespace` — the characters that count as blanks around the text;
* `Text.withoutPlus`, `Text.withoutZeros`, `Text.withoutPoint`, `Text.withoutUnderscores` — the
  steps, and `Text.tidy` all of them;
* `Text.integer` — the integer that a text spells.
-/

namespace TagFilter.Text

/-- The characters with the property `White_Space`. -/
def isWhitespace (c : Char) : Bool :=
  let n := c.toNat
  (0x9 ≤ n && n ≤ 0xd) || n = 0x20 || n = 0x85 || n = 0xa0 || n = 0x1680 ||
    (0x2000 ≤ n && n ≤ 0x200a) || n = 0x2028 || n = 0x2029 || n = 0x202f || n = 0x205f || n = 0x3000

/-- The text without blanks at its ends. -/
def trim (text : List Char) : List Char :=
  ((text.dropWhile isWhitespace).reverse.dropWhile isWhitespace).reverse

/-- The text without a plus sign in front. No other sign may follow it. -/
def withoutPlus : List Char → Option (List Char)
  | '+' :: '-' :: _ => none
  | '+' :: text => some text
  | text => some text

/-- The characters that do not count at the front of a number that begins with a zero. -/
def isFiller (c : Char) : Bool := c = '0' || c = '_'

/-- The characters that can follow the zeros in front of a number, or stand in their place. -/
def opensNumber (c : Char) : Bool := c.isDigit || c = '-'

/-- A number, which begins with a digit or a minus sign, without the zeros in front of it. The last
of them stays where no other digit comes before the end or the point. -/
def withoutLeadingZeros : List Char → Option (List Char)
  | [] => none
  | '0' :: text =>
    let last := (text.takeWhile isFiller).getLastD '0'
    match text.dropWhile isFiller with
    | [] => some [last]
    | '.' :: rest => some (last :: '.' :: rest)
    | c :: rest => if opensNumber c then some (c :: rest) else none
  | c :: text => if opensNumber c then some (c :: text) else none

/-- A number without the zeros in front of it, which may have a minus sign before it. -/
def withoutZeros : List Char → Option (List Char)
  | '-' :: text => (withoutLeadingZeros text).map ('-' :: ·)
  | text => withoutLeadingZeros text

/-- The text without a point that has zeros after it, at least one, and nothing else. -/
def withoutPoint (text : List Char) : List Char :=
  match text.dropWhile (· ≠ '.') with
  | _ :: '0' :: zeros => if zeros.all (· = '0') then text.takeWhile (· ≠ '.') else text
  | _ => text

/-- The text without its underscores. Each of them has to stand between two other characters. -/
def withoutUnderscores : List Char → Option (List Char)
  | [] => none
  | [c] => if c = '_' then none else some [c]
  | c :: '_' :: text => if c = '_' then none else (withoutUnderscores text).map (c :: ·)
  | c :: text => if c = '_' then none else (withoutUnderscores text).map (c :: ·)

/-- The text without everything that does no harm in an integer. -/
def tidy (text : List Char) : Option (List Char) := do
  let text ← withoutPlus (trim text)
  let text ← withoutZeros text
  withoutUnderscores (withoutPoint text)

/-- How long an integer may be. -/
def integerLimit : Numeral.Limit := ⟨Numeral.lengthLimit, false⟩

/-- The integer that a text spells. A text that had to be tidied up is never blamed for its
length. -/
def integer (text : String) : Except Numeral.Fault Int :=
  match Numeral.whole integerLimit text.toList with
  | .error .malformed =>
    match (tidy text.toList).map (Numeral.whole integerLimit) with
    | some (.ok n) => .ok n
    | _ => .error .malformed
  | found => found

end TagFilter.Text
