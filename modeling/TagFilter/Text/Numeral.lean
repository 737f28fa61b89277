/-!
# Plain integers

An integer is written plainly with a minus sign or none, and then with digits, the first of which is
no zero unless it is the only one. A plain integer may not be longer than a given limit. Every digit
counts towards its length, but whether a minus sign does so as well is not the same in all readers,
and so it is a part of the limit.

* `Text.ofDigits` — the number that decimal digits stand for;
* `Text.Numeral` — a plain integer as it is written; `Numeral.value` is the integer;
* `Numeral.Limit` — how long a plain integer may be;
* `Numeral.read` — reads a plain integer off the front of a text;
* `Numeral.whole` — the integer that a whole text spells plainly.
-/

namespace TagFilter.Text

/-- The number that decimal digits stand for. -/
def ofDigits (digits : List Char) : Nat :=
  digits.foldl (fun n c => 10 * n + (c.toNat - '0'.toNat)) 0

/-- An integer as it is written: with a sign or none, and digits. -/
structure Numeral where
  negative : Bool
  digits : List Char
  deriving DecidableEq, Repr

namespace Numeral

/-- Why there is no plain integer. -/
inductive Fault where
  /-- What is written is none. -/
  | malformed
  /-- It is too long. -/
  | tooLong
  deriving DecidableEq, Repr

/-- The integer. -/
def value (n : Numeral) : Int :=
  if n.negative then -(ofDigits n.digits : Int) else ofDigits n.digits

/-- How long a plain integer may be. -/
structure Limit where
  /-- The greatest length. -/
  length : Nat
  /-- Whether a minus sign counts towards the length, as every digit does. -/
  signCounts : Bool
  deriving DecidableEq, Repr

/-- A number alone is a limit for the digits. -/
instance {n : Nat} : OfNat Limit n := ⟨⟨n, false⟩⟩

/-- The length of an integer as it is written. -/
def length (signCounts : Bool) (n : Numeral) : Nat :=
  if signCounts && n.negative then n.digits.length + 1 else n.digits.length

/-- The integer is not too long. -/
def Limit.Fits (limit : Limit) (n : Numeral) : Prop := n.length limit.signCounts ≤ limit.length

instance {limit : Limit} {n : Numeral} : Decidable (limit.Fits n) :=
  inferInstanceAs (Decidable (_ ≤ _))

/-- The greatest length of an integer in a document. -/
def lengthLimit : Nat := 4300

/-- Reads the digits of a plain integer whose sign is known. All the digits that there are belong to
it. -/
def readDigits (limit : Limit) (negative : Bool) (text : List Char) :
    Except Fault (Numeral × List Char) :=
  let n : Numeral := ⟨negative, text.takeWhile Char.isDigit⟩
  match n.digits with
  | [] => .error .malformed
  | '0' :: _ :: _ => .error .malformed
  | _ => if limit.Fits n then .ok (n, text.dropWhile Char.isDigit) else .error .tooLong

/-- Reads a plain integer that is not too long off the front of a text. -/
def read (limit : Limit) : List Char → Except Fault (Numeral × List Char)
  | '-' :: text => readDigits limit true text
  | text => readDigits limit false text

/-- The integer that a whole text spells plainly. An integer that is too long counts as such
whatever comes after it. -/
def whole (limit : Limit) (text : List Char) : Except Fault Int :=
  match read limit text with
  | .error why => .error why
  | .ok (n, []) => .ok n.value
  | .ok (_, _ :: _) => .error .malformed

end Numeral

end TagFilter.Text
