import TagFilter.Json.Value
import TagFilter.Text.Numeral

/-!
# Reading JSON

A text is read as one JSON value, strictly: no comments, no commas too many, no text after the
value. In two things the reader goes its own way. Besides finite numbers the words `NaN`, `Infinity`
and `-Infinity` are numbers; and an escape of one half of a surrogate pair is refused, unless it
stands beside the other half. A text in which arrays and objects are nested more deeply than a given
number of levels is refused; empty ones do not count as a level, since nothing is nested in them. A
number that is too long before its point is refused as well.

* `Json.Reader` — reads something off the front of a text and leaves the rest;
* `Reader.number`, `Reader.stringBody`, `Reader.separated` — numbers, strings, and lists of things
  between commas;
* `Reader.value` — one value;
* `Json.Limits` — how deep a text may be nested and how long its numbers may be;
* `Json.ofText?`, `Json.ofBytes?` — a whole text, and a whole text as bytes.
-/

namespace TagFilter.Json

/-- Reads something off the front of a text, if it is there, and leaves the rest. -/
abbrev Reader (α : Type) : Type := List Char → Option (α × List Char)

namespace Reader

variable {α : Type}

/-- The characters that may stand between the parts of a text. -/
def isSpace (c : Char) : Bool := c = ' ' || c = '\t' || c = '\n' || c = '\r'

/-- The text without the space at its front. -/
def skip (text : List Char) : List Char := text.dropWhile isSpace

/-! ### Numbers -/

/-- At least one digit, all that there are. -/
def digits : Reader (List Char) := fun text =>
  match text.takeWhile Char.isDigit with
  | [] => none
  | found => some (found, text.dropWhile Char.isDigit)

/-- The digits after a point, if there is one. -/
def fraction : Reader (Option (List Char))
  | '.' :: text => (digits text).map fun (found, rest) => (some found, rest)
  | text => some (none, text)

/-- A power of ten after the letter for it. -/
def signedDigits : Reader Int
  | '-' :: text => (digits text).map fun (found, rest) => (-(Text.ofDigits found : Int), rest)
  | '+' :: text => (digits text).map fun (found, rest) => ((Text.ofDigits found : Int), rest)
  | text => (digits text).map fun (found, rest) => ((Text.ofDigits found : Int), rest)

/-- The exponent, if there is one. -/
def exponent : Reader (Option Int)
  | 'e' :: text | 'E' :: text => (signedDigits text).map fun (found, rest) => (some found, rest)
  | text => some (none, text)

/-- A finite number that is not too long before its point. It is whole if it has neither point nor
exponent. -/
def finite (limit : Text.Numeral.Limit) : Reader Number := fun text => do
  let (whole, text) ← (Text.Numeral.read limit text).toOption
  let (part, text) ← fraction text
  let (power, text) ← exponent text
  match part, power with
  | none, none => pure (.whole whole.value, text)
  | _, _ =>
    let part := part.getD []
    let mantissa := Text.ofDigits (whole.digits ++ part)
    pure (.decimal ⟨whole.negative, mantissa, power.getD 0 - part.length⟩, text)

/-- A number. -/
def number (limit : Text.Numeral.Limit) : Reader Number
  | 'N' :: 'a' :: 'N' :: rest => some (.notANumber, rest)
  | 'I' :: 'n' :: 'f' :: 'i' :: 'n' :: 'i' :: 't' :: 'y' :: rest => some (.infinity false, rest)
  | '-' :: 'I' :: 'n' :: 'f' :: 'i' :: 'n' :: 'i' :: 't' :: 'y' :: rest =>
    some (.infinity true, rest)
  | text => finite limit text

/-! ### Strings -/

/-- The value of a digit in base sixteen. -/
def hexDigit? (c : Char) : Option Nat :=
  if '0' ≤ c ∧ c ≤ '9' then some (c.toNat - '0'.toNat)
  else if 'a' ≤ c ∧ c ≤ 'f' then some (c.toNat - 'a'.toNat + 10)
  else if 'A' ≤ c ∧ c ≤ 'F' then some (c.toNat - 'A'.toNat + 10)
  else none

/-- The code unit that four digits in base sixteen stand for. -/
def codeUnit? (a b c d : Char) : Option Nat := do
  let a ← hexDigit? a
  let b ← hexDigit? b
  let c ← hexDigit? c
  let d ← hexDigit? d
  pure (((a * 16 + b) * 16 + c) * 16 + d)

/-- Code units that begin a pair. -/
def isHighUnit (u : Nat) : Bool := 0xd800 ≤ u && u < 0xdc00

/-- Code units that end a pair. -/
def isLowUnit (u : Nat) : Bool := 0xdc00 ≤ u && u < 0xe000

/-- The character that a pair of code units stands for. -/
def joinUnits (high low : Nat) : Char :=
  Char.ofNat (0x10000 + (high - 0xd800) * 0x400 + (low - 0xdc00))

/-- The character that a backslash and this letter stand for. -/
def escaped? (letter : Char) : Option Char :=
  match letter with
  | '"' => some '"'
  | '\\' => some '\\'
  | '/' => some '/'
  | 'b' => some '\x08'
  | 'f' => some '\x0c'
  | 'n' => some '\n'
  | 'r' => some '\r'
  | 't' => some '\t'
  | _ => none

/-- Puts a character in front of what was read. -/
def cons (c : Char) (found : List Char × List Char) : List Char × List Char :=
  (c :: found.1, found.2)

/-- The characters of a string up to its closing quote. Controls have to be written as escapes, and
a code unit that is half of a pair has to stand beside the other half. -/
def stringBody : Reader (List Char)
  | [] => none
  | '"' :: rest => some ([], rest)
  | '\\' :: 'u' :: a :: b :: c :: d :: rest =>
    match codeUnit? a b c d with
    | none => none
    | some u =>
      if isHighUnit u then
        -- the other half has to follow at once, and as an escape
        match rest with
        | '\\' :: 'u' :: a :: b :: c :: d :: rest =>
          match codeUnit? a b c d with
          | none => none
          | some v => if isLowUnit v then (stringBody rest).map (cons (joinUnits u v)) else none
        | _ => none
      else if isLowUnit u then none
      else (stringBody rest).map (cons (Char.ofNat u))
  | '\\' :: letter :: rest =>
    match escaped? letter with
    | none => none
    | some c => (stringBody rest).map (cons c)
  -- any other character stands for itself, unless it is a control
  | c :: rest => if c < ' ' then none else (stringBody rest).map (cons c)

/-- A string. -/
def string : Reader String
  | '"' :: text => (stringBody text).map fun (body, rest) => (String.ofList body, rest)
  | _ => none

/-! ### Arrays, objects, values -/

/-- One thing or several with commas between them, up to a closing mark. There are at most as many
things as `bound` has characters: one of these is counted off for each thing. -/
def separatedWithin (close : Char) (item : Reader α) : (bound : List Char) → Reader (List α)
  | [], _ => none
  | _ :: bound, text =>
    match item text with
    | none => none
    | some (first, rest) =>
      match skip rest with
      | [] => none
      | mark :: rest =>
        -- a comma is followed by another thing, never by the closing mark
        if mark = close then some ([first], rest)
        else if mark = ',' then
          (separatedWithin close item bound rest).map fun (others, rest) => (first :: others, rest)
        else none

/-- One thing or several with commas between them, up to a closing mark. Every thing takes a
character at least, so there are no more of them than the text has characters. -/
def separated (close : Char) (item : Reader α) : Reader (List α) := fun text =>
  separatedWithin close item text text

/-- A name, a colon and a value. -/
def member (value : Reader α) : Reader (String × α) := fun text => do
  let (name, text) ← string (skip text)
  match skip text with
  | ':' :: text =>
    let (found, text) ← value text
    pure ((name, found), text)
  | _ => none

/-- A value whose parts are read by `inner`; space in front of it is passed. -/
def valueWith (limit : Text.Numeral.Limit) (inner : Reader Json) : Reader Json := fun text =>
  match skip text with
  | '{' :: text =>
    match skip text with
    | '}' :: rest => some (.object [], rest)
    | text => (separated '}' (member inner) text).map fun (found, rest) => (.object found, rest)
  | '[' :: text =>
    match skip text with
    | ']' :: rest => some (.array [], rest)
    | text => (separated ']' inner text).map fun (found, rest) => (.array found, rest)
  | '"' :: text => (string ('"' :: text)).map fun (found, rest) => (.string found, rest)
  | 'n' :: 'u' :: 'l' :: 'l' :: rest => some (.null, rest)
  | 't' :: 'r' :: 'u' :: 'e' :: rest => some (.bool true, rest)
  | 'f' :: 'a' :: 'l' :: 's' :: 'e' :: rest => some (.bool false, rest)
  | text => (number limit text).map fun (found, rest) => (.number found, rest)

/-- A value in which arrays and objects that are not empty are nested at most `levels` deep. -/
def value (limit : Text.Numeral.Limit) : (levels : Nat) → Reader Json
  -- nothing can be nested any more, but empty arrays and objects still can stand here
  | 0 => valueWith limit fun _ => none
  | levels + 1 => valueWith limit (value limit levels)

end Reader

/-- How much of a text is read at all. -/
structure Limits where
  /-- The number of levels to which arrays and objects may be nested. -/
  nesting : Nat
  /-- How long a number may be before its point. -/
  number : Text.Numeral.Limit
  deriving DecidableEq, Repr

/-- The value of a whole text. -/
def ofText? (limits : Limits) (text : List Char) : Option Json :=
  match Reader.value limits.number limits.nesting text with
  | none => none
  | some (found, rest) => if (Reader.skip rest).isEmpty then some found else none

/-- The value of a whole text given as bytes, which have to be valid UTF-8. -/
def ofBytes? (limits : Limits) (bytes : ByteArray) : Option Json :=
  match String.fromUTF8? bytes with
  | none => none
  | some text => ofText? limits text.toList

end TagFilter.Json
