import TagFilter.Document.Defect
import TagFilter.Text.Integer

/-!
# Tokens made from members

A token can be made from its parts, each under its name. The kind is given by name and the text as
text; for the three numbers everything is taken that can be understood as an integer.

* `Checked.integer` — which values can;
* `Token.ofMembers` — the token, or everything that is wrong with the members.
-/

namespace TagFilter

/-- The integers that a number with a point or an exponent is turned into lie between these bounds,
which are excluded: two to the power of 63, and its opposite. -/
def wordBound : Int := 0x8000000000000000

/-- The integer that a number with a point or an exponent amounts to. -/
def Decimal.integer (d : Decimal) : Checked Int :=
  match d.toBinary? with
  | none => Checked.fail .notFinite
  | some b =>
    let x := if d.negative then -b.value else b.value
    -- a number is whole if its lowest terms have no denominator
    if x.den ≠ 1 then Checked.fail .fractional
    else if -wordBound < x.num ∧ x.num < wordBound then .ok x.num
    else Checked.fail .tooLarge

/-- The integer that a value amounts to: the two truth values count as one and zero, a number must
have no fraction, and a text must spell an integer. -/
def Checked.integer : Json → Checked Int
  | .bool b => .ok (if b then 1 else 0)
  | .number (.whole n) => .ok n
  | .number (.decimal d) => d.integer
  | .number .notANumber => fail .notFinite
  | .number (.infinity _) => fail .notFinite
  | .string s =>
    match Text.integer s with
    | .ok n => .ok n
    | .error .malformed => fail .noIntegerText
    | .error .tooLong => fail .tooLarge
  | .null => fail .notInteger
  | .array _ => fail .notInteger
  | .object _ => fail .notInteger

/-- A kind of token, given by its name. -/
def Checked.kind : Json → Checked Token.Kind
  | .string s =>
    match Token.Kind.ofName? s with
    | none => fail .notKind
    | some k => .ok k
  | _ => fail .notKind

/-- The token with the given parts. -/
def Token.ofMembers (members : List (String × Json)) : Checked Token :=
  let kind := Checked.required "type" Checked.kind members
  let value := Checked.required "value" Checked.text members
  let position := Checked.required "position" Checked.integer members
  let line := Checked.required "line" Checked.integer members
  let column := Checked.required "column" Checked.integer members
  (kind.both (value.both (position.both (line.both (column.both
    (Checked.noOthers Token.parts members)))))).map
    fun (kind, value, position, line, column, _) => ⟨kind, value, position, line, column⟩

/-- The tokens of a list in which each is given by the values of its parts, in their order. The
first one that has a defect is reported. -/
def Token.ofRows : List (List Json) → Checked (List Token)
  | [] => .ok []
  | row :: rows => do
    let t ← Token.ofMembers (Token.parts.zip row)
    let ts ← Token.ofRows rows
    pure (t :: ts)

end TagFilter
