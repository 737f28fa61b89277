import TagFilter.Json.Value

/-!
# Equality of JSON values

Two values are equal if they stand for the same thing. Numbers are compared as numbers, however they
are written, and the words `true` and `false` count as one and zero. The order of the members of an
object does not matter.

* `Json.Number.same` — equality of numbers; what is no number is not even equal to itself;
* `Json.same` — equality of canonical values;
* `Json.isVacant` — the values that stand for nothing: no value, no truth, zero, and what is empty.
-/

namespace TagFilter.Json

namespace Number

/-- The number itself, if it is finite. -/
def value? : Number → Option Rat
  | whole n => some n
  | decimal d => d.toBinary?.map fun b => if d.negative then -b.value else b.value
  | notANumber => none
  | infinity _ => none

/-- The sign of an infinite number: is it negative? -/
def infinite? : Number → Option Bool
  | whole _ => none
  | decimal d => if d.toBinary?.isNone then some d.negative else none
  | notANumber => none
  | infinity negative => some negative

/-- Do two numbers have the same value? -/
def same (m n : Number) : Bool :=
  match m.value?, n.value? with
  | some x, some y => x = y
  | none, none =>
    match m.infinite?, n.infinite? with
    | some x, some y => x = y
    | _, _ => false
  | _, _ => false

end Number

/-- The number that a value counts as. -/
def number? : Json → Option Number
  | bool b => some (.whole (if b then 1 else 0))
  | number n => some n
  | _ => none

/-- Does a value count as this number? -/
def isNumber (m : Number) (j : Json) : Bool :=
  match j.number? with
  | some n => m.same n
  | none => false

mutual

/-- Are two canonical values equal? -/
def same : Json → Json → Bool
  | null, null => true
  | bool b, j => j.isNumber (.whole (if b then 1 else 0))
  | number n, j => j.isNumber n
  | string s, string t => s = t
  | array items, array others => sameItems items others
  | object members, object others =>
    members.length = others.length && sameMembers members others
  | _, _ => false

/-- Are the items of two arrays equal, one by one? -/
def sameItems : List Json → List Json → Bool
  | [], [] => true
  | item :: items, other :: others => item.same other && sameItems items others
  | _, _ => false

/-- Does each member have an equal one of the same name among the others? -/
def sameMembers : List (String × Json) → List (String × Json) → Bool
  | [], _ => true
  | (name, value) :: members, others =>
    (match lastOf name others with
      | some other => value.same other
      | none => false) && sameMembers members others

end

/-- Does a value stand for nothing? -/
def isVacant : Json → Bool
  | null => true
  | bool b => !b
  | number n => n.value? = some 0
  | string s => s.isEmpty
  | array items => items.isEmpty
  | object members => members.isEmpty

end TagFilter.Json
