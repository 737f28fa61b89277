import TagFilter.Decimal.Binary

/-!
# JSON values

A value as it stands in a JSON text: an object keeps its members in the order in which they were
written, and a name that is written twice is there twice.

* `Json.Number`, `Json` — the values;
* `Json.lastOf` — what a name stands for in an object: the last of its members counts;
* `Json.names` — the names of an object's members, each once, in the order of first appearance;
* `Json.canonical` — a value in which no object has two members of one name;
* `Json.typeName` — the word for the sort of a value.
-/

namespace TagFilter

/-- A number: whole, written with a point or an exponent, or one of the words that stand for no
finite number. -/
inductive Json.Number where
  | whole (n : Int)
  | decimal (d : Decimal)
  | notANumber
  | infinity (negative : Bool)
  deriving DecidableEq, Repr

/-- A JSON value. -/
inductive Json where
  | null
  | bool (b : Bool)
  | number (n : Json.Number)
  | string (s : String)
  | array (items : List Json)
  | object (members : List (String × Json))
  deriving Repr

namespace Json

variable {α : Type}

/-- What a name stands for among the members of an object: the last one of that name counts. -/
def lastOf (name : String) : List (String × α) → Option α
  | [] => none
  | (key, value) :: others =>
    match lastOf name others with
    | some later => some later
    | none => if key = name then some value else none

/-- The names of the members, each once, in the order of first appearance. -/
def names (members : List (String × α)) : List String :=
  members.foldl (fun seen (key, _) => if key ∈ seen then seen else seen ++ [key]) []

/-- Members with each name once: it stands where it first appeared and has the last value written
for it. -/
def settled (members : List (String × α)) : List (String × α) :=
  (names members).filterMap fun name => (lastOf name members).map (name, ·)

mutual

/-- The value with each name once in every object. -/
def canonical : Json → Json
  | null => null
  | bool b => bool b
  | number n => number n
  | string s => string s
  | array items => array (canonicalItems items)
  | object members => object (settled (canonicalMembers members))

/-- The items of an array, each with every name once. -/
def canonicalItems : List Json → List Json
  | [] => []
  | item :: items => item.canonical :: canonicalItems items

/-- The members of an object, the value of each with every name once. -/
def canonicalMembers : List (String × Json) → List (String × Json)
  | [] => []
  | (name, value) :: members => (name, value.canonical) :: canonicalMembers members

end

/-- The word for the sort of a value, as messages use it. -/
def typeName : Json → String
  | null => "NoneType"
  | bool _ => "bool"
  | number (.whole _) => "int"
  | number _ => "float"
  | string _ => "str"
  | array _ => "list"
  | object _ => "dict"

end Json

end TagFilter
