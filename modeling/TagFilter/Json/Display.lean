import TagFilter.Json.Value
import TagFilter.Decimal.Shortest
import TagFilter.Text.Quoted

/-!
# Showing JSON values in messages

In a message a value is shown the way a reader would say it, not as JSON: `None`, `True` and `False`
for the three words, text in quotes, and a comma and a space between items.

* `Json.inner` — a value inside another one;
* `Json.display` — a value by itself: a text is then shown without quotes.
-/

namespace TagFilter.Json

/-- In messages an exponent has a sign and two digits, and stands below `0.0001` and from seventeen
digits before the point on. -/
def messageStyle : Decimal.Style := ⟨-3, 16, true, 2⟩

/-- A number as it is shown. -/
def Number.display : Number → String
  | whole n => toString n
  | decimal d => d.textIn messageStyle
  | notANumber => "nan"
  | infinity negative => if negative then "-inf" else "inf"

mutual

/-- A value inside another one. -/
def inner : Json → String
  | null => "None"
  | bool true => "True"
  | bool false => "False"
  | number n => n.display
  | string s => Text.quoted s
  | array items => "[" ++ ", ".intercalate (innerItems items) ++ "]"
  | object members =>
    "\x7b" ++ ", ".intercalate ((settled (innerMembers members)).map
      fun (name, value) => Text.quoted name ++ ": " ++ value) ++ "\x7d"

/-- The items of an array. -/
def innerItems : List Json → List String
  | [] => []
  | item :: items => item.inner :: innerItems items

/-- The members of an object. -/
def innerMembers : List (String × Json) → List (String × String)
  | [] => []
  | (name, value) :: members => (name, value.inner) :: innerMembers members

end

/-- A value by itself. -/
def display : Json → String
  | string s => s
  | j => j.inner

end TagFilter.Json
