import TagFilter.Json.Value
import TagFilter.Decimal.Shortest
import TagFilter.Text.Quoted

/-!
# Writing JSON

* `Json.Layout` — on one line without any space, or one item on a line, indented by level;
* `Json.escape` — how a character is written in a string: the quote, the backslash and the controls
  are written as escapes, and everything else as it is;
* `Json.write` — a value as text.
-/

namespace TagFilter.Json

/-- How the parts of a value are laid out. -/
inductive Layout where
  /-- On one line, without any space. -/
  | compact
  /-- Each item on a line of its own, with this number of spaces for every level. -/
  | indented (width : Nat)
  deriving DecidableEq, Repr

/-- What stands before an item on the given level, and before the mark that closes its list. -/
def Layout.lineBreak : Layout → (level : Nat) → List Char
  | compact, _ => []
  | indented width, level => '\n' :: List.replicate (width * level) ' '

/-- What stands between a name and its value. -/
def Layout.colon : Layout → List Char
  | compact => [':']
  | indented _ => [':', ' ']

/-- How a character is written in a string. -/
def escape (c : Char) : List Char :=
  if c = '"' ∨ c = '\\' then ['\\', c]
  else if c = '\x08' then ['\\', 'b']
  else if c = '\t' then ['\\', 't']
  else if c = '\n' then ['\\', 'n']
  else if c = '\x0c' then ['\\', 'f']
  else if c = '\r' then ['\\', 'r']
  else if c < ' ' then '\\' :: 'u' :: Text.hex 4 c.toNat
  else [c]

/-- A string in quotes. -/
def writeString (s : String) : List Char := '"' :: s.toList.flatMap escape ++ ['"']

/-- In documents an exponent has a sign and at least two digits, and stands below `0.00001` and from
seventeen digits before the point on. -/
def documentStyle : Decimal.Style := ⟨-4, 16, true, 2⟩

/-- A number. What is not finite is written as if there were no value. -/
def Number.write : Number → List Char
  | whole n => (toString n).toList
  | decimal d =>
    match d.toBinary? with
    | none => ['n', 'u', 'l', 'l']
    | some _ => (d.textIn documentStyle).toList
  | notANumber => ['n', 'u', 'l', 'l']
  | infinity _ => ['n', 'u', 'l', 'l']

mutual

/-- A value that stands on the given level. -/
def write (layout : Layout) (level : Nat) : Json → List Char
  | null => ['n', 'u', 'l', 'l']
  | bool true => ['t', 'r', 'u', 'e']
  | bool false => ['f', 'a', 'l', 's', 'e']
  | number n => n.write
  | string s => writeString s
  | array [] => ['[', ']']
  | array (item :: items) =>
    '[' :: (layout.lineBreak (level + 1) ++ item.write layout (level + 1) ++
      writeItems layout level items ++ (layout.lineBreak level ++ [']']))
  | object [] => ['{', '}']
  | object ((name, value) :: members) =>
    '{' :: (layout.lineBreak (level + 1) ++ writeString name ++ layout.colon ++
      value.write layout (level + 1) ++
      writeMembers layout level members ++ (layout.lineBreak level ++ ['}']))

/-- The items after the first one. -/
def writeItems (layout : Layout) (level : Nat) : List Json → List Char
  | [] => []
  | item :: items =>
    ',' :: (layout.lineBreak (level + 1) ++ item.write layout (level + 1) ++
      writeItems layout level items)

/-- The members after the first one. -/
def writeMembers (layout : Layout) (level : Nat) : List (String × Json) → List Char
  | [] => []
  | (name, value) :: members =>
    ',' :: (layout.lineBreak (level + 1) ++ writeString name ++ layout.colon ++
      value.write layout (level + 1) ++ writeMembers layout level members)

end

/-- A value as text. -/
def toText (layout : Layout) (j : Json) : String := String.ofList (j.write layout 0)

end TagFilter.Json
