import TagFilter.Filter.Basic
import TagFilter.Json.Display
import TagFilter.Text.Template
import TagFilter.Token

/-!
# Defects of documents

A value that is to become a filter or a token is checked as a whole, and everything wrong with it is
reported: each defect with its cause and the path of names that leads to it.

* `Defect.Cause` — what can be wrong, with the short code (`Cause.code`) and the wording
  (`Cause.message`) of each;
* `Defect` — a cause and a path;
* `Checked` — a value, or all that is wrong with it; `Checked.both` joins two checks and loses
  nothing that either of them found.
-/

namespace TagFilter

/-- How the values that are checked are handed in. -/
inductive Defect.Entry where
  /-- As the text of a document. -/
  | text
  /-- As members, one by one. -/
  | members
  deriving DecidableEq, Repr

/-- What can be wrong with a value. -/
inductive Defect.Cause where
  /-- The text is no JSON. -/
  | unreadable
  /-- A member that has to be there is not. -/
  | missing
  /-- A member that has no business there. -/
  | surplus
  /-- A text is wanted. -/
  | notText
  /-- A node has to be an object. -/
  | notObject (entry : Defect.Entry)
  /-- An object does not say which form of node it is. -/
  | noTag
  /-- An object says that it is something else than the four forms. -/
  | unknownTag (found : Json)
  /-- A node of one form says that it is something else. -/
  | otherTag (form : Filter.Form)
  /-- A node claims to be of one form and is of another. -/
  | otherNode (form : Filter.Form)
  /-- A member that is wanted could not be read, for the given reason. -/
  | notRead (why : String)
  /-- The name of a kind of token is wanted. -/
  | notKind
  /-- An integer is wanted. -/
  | notInteger
  /-- An integer is wanted, and the text spells none. -/
  | noIntegerText
  /-- An integer is wanted, and the number has a fraction. -/
  | fractional
  /-- An integer is wanted, and the number is not finite. -/
  | notFinite
  /-- An integer is wanted, and the number is too large for one. -/
  | tooLarge
  /-- A node stands too many levels inside other nodes. -/
  | tooNested
  /-- Nodes cannot be changed. -/
  | frozen
  deriving Repr

/-- Names between single quotes, with commas between them. -/
def quotedNames (names : List String) : List String := names.map fun name => "'" ++ name ++ "'"

namespace Defect.Cause

/-- The short name of a cause. -/
def code : Cause → String
  | unreadable => "json_invalid"
  | missing => "missing"
  | surplus => "extra_forbidden"
  | notText => "string_type"
  | notObject .text => "dict_type"
  | notObject .members => "model_attributes_type"
  | noTag => "union_tag_not_found"
  | unknownTag _ => "union_tag_invalid"
  | otherTag _ => "literal_error"
  | otherNode _ => "model_type"
  | notRead _ => "get_attribute_error"
  | notKind => "enum"
  | notInteger => "int_type"
  | noIntegerText => "int_parsing"
  | fractional => "int_from_float"
  | notFinite => "finite_number"
  | tooLarge => "int_parsing_size"
  | tooNested => "recursion_depth_exceeded"
  | frozen => "frozen_instance"

/-- The names of all kinds of token, as they are listed to a reader. -/
def kindList : String :=
  let names := quotedNames (Token.Kind.all.map Token.Kind.name)
  ", ".intercalate names.dropLast ++ " or " ++ names.getLast?.getD ""

/-- The wording of a cause. What makes a text no JSON is left to the reader of JSON to say. -/
def message : Cause → Option String
  | unreadable => none
  | missing => "Field required"
  | surplus => "Extra inputs are not permitted"
  | notText => "Input should be a valid string"
  | notObject .text => "Input should be an object"
  | notObject .members =>
    "Input should be a valid dictionary or object to extract fields from"
  | noTag => "Unable to extract tag using discriminator 'type'"
  | unknownTag found =>
    -- the list of tags comes last, so that a hole for it in the found tag is filled too
    Text.fill
      [("discriminator", "'type'"), ("tag", found.display),
        ("expected_tags", ", ".intercalate (quotedNames (Filter.Form.all.map Filter.Form.tag)))]
      ("Input tag '\x7btag\x7d' found using \x7bdiscriminator\x7d " ++
        "does not match any of the expected tags: \x7bexpected_tags\x7d")
  | otherTag form => "Input should be '" ++ form.tag ++ "'"
  | otherNode form => "Input should be a valid dictionary or instance of " ++ form.typeName
  | notRead why => "Error extracting attribute: " ++ why
  | notKind => "Input should be " ++ kindList
  | notInteger => "Input should be a valid integer"
  | noIntegerText => "Input should be a valid integer, unable to parse string as an integer"
  | fractional => "Input should be a valid integer, got a number with a fractional part"
  | notFinite => "Input should be a finite number"
  | tooLarge => "Unable to parse input string as an integer, exceeded maximum size"
  | tooNested => "Recursion error - maximum validation depth exceeded"
  | frozen => "Instance is frozen"

end Defect.Cause

/-- Something wrong with a value: what it is, and the names that lead to it from the outside. -/
structure Defect where
  cause : Defect.Cause
  path : List String
  deriving Repr

/-- The defect as it is seen from one step further out. -/
def Defect.under (step : String) (d : Defect) : Defect := { d with path := step :: d.path }

/-- A value, or everything that is wrong with what was to become it. -/
abbrev Checked (α : Type) : Type := Except (List Defect) α

namespace Checked

variable {α β : Type}

/-- One defect, right here. -/
def fail (cause : Defect.Cause) : Checked α := .error [⟨cause, []⟩]

/-- The check as it is seen from one step further out. -/
def under (step : String) (c : Checked α) : Checked α := c.mapError (·.map (Defect.under step))

/-- What is wrong; nothing if there is a value. -/
def defects : Checked α → List Defect
  | .ok _ => []
  | .error found => found

/-- Two checks, one after the other, both of which are made whatever the other one finds. -/
def both (c : Checked α) (d : Checked β) : Checked (α × β) :=
  match c, d with
  | .ok a, .ok b => .ok (a, b)
  | c, d => .error (c.defects ++ d.defects)

/-- A member that has to be there, checked by `check`. -/
def required {ι : Type} (name : String) (check : ι → Checked α) (members : List (String × ι)) :
    Checked α :=
  match Json.lastOf name members with
  | none => (fail .missing).under name
  | some found => (check found).under name

/-- No members but those with the given names. -/
def noOthers {ι : Type} (known : List String) (members : List (String × ι)) : Checked Unit :=
  match (Json.names members).filter (· ∉ known) with
  | [] => .ok ()
  | found => .error (found.map fun name => ⟨.surplus, [name]⟩)

/-- A text. -/
def text : Json → Checked String
  | .string s => .ok s
  | _ => fail .notText

end Checked

end TagFilter
