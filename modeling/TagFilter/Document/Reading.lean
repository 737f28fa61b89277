import TagFilter.Document.Nesting
import TagFilter.Json.Reader

/-!
# Filters read from documents

A node of a filter is an object whose `type` says which form it has. A leaf has a `pattern`, a
conjunction and a disjunction have a `left` and a `right` operand, a negation has one operand
`expr`, and no object has members besides these.

* `Filter.ofJson` — the filter that a value describes, or every defect of the value. A path of names
  gets the tag of each node it goes through; below an object that is no node nothing is looked at;
* `Filter.ofMembers` — the filter of a given form with the given members;
* `textLimits` — how deep a text may be nested and how long its numbers may be;
* `Filter.ofTextWithin`, `Filter.ofBytesWithin` — the filter that a text describes, under given
  limits; `Filter.ofText` and `Filter.ofBytes` are the same for a reader to which a minus sign is no
  part of the length of a number.

Operands are checked from the inside out: `checkMembers` checks every member as if it were an
operand, and a node takes the ones that its form asks for.
-/

namespace TagFilter.Filter

/-- The names that a node of a form may have. -/
def Form.names : Form → List String
  | identifier => ["type", "pattern"]
  | and => ["type", "left", "right"]
  | or => ["type", "left", "right"]
  | not => ["type", "expr"]

/-- A node of a given form. Its members are given twice: as they are, and checked as operands. -/
def ofParts (form : Form) (members : List (String × Json))
    (operands : List (String × Checked Filter)) : Checked Filter :=
  -- an operand has been checked before; only its place is added to what was found
  let operand (name : String) : Checked Filter := .required name id operands
  let noOthers := Checked.noOthers form.names members
  match form with
  | .identifier =>
    ((Checked.required "pattern" Checked.text members).both noOthers).map
      fun (pattern, _) => .identifier pattern
  | .and =>
    (((operand "left").both (operand "right")).both noOthers).map
      fun ((left, right), _) => .and left right
  | .or =>
    (((operand "left").both (operand "right")).both noOthers).map
      fun ((left, right), _) => .or left right
  | .not => ((operand "expr").both noOthers).map fun (found, _) => .not found

mutual

/-- The filter that a value at the given place describes. -/
def check (place : Place) : Json → Checked Filter
  | .object members =>
    match Json.lastOf "type" members with
    | none => .fail .noTag
    | some (.string tag) =>
      match Form.ofTag? tag with
      | none => .fail (.unknownTag (.string tag))
      | some form =>
        match place.enter form with
        -- what stands too deep is not looked at
        | none => Checked.under form.tag (.fail .tooNested)
        | some inside => (ofParts form members (checkMembers inside members)).under form.tag
    | some found => .fail (.unknownTag found)
  | _ => .fail (.notObject place.entry)

/-- The members of an object, each checked as an operand at the given place. -/
def checkMembers (place : Place) : List (String × Json) → List (String × Checked Filter)
  | [] => []
  | (name, value) :: members => (name, check place value) :: checkMembers place members

end

/-- The filter that a value describes, which was read from a text. -/
def ofJson (j : Json) : Checked Filter := check .text j

/-- The member `type` of a node whose form is known: it may be left out. -/
def agrees (form : Form) (members : List (String × Json)) : Checked Unit :=
  match Json.lastOf "type" members with
  | none => .ok ()
  | some (.string tag) =>
    if tag = form.tag then .ok () else (Checked.fail (.otherTag form)).under "type"
  | some _ => (Checked.fail (.otherTag form)).under "type"

/-- The filter of a given form with the given members. It is read by the reader of its form, and
opens the first level. -/
def ofMembers (form : Form) (members : List (String × Json)) : Checked Filter :=
  ((agrees form members).both
    (ofParts form members (checkMembers (.members form 1) members))).map (·.2)

/-- How deep a text may be nested and how long its numbers may be, to a reader to which a minus sign
is a part of the length or is none: releases of the library that reads the texts differ in this. -/
def textLimits (signCounts : Bool) : Json.Limits := ⟨200, ⟨Text.Numeral.lengthLimit, signCounts⟩⟩

/-- The filter that a value describes, if the text could be read as a value at all. -/
def ofReading (found : Option Json) : Checked Filter :=
  match found with
  | none => .fail .unreadable
  | some j => ofJson j

/-- The filter that a text within the limits describes. -/
def ofTextWithin (limits : Json.Limits) (text : String) : Checked Filter :=
  ofReading (Json.ofText? limits text.toList)

/-- The filter that a text within the limits describes, if the text is given as bytes. -/
def ofBytesWithin (limits : Json.Limits) (bytes : ByteArray) : Checked Filter :=
  ofReading (Json.ofBytes? limits bytes)

/-- The filter that a text describes. -/
def ofText (text : String) : Checked Filter := ofTextWithin (textLimits false) text

/-- The filter that a text given as bytes describes. -/
def ofBytes (bytes : ByteArray) : Checked Filter := ofBytesWithin (textLimits false) bytes

end TagFilter.Filter
