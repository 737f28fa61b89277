import TagFilter.Evaluation.Machine
import TagFilter.Json.Display

/-!
# Obstacles

Where the members of a node have been replaced, something may be missing that a step looks for, or
stand there that the step has no use for.

* `Obstacle` — what gets in the way of a step, with its wording in `Obstacle.message` and the name
  of its sort in `Obstacle.sort`.
-/

namespace TagFilter

/-- What gets in the way of a step. Types are given by their names. -/
inductive Obstacle where
  /-- A thing of this type has no member of this name. -/
  | noMember (type member : String)
  /-- Something that can be called is wanted. -/
  | notCallable (type : String)
  /-- Something is wanted that names can be looked for in. -/
  | notSearchable (type : String)
  /-- Something is wanted that has its entries under names, and there are no entries at all. -/
  | noEntries (type : String)
  /-- An array has its entries under numbers. -/
  | arrayEntries
  /-- A text has its characters under numbers. -/
  | textEntries
  /-- Something is wanted that can be an element of a set. -/
  | noElement (type : String)
  /-- A text is wanted. -/
  | noText (type : String)
  /-- A node is wanted. -/
  | noNode (found : Json)
  /-- The tag of a form is wanted. -/
  | noForm (found : Json)

/-- The name of the type of forms. -/
def Filter.Form.kindName : String := "ExpressionType"

/-- The wording of an obstacle. -/
def Obstacle.message : Obstacle → String
  | noMember type member =>
    Text.quoted type ++ " object has no attribute " ++ Text.quoted member
  | notCallable type => Text.quoted type ++ " object is not callable"
  | notSearchable type => "argument of type " ++ Text.quoted type ++ " is not iterable"
  | noEntries type => Text.quoted type ++ " object is not subscriptable"
  | arrayEntries => "list indices must be integers or slices, not str"
  | textEntries => "string indices must be integers, not 'str'"
  | noElement type => "unhashable type: " ++ Text.quoted type
  | noText type => "can only concatenate str (not \"" ++ type ++ "\") to str"
  | noNode found => Machine.Fault.message Json.inner (.foreign found)
  | noForm found => found.inner ++ " is not a valid " ++ Filter.Form.kindName

/-- The name of the sort of an obstacle. -/
def Obstacle.sort : Obstacle → String
  | noMember _ _ => "AttributeError"
  | noForm _ => "ValueError"
  | _ => "TypeError"

end TagFilter
