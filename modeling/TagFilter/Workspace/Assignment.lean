import TagFilter.Workspace.Obstacle

/-!
# Assignments to nodes

A node cannot be changed: no name stands for a field that takes a new value. A name that begins with
an underscore is no field, and what is put under such a name is a note. Some of these names stand
for what every node has, and take no note; the name of the table of the fields takes another table,
which is how a node can be given other members after all. Three stores beside the members take any
value.

* `Assignment.Store` — where a value is to be put;
* `Assignment.Change` — what comes of an assignment;
* `Assignment.Refusal` — why an assignment is refused, with its wording in `Refusal.message`;
* `Assignment.attempt` — an assignment to a node of a given form.
-/

namespace TagFilter.Assignment

/-- Where a value is to be put. -/
inductive Store where
  /-- Under a name, among the members and notes. -/
  | members
  /-- In the store of members that are looked for where a node has none. -/
  | spare
  /-- In the store of the members that a node keeps to itself. -/
  | withheld
  /-- In the store of the handlers that assignments by name are passed to. -/
  | handlers
  deriving DecidableEq, Repr

/-- What comes of an assignment. -/
inductive Change where
  /-- Other members take the place of all members and notes. -/
  | table (members : List (String × Json))
  | note (name : String) (value : Json)
  | spare (value : Json)
  | withheld (value : Json)
  | handlers (value : Json)
  deriving Repr

/-- Why an assignment is refused. -/
inductive Refusal where
  /-- Nodes cannot be changed. -/
  | frozen (field : String)
  /-- The name stands for the type of the node, and the value is no type. -/
  | noType (field : String) (value : Json)
  /-- The name stands for the table of the node's fields, and the value is no table. -/
  | noTable (field : String) (value : Json)
  /-- The name stands for something that is worked out from the node. -/
  | derived (field : String) (form : Filter.Form)
  /-- The name stands for something that is kept for the node. -/
  | readOnly (field : String)

/-- The name of the type that all nodes have in common. -/
def commonType : String := "StrictModel"

/-- The wording of a refusal. -/
def Refusal.message : Refusal → String
  | frozen _ => "Instance is frozen"
  | noType field value =>
    field ++ " must be set to a class, not " ++ Text.quoted value.typeName ++ " object"
  | noTable field value =>
    field ++ " must be set to a dictionary, not a " ++ Text.quoted value.typeName
  | derived field form =>
    "property " ++ Text.quoted field ++ " of " ++ Text.quoted form.typeName ++
      " object has no setter"
  | readOnly field =>
    "attribute " ++ Text.quoted field ++ " of " ++ Text.quoted commonType ++
      " objects is not writable"

/-- Does the name begin with an underscore? -/
def isNote (field : String) : Bool :=
  match field.toList with
  | '_' :: _ => true
  | _ => false

/-- An assignment, under a name, to a node of the given form. -/
def attemptMember (form : Filter.Form) (field : String) (value : Json) : Except Refusal Change :=
  if !isNote field then .error (.frozen field)
  else if field = "__class__" then .error (.noType field value)
  else if field = "__dict__" then
    match value with
    | .object members => .ok (.table members)
    | _ => .error (.noTable field value)
  else if field = "__fields_set__" ∨ field = "__fields__" then .error (.derived field form)
  else if field = "__weakref__" then .error (.readOnly field)
  else .ok (.note field value)

/-- An assignment to a node of the given form. -/
def attempt (form : Filter.Form) (store : Store) (field : String) (value : Json) :
    Except Refusal Change :=
  match store with
  | .members => attemptMember form field value
  | .spare => .ok (.spare value)
  | .withheld => .ok (.withheld value)
  | .handlers => .ok (.handlers value)

end TagFilter.Assignment
