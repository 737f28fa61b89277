import TagFilter.Json.Equality
import TagFilter.Sharing.Basic
import TagFilter.Workspace.Assignment

/-!
# Amendments

What assignments have done to a node is kept beside it, under its name: the table that took the
place of its members, the notes made on it, and the contents of its three stores. All places at
which the node stands see the same.

* `Member` — what can stand under a name: a node, or a value that was put there;
* `Amendment` — what has been done to one node, and `Amendment.apply`, which adds one change;
* `Amendments` — the amendments by the names of nodes;
* `Amendments.find?` — what a node has under a name: a note, a member of the table, or one of its
  own members, in this order;
* `Amendments.member` — the same, where a name that is not found is looked for in the stores;
* `Amendments.operands` — the operands of a node.
-/

namespace TagFilter

/-- What can stand under the name of a member. -/
inductive Member where
  | node (s : Shared)
  | value (v : Json)

/-- The members that a node has of its own. -/
def Shared.member? : Shared → String → Option Member
  | s, "type" => some (.value (.string s.form.tag))
  | identifier _ pattern, "pattern" => some (.value (.string pattern))
  | and _ left _, "left" => some (.node left)
  | and _ _ right, "right" => some (.node right)
  | or _ left _, "left" => some (.node left)
  | or _ _ right, "right" => some (.node right)
  | not _ operand, "expr" => some (.node operand)
  | _, _ => none

/-! ### Names looked for in values -/

/-- Does one text occur inside another one? -/
def Text.occursIn (part : List Char) : List Char → Bool
  | [] => part.isEmpty
  | c :: text => part.isPrefixOf (c :: text) || occursIn part text

/-- Is a name found in a value? -/
def Json.mentions (name : String) : Json → Except Obstacle Bool
  | string s => .ok (Text.occursIn name.toList s.toList)
  | array items => .ok (items.any (Json.same (.string name)))
  | object members => .ok (lastOf name members).isSome
  | j => .error (.notSearchable j.typeName)

/-- The entry of a value under a name. -/
def Json.entry? (name : String) : Json → Except Obstacle (Option Json)
  | string _ => .error .textEntries
  | array _ => .error .arrayEntries
  | object members => .ok (lastOf name members)
  | j => .error (.noEntries j.typeName)

/-! ### Amendments of nodes -/

/-- What has been done to a node. -/
structure Amendment where
  /-- The members that took the place of the node's own. -/
  table : Option (List (String × Json))
  /-- The notes, the latest first. -/
  notes : List (String × Json)
  /-- What is looked at for members that the node does not have. -/
  spare : Json
  /-- The members that the node keeps to itself. -/
  withheld : Json
  /-- The handlers that assignments are passed to, by name. -/
  handlers : Option Json
  deriving Repr

namespace Amendment

/-- Nothing has been done. -/
def none : Amendment := ⟨.none, [], .null, .null, .none⟩

/-- One change more. Handlers are kept among the notes and go with them. -/
def apply (a : Amendment) : Assignment.Change → Amendment
  | .table members => { a with table := some members, notes := [], handlers := .none }
  | .note name value => { a with notes := (name, value) :: a.notes }
  | .spare value => { a with spare := value }
  | .withheld value => { a with withheld := value }
  | .handlers value => { a with handlers := some value }

/-- What a node with this amendment has under a name. -/
def find? (a : Amendment) (s : Shared) (name : String) : Option Member :=
  match a.notes.lookup name with
  | some note => some (.value note)
  | .none =>
    match a.table with
    | some members => (Json.lastOf name members).map .value
    | .none => s.member? name

/-- The entry of a store under the name of a member that a node of the given form does not have. -/
def stored (form : Filter.Form) (name : String) (store : Json) : Except Obstacle Json := do
  match ← store.entry? name with
  | some found => pure found
  | .none => .error (.noMember form.typeName name)

/-- What stands in for a member that a node does not have. A note can say that the member is kept
back; otherwise the spare members are looked at. -/
def standIn (a : Amendment) (s : Shared) (name : String) : Except Obstacle Json := do
  match a.find? s "__private_attributes__" with
  | some (.value kept) =>
    if ← kept.mentions name then
      let _ ← kept.entry? name
      return ← stored s.form name a.withheld
  | _ => pure ()
  if a.spare.isVacant then .error (.noMember s.form.typeName name)
  else if ← a.spare.mentions name then stored s.form name a.spare
  else .error (.noMember s.form.typeName name)

/-- Is an assignment under this name let through? Handlers and notes can get in its way. -/
def admits (a : Amendment) (s : Shared) (name : String) : Except Obstacle Unit := do
  match a.handlers with
  | .none => pure ()
  | some (.object handlers) =>
    match Json.lastOf name handlers with
    | .none | some .null => pure ()
    | some handler => .error (.notCallable handler.typeName)
  | some other => .error (.noMember other.typeName "get")
  match a.find? s "_setattr_handler" with
  | some (.value note) => .error (.notCallable note.typeName)
  | _ => pure ()

end Amendment

/-- Amendments by the names of nodes; the latest comes first. -/
abbrev Amendments : Type := List (Nat × Amendment)

namespace Amendments

/-- The amendment of a node. -/
def of (as : Amendments) (s : Shared) : Amendment := (as.lookup s.name).getD .none

/-- The amendments after one change more to a node. -/
def amend (as : Amendments) (s : Shared) (change : Assignment.Change) : Amendments :=
  (s.name, (as.of s).apply change) :: as

/-- What a node has under a name. -/
def find? (as : Amendments) (s : Shared) (name : String) : Option Member := (as.of s).find? s name

/-- What stands under a name, or in for it. -/
def member (as : Amendments) (s : Shared) (name : String) : Except Obstacle Member :=
  match as.find? s name with
  | some found => .ok found
  | none => ((as.of s).standIn s name).map .value

/-- The value under a name that nothing need stand under. -/
def optional (as : Amendments) (s : Shared) (name : String) : Except Obstacle Json :=
  match as.member s name with
  | .ok (.value found) => .ok found
  | .ok (.node _) => .ok .null
  | .error (.noMember _ _) => .ok .null
  | .error why => .error why

/-- The operands of a node, from left to right. All of them have to be there. -/
def operands (as : Amendments) (s : Shared) : Except Obstacle (List Member) :=
  match as.find? s "children" with
  | some (.value found) => .error (.notCallable found.typeName)
  | _ =>
    match s.form with
    | .identifier => .ok []
    | .and | .or => do pure [← as.member s "left", ← as.member s "right"]
    | .not => do pure [← as.member s "expr"]

end Amendments

end TagFilter
