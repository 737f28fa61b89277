import TagFilter.Document.Defect

/-!
# How deep nodes may stand

How deep the nodes of a text may stand is settled where the text is read. Nodes that are handed in
as members of another node are limited here.

Every form with operands has a reader of its own. A reader reads the nodes below it in place, except
those of a form that comes before its own in the order `and`, `or`, `not`: it passes such a node on
to the reader of that form, which then reads everything below. A node opens one level, and a node
that is passed on opens two.

* `Filter.Place` — where a node stands;
* `Place.enter` — the place of what stands below a node, if the node does not stand too deep.
-/

namespace TagFilter.Filter

/-- The place of a form in the order of the readers. Leaves are read by every reader in place. -/
def Form.rank : Form → Nat
  | and => 0
  | or => 1
  | not => 2
  | identifier => 3

/-- Where a node stands. -/
inductive Place where
  /-- In a text. -/
  | text
  /-- Among members that the reader of a form reads, with so many levels open. -/
  | members (reader : Form) (levels : Nat)
  deriving DecidableEq, Repr

namespace Place

/-- The number of levels that may be open. -/
def levelLimit : Nat := 255

/-- How the node is handed in. -/
def entry : Place → Defect.Entry
  | text => .text
  | members _ _ => .members

/-- The place of the members of a node. -/
def enter (place : Place) (form : Form) : Option Place :=
  match place with
  | text => some text
  | members reader levels =>
    let passedOn := form.rank < reader.rank
    let levels := if passedOn then levels + 2 else levels + 1
    if levels ≤ levelLimit then some (members (if passedOn then form else reader) levels) else none

end Place

end TagFilter.Filter
