/-!
# Filters

A filter says which items are selected, by the tags they carry. It is a tree: a leaf names a
pattern, and the inner nodes combine filters by conjunction, disjunction and negation.

* `Filter` — the tree;
* `Filter.Form` — the four sorts of node, with the tag each has in a document (`Form.tag`), the
  title it has in a picture (`Form.title`) and the name it has in messages (`Form.typeName`);
* `Filter.form`, `Filter.children`, `Filter.size` — the node at the root, the filters right below
  it, the number of nodes.
-/

namespace TagFilter

/-- A boolean combination of patterns. -/
inductive Filter where
  | identifier (pattern : String)
  | and (left right : Filter)
  | or (left right : Filter)
  | not (operand : Filter)
  deriving DecidableEq, Repr

namespace Filter

/-- The four sorts of node. -/
inductive Form where
  | identifier
  | and
  | or
  | not
  deriving DecidableEq, Repr

/-- Every form, in the order in which they are listed to a reader. -/
def Form.all : List Form := [identifier, and, or, not]

/-- The word that marks a node of this form in a document. -/
def Form.tag : Form → String
  | identifier => "identifier"
  | and => "and"
  | or => "or"
  | not => "not"

/-- The word in capitals. -/
def Form.title : Form → String
  | identifier => "IDENTIFIER"
  | and => "AND"
  | or => "OR"
  | not => "NOT"

/-- The name of the type of a node of this form. -/
def Form.typeName : Form → String
  | identifier => "IdentifierExpression"
  | and => "AndExpression"
  | or => "OrExpression"
  | not => "NotExpression"

/-- The form a word marks; capitals matter. -/
def Form.ofTag? (s : String) : Option Form := Form.all.find? (·.tag = s)

theorem Form.mem_all (k : Form) : k ∈ Form.all := by cases k <;> decide

/-- **Reading a tag gives back its form.** -/
theorem Form.ofTag?_tag (k : Form) : Form.ofTag? k.tag = some k := by cases k <;> decide

/-- A word marks a form only if it is that form's tag. -/
theorem Form.tag_of_ofTag? {s : String} {k : Form} (h : Form.ofTag? s = some k) : k.tag = s := by
  simpa using List.find?_some h

/-- The form of the root. -/
def form : Filter → Form
  | identifier _ => .identifier
  | and _ _ => .and
  | or _ _ => .or
  | not _ => .not

/-- The filters right below the root, from left to right. -/
def children : Filter → List Filter
  | identifier _ => []
  | and left right => [left, right]
  | or left right => [left, right]
  | not operand => [operand]

/-- The number of nodes. -/
def size : Filter → Nat
  | identifier _ => 1
  | and left right => left.size + right.size + 1
  | or left right => left.size + right.size + 1
  | not operand => operand.size + 1

theorem size_pos (f : Filter) : 0 < f.size := by cases f <;> simp [size]

end Filter

end TagFilter
