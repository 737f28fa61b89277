import TagFilter.Filter.Basic

/-!
# Filters with shared nodes

Where filters are put together from others, one node may stand in several places. A `Shared` filter
shows this: every node has a name, and places with one name hold one node.

* `Shared` — the tree with names;
* `Shared.toFilter` — the filter without the names, which is what it means;
* `Shared.Coherent` — what the names promise: among the given filters, nodes of one name are one
  node;
* `Shared.ofFilter` — a filter with names of its own for all its nodes.
-/

namespace TagFilter

/-- A filter whose nodes have names. -/
inductive Shared where
  | identifier (name : Nat) (pattern : String)
  | and (name : Nat) (left right : Shared)
  | or (name : Nat) (left right : Shared)
  | not (name : Nat) (operand : Shared)
  deriving DecidableEq, Repr

namespace Shared

/-- The name of the root. -/
def name : Shared → Nat
  | identifier name _ => name
  | and name _ _ => name
  | or name _ _ => name
  | not name _ => name

/-- The form of the root. -/
def form : Shared → Filter.Form
  | identifier _ _ => .identifier
  | and _ _ _ => .and
  | or _ _ _ => .or
  | not _ _ => .not

/-- The pattern of a leaf. -/
def pattern? : Shared → Option String
  | identifier _ pattern => some pattern
  | and _ _ _ => none
  | or _ _ _ => none
  | not _ _ => none

/-- The filters right below the root, from left to right. -/
def children : Shared → List Shared
  | identifier _ _ => []
  | and _ left right => [left, right]
  | or _ left right => [left, right]
  | not _ operand => [operand]

/-- The filter without the names. -/
def toFilter : Shared → Filter
  | identifier _ pattern => .identifier pattern
  | and _ left right => .and left.toFilter right.toFilter
  | or _ left right => .or left.toFilter right.toFilter
  | not _ operand => .not operand.toFilter

/-- The nodes, each as the filter below it. -/
def nodes : Shared → List Shared
  | identifier name pattern => [identifier name pattern]
  | and name left right => and name left right :: (left.nodes ++ right.nodes)
  | or name left right => or name left right :: (left.nodes ++ right.nodes)
  | not name operand => not name operand :: operand.nodes

/-- Nodes of one name are one node. -/
def Coherent (filters : List Shared) : Prop :=
  ∀ x ∈ filters.flatMap nodes, ∀ y ∈ filters.flatMap nodes, x.name = y.name → x = y

/-- The number of places at which nodes stand. -/
def size : Shared → Nat
  | identifier _ _ => 1
  | and _ left right => left.size + right.size + 1
  | or _ left right => left.size + right.size + 1
  | not _ operand => operand.size + 1

/-- A filter whose nodes have names from `next` on, and the first name that is still free. -/
def ofFilter (next : Nat) : Filter → Shared × Nat
  | .identifier pattern => (identifier next pattern, next + 1)
  | .and left right =>
    let (left, next) := ofFilter next left
    let (right, next) := ofFilter next right
    (and next left right, next + 1)
  | .or left right =>
    let (left, next) := ofFilter next left
    let (right, next) := ofFilter next right
    (or next left right, next + 1)
  | .not operand =>
    let (operand, next) := ofFilter next operand
    (not next operand, next + 1)

/-- Filters that share no node, with names from `next` on. -/
def ofFilters (next : Nat) : List Filter → List Shared
  | [] => []
  | f :: fs =>
    let (s, next) := ofFilter next f
    s :: ofFilters next fs

/-- **Names do not change the filter.** -/
theorem toFilter_ofFilter (next : Nat) (f : Filter) : (ofFilter next f).1.toFilter = f := by
  induction f generalizing next with
  | identifier pattern => rfl
  | and left right hl hr => simp only [ofFilter, toFilter, hl, hr]
  | or left right hl hr => simp only [ofFilter, toFilter, hl, hr]
  | not operand h => simp only [ofFilter, toFilter, h]

end Shared

end TagFilter
