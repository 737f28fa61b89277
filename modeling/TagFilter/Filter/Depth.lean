import TagFilter.Filter.Basic
import TagFilter.Worklist

/-!
# Depth

The depth of a filter is the number of nodes on a longest path from its root to a leaf. It is
found without recursion on the filter: a worklist holds nodes with the level they stand on, and the
deepest level seen so far is kept.

* `Filter.height` — the depth, by recursion on the tree;
* `Filter.deepest` — the loop over a worklist;
* `Filter.depth` — the loop, started at the root on level one.
-/

namespace TagFilter.Filter

/-- The number of nodes on a longest path to a leaf. -/
def height : Filter → Nat
  | identifier _ => 1
  | and left right => max left.height right.height + 1
  | or left right => max left.height right.height + 1
  | not operand => operand.height + 1

/-- The number of nodes below an entry of the worklist, itself included. -/
def entrySize (entry : Filter × Nat) : Nat := entry.1.size

/-- The children of a node that stands on `level`, each with its own level; the last one first. -/
def descend (f : Filter) (level : Nat) : List (Filter × Nat) :=
  f.children.reverse.map fun child => (child, level + 1)

/-- A filter has one node more than its children have together. -/
theorem worth_descend (f : Filter) (level : Nat) :
    Worklist.worth entrySize (f.descend level) + 1 = f.size := by
  cases f <;> simp [entrySize, descend, children, size, Nat.add_comm]

/-- The deepest level among `found` and the nodes reachable from the worklist. The node on top is
taken and its children are put in its place. -/
def deepest (pending : List (Filter × Nat)) (found : Nat) : Nat :=
  match pending with
  | [] => found
  | (f, level) :: others => deepest (f.descend level ++ others) (max found level)
termination_by Worklist.worth entrySize pending
decreasing_by
  have h := worth_descend f level
  simp only [Worklist.worth_append, Worklist.worth_cons, entrySize] at *
  omega

/-- The number of nodes on a longest path to a leaf, found with a worklist. -/
def depth (f : Filter) : Nat := deepest [(f, 1)] 0

end TagFilter.Filter
