import TagFilter.Filter.Basic
import TagFilter.Worklist

/-!
# Outlines

An outline shows a filter as a tree of labelled branches. It is put together one branch at a time:
a worklist holds the nodes that have no branch yet, each with the branch it belongs under, and new
branches go to the end of a table. How a node is called makes no difference to this, so it is left
open: for a terminal there are marks in a label that say how it looks.

* `Outline.label` — what a node is called: its operator, or its pattern;
* `Outline.markup` — what it is called in the markup of a terminal;
* `Outline.Entry`, `Outline.grow`, `Outline.entries` — the table and the loop that fills it;
* `Branch` — a tree of labels;
* `Outline.branchAt`, `Outline.ofFilter` — the tree that a table describes.
-/

namespace TagFilter

/-- A label with the branches below it, from top to bottom. -/
inductive Branch where
  | node (label : String) (branches : List Branch)
  deriving Repr

namespace Outline

/-- What a node is called, if patterns are written with `write`. -/
def label (write : String → String) : Filter → String
  | .identifier pattern => write pattern
  | .and left right => (Filter.and left right).form.title
  | .or left right => (Filter.or left right).form.title
  | .not operand => (Filter.not operand).form.title

/-- The label of a node between marks: patterns are green, and the names of operators are bold. -/
def mark : (f : Filter) → (label : String) → String
  | .identifier _, label => "[green]" ++ label ++ "[/green]"
  | _, label => "[bold]" ++ label ++ "[/bold]"

/-- What a node is called in the markup of a terminal. Patterns are escaped there, so that nothing
in them is taken for a mark. -/
def markup (escape : String → String) (f : Filter) : String := mark f (label escape f)

/-- A branch in the table: its label, and the number of the branch it belongs under. -/
structure Entry where
  parent : Option Nat
  label : String
  deriving DecidableEq, Repr

/-- The number of nodes below an entry of the worklist, itself included. -/
def entrySize (entry : Filter × Option Nat) : Nat := entry.1.size

/-- The children of a node, to be put under branch `parent`; the first one comes first. -/
def descend (f : Filter) (parent : Nat) : List (Filter × Option Nat) :=
  f.children.map fun child => (child, some parent)

/-- A filter has one node more than its children have together. -/
theorem worth_descend (f : Filter) (parent : Nat) :
    Worklist.worth entrySize (descend f parent) + 1 = f.size := by
  cases f <;> simp [entrySize, descend, Filter.children, Filter.size]

/-- Gives every node of the worklist a branch, and every node below it. A node `f` is called
`naming f`. -/
def grow (naming : Filter → String) (pending : List (Filter × Option Nat)) (table : Array Entry) :
    Array Entry :=
  match pending with
  | [] => table
  -- the new branch is the next one of the table; its children are the next to be visited
  | (f, parent) :: others =>
    grow naming (descend f table.size ++ others) (table.push ⟨parent, naming f⟩)
termination_by Worklist.worth entrySize pending
decreasing_by
  have h := worth_descend f table.size
  simp only [Worklist.worth_append, Worklist.worth_cons, entrySize] at *
  omega

/-- The table of branches of a filter. -/
def entries (naming : Filter → String) (f : Filter) : Array Entry := grow naming [(f, none)] #[]

/-- The numbers of the branches right under branch `i`, from top to bottom. A branch comes later in
the table than the one it belongs under. -/
def under (table : Array Entry) (i : Nat) : List Nat :=
  (List.range table.size).filter fun j => i < j ∧ (table[j]?.bind Entry.parent) = some i

theorem mem_under {table : Array Entry} {i j : Nat} (h : j ∈ under table i) :
    i < j ∧ j < table.size := by
  simp only [under, List.mem_filter, List.mem_range, decide_eq_true_eq] at h
  exact ⟨h.2.1, h.1⟩

/-- The tree at branch `i` of a table. -/
def branchAt (table : Array Entry) (i : Nat) : Branch :=
  .node ((table[i]?.map Entry.label).getD "")
    ((under table i).attach.map fun j => branchAt table j.1)
termination_by table.size - i
decreasing_by
  have := mem_under j.2
  omega

/-- The outline of a filter; its root is the first branch of the table. -/
def ofFilter (naming : Filter → String) (f : Filter) : Branch := branchAt (entries naming f) 0

end Outline

end TagFilter
