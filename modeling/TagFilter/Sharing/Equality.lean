import TagFilter.Sharing.Basic
import TagFilter.Worklist

/-!
# Equality of filters with shared nodes

Two filters are equal if they have the same form, the same patterns and equal operands in the same
order. The comparison goes through a worklist of pairs; a pair of places that hold one node needs no
further look.

* `Shared.samePairs` — the loop over the worklist;
* `Shared.same` — the comparison of two filters.
-/

namespace TagFilter.Shared

/-- The number of places on the left side of a pair. -/
def pairSize (pair : Shared × Shared) : Nat := pair.1.size

/-- The children of two nodes, side by side; the last pair comes first. -/
def childPairs (a b : Shared) : List (Shared × Shared) := (a.children.zip b.children).reverse

theorem worth_childPairs_lt (a b : Shared) :
    Worklist.worth pairSize (childPairs a b) < a.size := by
  cases a <;> cases b <;> simp [pairSize, childPairs, children, size, List.zip] <;> omega

/-- Is every pair a pair of equal filters? -/
def samePairs (pairs : List (Shared × Shared)) : Bool :=
  match pairs with
  | [] => true
  | (a, b) :: others =>
    -- one node is equal to itself
    if a.name = b.name then samePairs others
    else if a.form ≠ b.form ∨ a.pattern? ≠ b.pattern? then false
    else samePairs (childPairs a b ++ others)
termination_by Worklist.worth pairSize pairs
decreasing_by
  · have : 0 < a.size := by cases a <;> simp [size]
    simp only [Worklist.worth_cons, pairSize]
    omega
  · have := worth_childPairs_lt a b
    simp only [Worklist.worth_append, Worklist.worth_cons, pairSize] at *
    omega

/-- Are two filters equal? -/
def same (a b : Shared) : Bool := samePairs [(a, b)]

end TagFilter.Shared
