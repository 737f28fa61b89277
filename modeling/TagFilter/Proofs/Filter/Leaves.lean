import Mathlib
import TagFilter.Filter.Basic

/-!
# Leaves, and putting a filter in the place of one

* `Filter.leaves` — the patterns of the leaves, from left to right;
* `Filter.graft` — a filter with one leaf, told by its number from the left, replaced by another
  filter. Everything else stays as it is;
* `Filter.Joins` — what the two nodes with two operands have in common: the leaves of the left
  operand come first, and a leaf is replaced in the operand it belongs to.
-/

namespace TagFilter.Filter

/-- The patterns of the leaves, from left to right. -/
def leaves : Filter → List String
  | identifier pattern => [pattern]
  | and left right => left.leaves ++ right.leaves
  | or left right => left.leaves ++ right.leaves
  | not operand => operand.leaves

/-- `f.graft k g` is `f` with `g` in the place of the leaf number `k`, counted from zero. -/
def graft (f : Filter) (k : Nat) (g : Filter) : Filter :=
  match f with
  | identifier pattern => if k = 0 then g else identifier pattern
  | and left right =>
    if k < left.leaves.length then and (left.graft k g) right
    else and left (right.graft (k - left.leaves.length) g)
  | or left right =>
    if k < left.leaves.length then or (left.graft k g) right
    else or left (right.graft (k - left.leaves.length) g)
  | not operand => not (operand.graft k g)

/-- `join` makes a node of two operands. -/
structure Joins (join : Filter → Filter → Filter) : Prop where
  leaves_eq (f h : Filter) : (join f h).leaves = f.leaves ++ h.leaves
  graft_eq (f h : Filter) (k : Nat) (g : Filter) : (join f h).graft k g =
    if k < f.leaves.length then join (f.graft k g) h
    else join f (h.graft (k - f.leaves.length) g)

theorem joins_and : Joins .and := ⟨fun _ _ => rfl, fun _ _ _ _ => rfl⟩

theorem joins_or : Joins .or := ⟨fun _ _ => rfl, fun _ _ _ _ => rfl⟩

namespace Joins

variable {join : Filter → Filter → Filter} {f g h : Filter} {k : Nat}

theorem graft_left (hjoin : Joins join) (hk : k < f.leaves.length) :
    (join f h).graft k g = join (f.graft k g) h := by
  rw [hjoin.graft_eq, if_pos hk]

theorem graft_right (hjoin : Joins join) :
    (join f h).graft (f.leaves.length + k) g = join f (h.graft k g) := by
  rw [hjoin.graft_eq, if_neg (by omega), Nat.add_sub_cancel_left]

end Joins

end TagFilter.Filter
