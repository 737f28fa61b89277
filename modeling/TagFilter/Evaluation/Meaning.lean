import TagFilter.Filter.Basic

/-!
# What a filter means

* `Subjects` — the tags of an item, given as a list or as one tag alone;
* `Filter.holds` — does a filter select an item with these tags? A pattern is met by a tag that
  equals it, character for character: a star stands for itself;
* `Evaluand` — a filter as an evaluator may meet it, where things that are no filter can stand in
  the place of operands;
* `Evaluand.meaning` — its value, or the first such thing that is reached. Operands are taken from
  left to right, and a right operand only if the left one leaves the question open.
-/

namespace TagFilter

/-- The tags of an item. One tag may be given by itself: it is a tag, not a list of letters. -/
inductive Subjects where
  | single (tag : String)
  | several (tags : List String)
  deriving Repr

/-- The tags as a list. -/
def Subjects.tags : Subjects → List String
  | single tag => [tag]
  | several tags => tags

/-- Does the filter select an item with these tags? -/
def Filter.holds (tags : List String) : Filter → Bool
  | identifier pattern => pattern ∈ tags
  | and left right => left.holds tags && right.holds tags
  | or left right => left.holds tags || right.holds tags
  | not operand => !operand.holds tags

/-- A filter in which things of type `φ` may stand where filters are wanted. -/
inductive Evaluand (φ : Type) where
  | identifier (pattern : String)
  | and (left right : Evaluand φ)
  | or (left right : Evaluand φ)
  | not (operand : Evaluand φ)
  /-- Something that is no filter. -/
  | foreign (thing : φ)
  deriving Repr

namespace Evaluand

variable {φ : Type}

/-- A filter, with nothing foreign in it. -/
def ofFilter : Filter → Evaluand φ
  | .identifier pattern => identifier pattern
  | .and left right => and (ofFilter left) (ofFilter right)
  | .or left right => or (ofFilter left) (ofFilter right)
  | .not operand => not (ofFilter operand)

/-- The value of an evaluand, or the first foreign thing reached. -/
def meaning (tags : List String) : Evaluand φ → Except φ Bool
  | identifier pattern => .ok (pattern ∈ tags)
  | and left right =>
    match left.meaning tags with
    | .ok true => right.meaning tags
    | decided => decided
  | or left right =>
    match left.meaning tags with
    | .ok false => right.meaning tags
    | decided => decided
  | not operand => (operand.meaning tags).map fun b => !b
  | foreign thing => .error thing

/-- **Without foreign things the meaning is the truth value of the filter.** -/
theorem meaning_ofFilter (tags : List String) (f : Filter) :
    (ofFilter f : Evaluand φ).meaning tags = .ok (f.holds tags) := by
  induction f with
  | identifier pattern => rfl
  | and left right hl hr =>
    simp only [ofFilter, meaning, hl, hr, Filter.holds]
    cases left.holds tags <;> rfl
  | or left right hl hr =>
    simp only [ofFilter, meaning, hl, hr, Filter.holds]
    cases left.holds tags <;> rfl
  | not operand h => simp only [ofFilter, meaning, h, Filter.holds]; rfl

/-- The number of nodes, foreign things included. -/
def size : Evaluand φ → Nat
  | identifier _ => 1
  | and left right => left.size + right.size + 1
  | or left right => left.size + right.size + 1
  | not operand => operand.size + 1
  | foreign _ => 1

/-- The number of operators. -/
def operators : Evaluand φ → Nat
  | identifier _ => 0
  | and left right => left.operators + right.operators + 1
  | or left right => left.operators + right.operators + 1
  | not operand => operand.operators + 1
  | foreign _ => 0

end Evaluand

end TagFilter
