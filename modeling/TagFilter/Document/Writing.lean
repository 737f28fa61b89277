import TagFilter.Filter.Depth
import TagFilter.Json.Writer
import TagFilter.Diagnostic

/-!
# Filters written as documents

* `Filter.toJson` — a filter as a value: an object for each node, `type` first;
* `Filter.write` — a filter as text. Filters deeper than `depthLimit` are not written out, since few
  readers would follow them.
-/

namespace TagFilter.Filter

/-- A filter as a value. -/
def toJson : Filter → Json
  | identifier pattern =>
    .object [("type", .string Form.identifier.tag), ("pattern", .string pattern)]
  | and left right =>
    .object [("type", .string Form.and.tag), ("left", left.toJson), ("right", right.toJson)]
  | or left right =>
    .object [("type", .string Form.or.tag), ("left", left.toJson), ("right", right.toJson)]
  | not operand => .object [("type", .string Form.not.tag), ("expr", operand.toJson)]

/-- The depth up to which filters are written out. -/
def depthLimit : Nat := 100

/-- A filter is too deep to be written out. -/
structure TooDeep where
  depth : Nat
  deriving DecidableEq, Repr

/-- The report on a filter that is too deep. It is about no place in a text. -/
def TooDeep.diagnostic (e : TooDeep) : Diagnostic :=
  ⟨.depth, "Expression is nested " ++ toString e.depth ++ " levels deep; JSON supports at most " ++
    toString depthLimit, none, none, none⟩

/-- A filter as text, in the given layout. -/
def write (layout : Json.Layout) (f : Filter) : Except TooDeep String :=
  if depthLimit < f.depth then .error ⟨f.depth⟩ else .ok (f.toJson.toText layout)

end TagFilter.Filter
