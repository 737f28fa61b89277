import TagFilter.Outline.Basic

/-!
# Pictures of outlines

A tree of labels is drawn one label to a line, each below its parent, with guides that show where a
branch hangs and whether another one follows it. In a picture there are no marks any more: a pattern
is drawn as it is, and an operator by its name.

* `Branch.lines` — the lines of a picture;
* `Filter.picture` — the lines of the picture of a filter.
-/

namespace TagFilter

namespace Branch

/-- The guide in front of a label: another branch of the same parent follows, or none does. -/
def elbow (isLast : Bool) : String := if isLast then "└── " else "├── "

/-- The guide in front of everything below that label. -/
def rail (isLast : Bool) : String := if isLast then "    " else "│   "

mutual

/-- The lines of a picture: the label at the root behind `front`, and everything below it behind
`margin`. -/
def linesFrom (front margin : String) : Branch → List String
  | node label branches => (front ++ label) :: linesBelow margin branches

/-- The lines of the branches below one label. -/
def linesBelow (margin : String) : List Branch → List String
  | [] => []
  | branch :: others =>
    branch.linesFrom (margin ++ elbow others.isEmpty) (margin ++ rail others.isEmpty) ++
      linesBelow margin others

end

/-- The lines of a picture. -/
def lines (b : Branch) : List String := b.linesFrom "" ""

end Branch

/-- The lines of the picture of a filter. -/
def Filter.picture (f : Filter) : List String := (Outline.ofFilter (Outline.label id) f).lines

end TagFilter
