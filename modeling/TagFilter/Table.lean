import TagFilter.Token

/-!
# Tables

Rows of text in a box, with a heavy frame around the header. A column is as wide as its widest cell;
cells are filled up with spaces on the right and stand one space off the frame.

* `Table` — a header and rows;
* `Table.lines` — the lines of the table;
* `Table.ofTokens` — one row for each token.
-/

namespace TagFilter

/-- A header and rows of the same length. -/
structure Table where
  header : List String
  rows : List (List String)
  deriving Repr

namespace Table

/-- The width of the widest cell of a column. -/
def width (t : Table) (column : Nat) : Nat :=
  ((t.header :: t.rows).map fun row => (row[column]?.getD "").length).foldl max 0

/-- The widths of all columns. -/
def widths (t : Table) : List Nat := (List.range t.header.length).map t.width

/-- The marks of one kind of line: at its left end, between cells, at its right end. -/
structure Marks where
  left : String
  middle : String
  right : String

/-- A line without text: every column filled with `stroke`. -/
def rule (marks : Marks) (stroke : Char) (widths : List Nat) : String :=
  let strokes := widths.map fun w => "".pushn stroke (w + 2)
  marks.left ++ marks.middle.intercalate strokes ++ marks.right

/-- A text filled up with spaces to a width. -/
def pad (w : Nat) (text : String) : String := text.pushn ' ' (w - text.length)

/-- A line of cells. -/
def row (mark : String) (widths : List Nat) (cells : List String) : String :=
  let padded := (widths.zip cells).map fun (w, cell) => " " ++ pad w cell ++ " "
  mark ++ mark.intercalate padded ++ mark

/-- The lines of a table. -/
def lines (t : Table) : List String :=
  let widths := t.widths
  [rule ⟨"┏", "┳", "┓"⟩ '━' widths, row "┃" widths t.header, rule ⟨"┡", "╇", "┩"⟩ '━' widths] ++
    t.rows.map (row "│" widths) ++ [rule ⟨"└", "┴", "┘"⟩ '─' widths]

/-- One row for each token, under the names of its parts. -/
def ofTokens (ts : List Token) : Table where
  header := Token.parts
  rows := ts.map fun t =>
    [t.kind.name, t.value, toString t.position, toString t.line, toString t.column]

end Table

end TagFilter
