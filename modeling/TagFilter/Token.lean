/-!
# Tokens

A filter text is read as a list of tokens: words, the three operators, parentheses and one end
mark. A token keeps the text it was read from and the place where that text begins, so that a
later complaint can point at it.

* `Token.Kind` — what a token is, with the name each kind is written under (`Token.Kind.name`);
* `Token` — kind, text and place;
* `Token.label` — what a token is called in a report: its text, or the name of its kind when it
  has none.
-/

namespace TagFilter

/-- What a token is. -/
inductive Token.Kind where
  /-- A word that is no operator: a pattern. -/
  | identifier
  | and
  | or
  | not
  | leftParen
  | rightParen
  /-- The end of the text. -/
  | eof
  deriving DecidableEq, Repr

namespace Token.Kind

/-- Every kind, in the order in which they are listed to a reader. -/
def all : List Kind := [identifier, and, or, not, leftParen, rightParen, eof]

/-- The name a kind is written under. -/
def name : Kind → String
  | identifier => "IDENTIFIER"
  | and => "AND"
  | or => "OR"
  | not => "NOT"
  | leftParen => "LEFT_PAREN"
  | rightParen => "RIGHT_PAREN"
  | eof => "EOF"

/-- The kind of a given name; names are case-sensitive. -/
def ofName? (s : String) : Option Kind := all.find? (·.name = s)

theorem mem_all (k : Kind) : k ∈ all := by cases k <;> decide

/-- Different kinds have different names. -/
theorem name_injective {k l : Kind} (h : k.name = l.name) : k = l := by
  revert h; cases k <;> cases l <;> decide

/-- **Reading a name gives back its kind.** -/
theorem ofName?_name (k : Kind) : ofName? k.name = some k := by cases k <;> decide

end Token.Kind

/-- A token: its kind, the text it was read from and the place where that text begins. Tokens need
not come from a text, so the three numbers are integers without bounds. -/
structure Token where
  kind : Token.Kind
  /-- The text as it was written; empty for the end mark. -/
  value : String
  /-- The number of characters before the token. -/
  position : Int
  /-- The line, counted from one. -/
  line : Int
  /-- The column in that line, counted from one. -/
  column : Int
  deriving DecidableEq, Repr

namespace Token

/-- The names of the parts of a token, in their order. -/
def parts : List String := ["type", "value", "position", "line", "column"]

/-- Is this the end mark? -/
def isEnd (t : Token) : Bool := t.kind == .eof

/-- What a token is called in a report: its text, or the name of its kind when the text is empty. -/
def label (t : Token) : String := if t.value.isEmpty then t.kind.name else t.value

theorem isEnd_iff {t : Token} : t.isEnd = true ↔ t.kind = .eof := by simp [isEnd]

end Token

end TagFilter
