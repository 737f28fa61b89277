import TagFilter.Token

/-!
# Diagnostics

What a reader of filters is told when something is wrong: a message and, as far as it is known, the
place it is about.

* `Diagnostic` — the report;
* `Diagnostic.location` — its place in words, known only if both line and column are;
* `Diagnostic.atToken` — a complaint of the grammar about one token.
-/

namespace TagFilter

/-- What a diagnostic is about. -/
inductive Diagnostic.Topic where
  /-- A filter, with nothing more said. -/
  | filter
  /-- A character that begins no token. -/
  | character
  /-- A filter nested too deeply to be written out. -/
  | depth
  /-- The grammar: what it wanted and what it found, where these are known. -/
  | grammar (expected actual : Option String)
  deriving DecidableEq, Repr

/-- A report on a filter. -/
structure Diagnostic where
  topic : Diagnostic.Topic
  message : String
  /-- The number of characters before the place. -/
  position : Option Int
  line : Option Int
  column : Option Int
  deriving DecidableEq, Repr

namespace Diagnostic

/-- The place in words, if both its line and its column are known. -/
def location (d : Diagnostic) : Option String :=
  match d.line, d.column with
  | some line, some column => some ("line " ++ toString line ++ ", column " ++ toString column)
  | _, _ => none

/-- A complaint of the grammar about a token: its place is the token's, and what was found is the
token's label. -/
def atToken (message : String) (t : Token) (expected : Option String) : Diagnostic :=
  ⟨.grammar expected (some t.label), message, some t.position, some t.line, some t.column⟩

/-- One line for a reader: the place, if it is known, and the message. -/
def summary (d : Diagnostic) : String :=
  match d.location with
  | none => "Error: " ++ d.message
  | some place => "Error: " ++ place ++ ": " ++ d.message

end Diagnostic

end TagFilter
