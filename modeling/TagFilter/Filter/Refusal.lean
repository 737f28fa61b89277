import TagFilter.Cursor
import TagFilter.Grammar.Fault

/-!
# Why a text is refused

* `Filter.Refusal` — every reason for which tokens or a text spell no filter;
* `Refusal.diagnostic?` — the report on those reasons that are about a place in the text;
* `Refusal.message` — the wording of every reason.
-/

namespace TagFilter

/-- The report on a character at which no word begins. -/
def Cursor.Fault.diagnostic? : Cursor.Fault → Option Diagnostic
  | endOfText => none
  | unexpected found position line column =>
    some ⟨.character, "Unexpected character '" ++ String.singleton found ++ "'", some position,
      some line, some column⟩

/-- The wording of a reading fault. -/
def Cursor.Fault.message (fault : Cursor.Fault) : String :=
  match fault.diagnostic? with
  | none => "string index out of range"
  | some d => d.message

/-- The report on a fault in the grammar; the other reasons are about no place. -/
def Grammar.Stop.diagnostic? : Grammar.Stop → Option Diagnostic
  | fault f => some f.diagnostic
  | noToken => none
  | endless => none

/-- The wording of a reason for which a rule has no answer. -/
def Grammar.Stop.message : Grammar.Stop → String
  | fault f => f.diagnostic.message
  | noToken => "list index out of range"
  | endless => "The last token cannot be passed"

namespace Filter

/-- Why tokens or a text spell no filter. -/
inductive Refusal where
  /-- No token can be read at some place of the text. -/
  | unreadable (fault : Cursor.Fault)
  /-- The tokens do not end with the end mark. -/
  | unfinished
  /-- There is an end mark before the last token. -/
  | endInside
  /-- The rules of the grammar stopped. -/
  | stopped (why : Grammar.Stop)
  deriving DecidableEq, Repr

/-- The report on a refusal that is about a place in the text. -/
def Refusal.diagnostic? : Refusal → Option Diagnostic
  | unreadable fault => fault.diagnostic?
  | unfinished => none
  | endInside => none
  | stopped why => why.diagnostic?

/-- The wording of a refusal. -/
def Refusal.message : Refusal → String
  | unreadable fault => fault.message
  | unfinished => "Token stream must end with an EOF token."
  | endInside => "Token stream must contain exactly one EOF token, at the end."
  | stopped why => why.message

end Filter

end TagFilter
