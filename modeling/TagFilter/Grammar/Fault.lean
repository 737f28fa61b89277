import TagFilter.Diagnostic

/-!
# What the grammar complains about

A rule of the grammar that cannot go on names a cause and the token it stands at.

* `Grammar.Cause` — the causes, with their wording (`Cause.message`) and what was wanted instead
  (`Cause.expected`);
* `Grammar.Fault` — a cause and the token it was found at, reported by `Fault.diagnostic`;
* `Grammar.Stop` — every reason for which a rule has no answer.
-/

namespace TagFilter.Grammar

/-- What the grammar can find wrong at a token. -/
inductive Cause where
  /-- There is no filter at all. -/
  | empty
  /-- A pattern or an opening parenthesis is wanted here. -/
  | operand
  /-- A token of a certain kind is wanted here; the complaint is worded by whoever wants it. -/
  | wanted (kind : Token.Kind) (complaint : String)
  /-- The filter is complete, but more tokens follow. -/
  | trailing
  deriving DecidableEq, Repr

/-- The complaint about an opening parenthesis that has no partner. -/
def unclosed : String := "Expected ')' after expression"

/-- A complaint about a token that fits nowhere. -/
def surplus (t : Token) : String := "Unexpected token '" ++ t.value ++ "'"

/-- A complaint about a token that begins no operand. -/
def noOperand (t : Token) : String :=
  match t.kind with
  | .eof => "Unexpected end of input: expected identifier or \"(\""
  | .rightParen => "Unexpected ')': missing opening parenthesis or expression"
  | .and | .or => "Unexpected '" ++ t.value ++ "': missing left operand"
  | .identifier | .not | .leftParen => surplus t

/-- The wording of a cause found at a token. -/
def Cause.message (t : Token) : Cause → String
  | empty => "Unexpected end of input: expected expression"
  | operand => noOperand t
  | wanted _ complaint => complaint
  | trailing => surplus t

/-- What was wanted instead. -/
def Cause.expected : Cause → String
  | empty => "expression"
  | operand => "identifier or \"(\""
  | wanted kind _ => kind.name
  | trailing => "end of expression"

/-- Something wrong at a token. -/
structure Fault where
  cause : Cause
  token : Token
  deriving DecidableEq, Repr

/-- The report on a fault, placed at its token. -/
def Fault.diagnostic (f : Fault) : Diagnostic :=
  .atToken (f.cause.message f.token) f.token (some f.cause.expected)

/-- Why a rule has no answer. -/
inductive Stop where
  /-- The tokens do not follow the grammar. -/
  | fault (f : Fault)
  /-- There is no token to look at. -/
  | noToken
  /-- The last token is an operator or a parenthesis that wants more; as the last token is never
  passed, the rule would look at it for ever. -/
  | endless
  deriving DecidableEq, Repr

end TagFilter.Grammar
