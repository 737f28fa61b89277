import TagFilter.Grammar.Rules

/-!
# Driving the grammar step by step

* `Grammar.Step` — the rules and the steps they are made of, in any order and number;
* `Grammar.perform`, `Grammar.performAll` — one step, and a sequence of them. When a step stops, the
  sequence goes on with the tokens that were still ahead then;
* `Grammar.index` — the place of the current token in the whole list.
-/

namespace TagFilter.Grammar

/-- A step. -/
inductive Step where
  | sentence
  | disjunction
  | conjunction
  | negation
  | primary
  | peek
  | advance
  | check (kind : Token.Kind)
  | accept (kind : Token.Kind)
  | require (kind : Token.Kind) (complaint : String)
  deriving DecidableEq, Repr

/-- What a step answers. -/
inductive Answer where
  /-- There is nothing to say. -/
  | passed
  | filter (f : Filter)
  | token (t : Token)
  | truth (b : Bool)
  deriving DecidableEq, Repr

/-- One step. -/
def perform (ahead : List Token) : Step → Outcome Answer
  | .sentence => (Grammar.sentence ahead).map .filter
  | .disjunction => (Grammar.disjunction ahead).map .filter
  | .conjunction => (Grammar.conjunction ahead).map .filter
  | .negation => (Grammar.negation ahead).map .filter
  | .primary => (Grammar.primary ahead).map .filter
  | .peek => (Grammar.peek ahead).map .token
  | .advance => (.ok .passed, Grammar.advance ahead)
  | .check kind => (Grammar.check kind ahead).map .truth
  | .accept kind => (Grammar.accept kind ahead).map .truth
  | .require kind complaint => (Grammar.require kind complaint ahead).map .token

/-- A sequence of steps, with the outcome of each. -/
def performAll (ahead : List Token) : List Step → List (Outcome Answer)
  | [] => []
  | s :: steps => perform ahead s :: performAll (perform ahead s).2 steps

/-- The place of the current token in a list of `total` tokens. -/
def index (total : Nat) (ahead : List Token) : Nat := total - ahead.length

end TagFilter.Grammar
