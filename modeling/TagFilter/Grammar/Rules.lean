import TagFilter.Filter.Basic
import TagFilter.Grammar.Fault

/-!
# The rules of the grammar

```
disjunction ::= conjunction ( OR conjunction )*
conjunction ::= negation ( AND negation )*
negation    ::= NOT negation | primary
primary     ::= IDENTIFIER | "(" disjunction ")"
```

Negation binds closest, disjunction least; chains of one operator lean to the left. A rule reads
the tokens still ahead, the first of which is the current one, and answers with the filter it found
and the tokens it leaves. It looks at no token but the current one.

* `peek`, `advance`, `check`, `accept`, `require` — the steps the rules are made of. The last token
  is never passed, so that there is always a current token;
* `primary`, `negation`, `conjunction`, `disjunction` — the rules;
* `sentence` — a filter that uses up all tokens.

A rule answers with the tokens ahead also when it stops, since that is where it stopped.

Parentheses are the only way in which the rules come back to themselves. The rules are therefore
built up from the inside: `primaryWithin` carries the number of levels it may still open, and
`negationOf`, `conjunctionOf` and `disjunctionOf` are rules over any rule for their operands.
Every opening parenthesis is passed before the next level begins, so that `levels`, which counts
them, leaves room enough for every list of tokens but those that end with one.
-/

namespace TagFilter.Grammar

/-- What a rule comes to: its answer or the reason why it has none, and the tokens still ahead. -/
abbrev Outcome (α : Type) : Type := Except Stop α × List Token

/-- A rule reads the tokens ahead. -/
abbrev Rule (α : Type) : Type := List Token → Outcome α

namespace Outcome

/-- Stops at the current token. -/
def fault {α : Type} (cause : Cause) (t : Token) (ahead : List Token) : Outcome α :=
  (.error (.fault ⟨cause, t⟩), ahead)

/-- Goes on from where an answer was found. -/
def andThen {α β : Type} (o : Outcome α) (next : α → Rule β) : Outcome β :=
  match o with
  | (.ok a, ahead) => next a ahead
  | (.error stop, ahead) => (.error stop, ahead)

/-- Changes the answer. -/
def map {α β : Type} (g : α → β) (o : Outcome α) : Outcome β := (o.1.map g, o.2)

end Outcome

/-! ### Steps -/

/-- The current token. -/
def peek : Rule Token
  | [] => (.error .noToken, [])
  | t :: ahead => (.ok t, t :: ahead)

/-- The tokens ahead after the current one is passed; the last one is never passed. -/
def advance : List Token → List Token
  | [] => []
  | [t] => [t]
  | _ :: u :: ahead => u :: ahead

/-- Is the current token of this kind? -/
def check (kind : Token.Kind) : Rule Bool
  | [] => (.error .noToken, [])
  | t :: ahead => (.ok (t.kind = kind), t :: ahead)

/-- Passes the current token if it is of this kind, and says whether it was. -/
def accept (kind : Token.Kind) : Rule Bool
  | [] => (.error .noToken, [])
  | t :: ahead =>
    if t.kind = kind then (.ok true, advance (t :: ahead)) else (.ok false, t :: ahead)

/-- Passes the current token, which has to be of this kind. -/
def require (kind : Token.Kind) (complaint : String) : Rule Token
  | [] => (.error .noToken, [])
  | t :: ahead =>
    if t.kind = kind then (.ok t, advance (t :: ahead))
    else .fault (.wanted kind complaint) t (t :: ahead)

/-! ### Rules over operands -/

/-- A run of `NOT` before an operand; the last one read is applied first. -/
def negationOf (operand : Rule Filter) : Rule Filter
  | [] => (.error .noToken, [])
  -- a `NOT` in the last place is never passed
  | [t] => if t.kind = .not then (.error .endless, [t]) else operand [t]
  | t :: u :: ahead =>
    if t.kind = .not then (negationOf operand (u :: ahead)).map .not
    else operand (t :: u :: ahead)

/-- More operands after `left`, each behind an operator of this kind; they are joined from left to
right. -/
def chain (kind : Token.Kind) (join : Filter → Filter → Filter) (operand : Rule Filter)
    (left : Filter) (ahead : List Token) : Outcome Filter :=
  match ahead with
  | [] => (.error .noToken, [])
  | t :: others =>
    if t.kind = kind then
      match operand (advance (t :: others)) with
      | (.ok right, rest) =>
        -- a round that passed no token would be repeated for ever
        if rest.length < others.length + 1 then chain kind join operand (join left right) rest
        else (.error .endless, rest)
      | (.error stop, rest) => (.error stop, rest)
    else (.ok left, t :: others)
termination_by ahead.length

/-- One operand or several, joined by `AND`. -/
def conjunctionOf (operand : Rule Filter) : Rule Filter := fun ahead =>
  (negationOf operand ahead).andThen (chain .and .and (negationOf operand))

/-- One conjunction or several, joined by `OR`. -/
def disjunctionOf (operand : Rule Filter) : Rule Filter := fun ahead =>
  (conjunctionOf operand ahead).andThen (chain .or .or (conjunctionOf operand))

/-- A pattern, or a filter in parentheses; `levels` calls of this rule may be nested in one
another. -/
def primaryWithin : (levels : Nat) → Rule Filter
  | _, [] => (.error .noToken, [])
  | 0, t :: ahead => (.error .endless, t :: ahead)
  | levels + 1, t :: ahead =>
    match t.kind with
    | .leftParen =>
      (disjunctionOf (primaryWithin levels) (advance (t :: ahead))).andThen fun f rest =>
        (require .rightParen unclosed rest).map fun _ => f
    | .identifier => (.ok (.identifier t.value), advance (t :: ahead))
    | .and | .or | .not | .rightParen | .eof => .fault .operand t (t :: ahead)

/-! ### The rules -/

/-- The number of calls of `primary` that a list of tokens can nest: one, and one more for every
opening parenthesis. -/
def levels (ahead : List Token) : Nat := ahead.countP (·.kind = .leftParen) + 1

/-- A pattern, or a filter in parentheses. -/
def primary : Rule Filter := fun ahead => primaryWithin (levels ahead) ahead

/-- An operand behind any number of `NOT`s. -/
def negation : Rule Filter := fun ahead => negationOf (primaryWithin (levels ahead)) ahead

/-- One negation or several, joined by `AND`. -/
def conjunction : Rule Filter := fun ahead => conjunctionOf (primaryWithin (levels ahead)) ahead

/-- One conjunction or several, joined by `OR`. -/
def disjunction : Rule Filter := fun ahead => disjunctionOf (primaryWithin (levels ahead)) ahead

/-- A disjunction that uses up all tokens before the end mark. -/
def sentence : Rule Filter
  | [] => (.error .noToken, [])
  | t :: ahead =>
    if t.isEnd then .fault .empty t (t :: ahead)
    else
      (disjunction (t :: ahead)).andThen fun f rest =>
        match rest with
        | [] => (.error .noToken, [])
        | u :: others => if u.isEnd then (.ok f, u :: others) else .fault .trailing u (u :: others)

end TagFilter.Grammar
