import TagFilter.Cursor

/-!
# Driving a cursor step by step

* `Cursor.Step` — the steps a reader can ask for, in any order and number;
* `Cursor.perform`, `Cursor.performAll` — one step, and a sequence of them. After a fault the
  sequence goes on with the cursor that the failed step left.
-/

namespace TagFilter.Cursor

/-- A step. -/
inductive Step where
  | next
  | word
  | tokens
  | skip
  | advance
  | newline
  deriving DecidableEq, Repr

/-- What a step answers. -/
inductive Answer where
  /-- The cursor moved, and there is nothing to say. -/
  | moved
  | token (t : Token)
  | tokens (ts : List Token)
  deriving DecidableEq, Repr

/-- One step: its answer or its fault, and the cursor after it. -/
def perform (c : Cursor) : Step → Except Fault Answer × Cursor
  | .next => (c.next.1.map .token, c.next.2)
  | .word => (c.word.1.map .token, c.word.2)
  | .tokens => (c.tokens.1.map .tokens, c.tokens.2)
  | .skip => (.ok .moved, c.skip)
  | .advance => (.ok .moved, c.advance)
  | .newline => (.ok .moved, c.newline)

/-- A sequence of steps, with the answer and the cursor after each. -/
def performAll (c : Cursor) : List Step → List (Except Fault Answer × Cursor)
  | [] => []
  | s :: steps => c.perform s :: (c.perform s).2.performAll steps

end TagFilter.Cursor
