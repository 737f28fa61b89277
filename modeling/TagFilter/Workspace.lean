import TagFilter.Filter.Reading
import TagFilter.Workspace.Amended

/-!
# A workspace of named filters

A workspace holds filters under names. Steps put new filters together from old ones, which are then
shared and not copied, and look at those that are there. What is assigned to a node shows in every
filter that the node is part of.

* `Workspace` — the filters by name, the amendments of their nodes, and the first name that is free
  for a new node;
* `Workspace.Step`, `Workspace.Answer`, `Workspace.Failure` — what can be asked, and what comes of
  it;
* `Workspace.perform`, `Workspace.performAll` — one step, and a sequence of them. A step that fails
  puts no filter in place.
-/

namespace TagFilter

/-- Filters under names. -/
structure Workspace where
  /-- The first name that no node has. -/
  next : Nat
  registers : List (String × Shared)
  /-- What has been assigned to nodes. -/
  amendments : Amendments

namespace Workspace

/-- A workspace without filters. -/
def empty : Workspace := ⟨0, [], []⟩

/-- A step. The first argument of a step that makes a filter is the name it is put under. -/
inductive Step where
  | parse (target text : String)
  | identifier (target pattern : String)
  | and (target left right : String)
  | or (target left right : String)
  | not (target operand : String)
  /-- Reads a document. -/
  | read (target text : String)
  /-- Writes a document and reads it again. -/
  | roundTrip (target source : String)
  /-- Takes an operand out of a node. -/
  | child (target source field : String)
  /-- Shows a filter. -/
  | look (source : String)
  | form (source : String)
  | depth (source : String)
  | write (source : String) (layout : Json.Layout)
  | evaluate (source : String) (subjects : Subjects)
  | equal (left right : String)
  /-- Compares a filter with a text. -/
  | equalText (source text : String)
  /-- Puts a value under a name of a node, or into one of its stores. -/
  | assign (source : String) (store : Assignment.Store) (field : String) (value : Json)
  deriving Repr

/-- What a step answers. -/
inductive Answer where
  | filter (f : Filter)
  | form (k : Filter.Form)
  | depth (n : Nat)
  | document (text : String)
  | value (b : Bool)
  | equal (b : Bool)
  /-- An assignment was made. -/
  | assigned
  deriving Repr

/-- Why a step has no answer. -/
inductive Failure where
  /-- There is no filter of this name. -/
  | unset (register : String)
  | refused (why : Filter.Refusal)
  | tooDeep (why : Filter.TooDeep)
  | defective (found : List Defect)
  /-- Something missing or useless was met. -/
  | obstructed (why : Obstacle)
  /-- The evaluation broke down. -/
  | noValue
  | notAssigned (why : Assignment.Refusal)

/-- The filter of a name. -/
def get (w : Workspace) (register : String) : Except Failure Shared :=
  match w.registers.lookup register with
  | none => .error (.unset register)
  | some s => .ok s

/-- Puts a filter under a name. -/
def put (w : Workspace) (register : String) (s : Shared) : Workspace :=
  { w with registers := (register, s) :: w.registers }

/-- Puts a new filter, whose nodes are all its own, under a name. -/
def putNew (w : Workspace) (register : String) (f : Filter) : Workspace :=
  let (s, next) := Shared.ofFilter w.next f
  { w with next := next }.put register s

/-- Puts a new node, whose operands are there already, under a name. -/
def putNode (w : Workspace) (register : String) (node : Nat → Shared) : Workspace :=
  { w with next := w.next + 1 }.put register (node w.next)

/-- The filter below a node. -/
def filterOf (w : Workspace) (s : Shared) : Except Failure Filter :=
  (w.amendments.toFilter s).mapError .obstructed

/-- A filter written as a document. -/
def write (w : Workspace) (s : Shared) (layout : Json.Layout) : Except Failure String := do
  let depth ← (w.amendments.depth s).mapError .obstructed
  if Filter.depthLimit < depth then .error (.tooDeep ⟨depth⟩)
  else pure ((w.amendments.document s).toText layout)

/-- The value of a filter for an item with the given tags. -/
def evaluate (w : Workspace) (s : Shared) (subjects : Subjects) : Except Failure Bool :=
  (TagFilter.evaluate (w.amendments.evaluand s) subjects).mapError fun
    | .foreign why => .obstructed why
    | .noValue => .noValue

/-- Puts a new node under a name, if the operands can become its operands. They are given with the
names they get. -/
def combine (w : Workspace) (register : String) (operands : List (String × Shared))
    (node : Nat → Shared) : Except Failure (Filter × Workspace) := do
  let defects := operands.flatMap fun (name, s) =>
    ((w.amendments.checkOperand s).under name).defects
  if !defects.isEmpty then .error (.defective defects)
  else
    let w' := w.putNode register node
    pure (← w'.filterOf (node w.next), w')

/-- What stands under a name of a node. The function that gives the operands can be named too, and
is no node. -/
def memberOf (w : Workspace) (s : Shared) (field : String) : Except Failure Shared := do
  if field = "children" ∧ (w.amendments.find? s field).isNone then
    .error (.obstructed (.noMember "function" "type"))
  else
    match ← (w.amendments.member s field).mapError .obstructed with
    | .node found => pure found
    | .value found => .error (.obstructed (.noMember found.typeName "type"))

/-- One step: its answer, and the workspace after it. -/
def attempt (w : Workspace) : Step → Except Failure (Answer × Workspace)
  | .parse target text => do
    let f ← (Filter.parse text).mapError .refused
    pure (.filter f, w.putNew target f)
  | .identifier target pattern =>
    let f := Filter.identifier pattern
    pure (.filter f, w.putNew target f)
  | .and target left right => do
    let l ← w.get left
    let r ← w.get right
    let (f, w) ← w.combine target [("left", l), ("right", r)] (.and · l r)
    pure (.filter f, w)
  | .or target left right => do
    let l ← w.get left
    let r ← w.get right
    let (f, w) ← w.combine target [("left", l), ("right", r)] (.or · l r)
    pure (.filter f, w)
  | .not target operand => do
    let o ← w.get operand
    let (f, w) ← w.combine target [("expr", o)] (.not · o)
    pure (.filter f, w)
  | .read target text => do
    let f ← (Filter.ofText text).mapError .defective
    pure (.filter f, w.putNew target f)
  | .roundTrip target source => do
    let s ← w.get source
    let text ← w.write s .compact
    let f ← (Filter.ofText text).mapError .defective
    pure (.filter f, w.putNew target f)
  | .child target source field => do
    let s ← w.get source
    let found ← w.memberOf s field
    -- the operand itself is put there, and stays where it was
    pure (.filter (← w.filterOf found), w.put target found)
  | .look source => do
    let s ← w.get source
    pure (.filter (← w.filterOf s), w)
  | .form source => do
    let s ← w.get source
    pure (.form (← (w.amendments.formOf s).mapError .obstructed), w)
  | .depth source => do
    let s ← w.get source
    pure (.depth (← (w.amendments.depth s).mapError .obstructed), w)
  | .write source layout => do
    let s ← w.get source
    pure (.document (← w.write s layout), w)
  | .evaluate source subjects => do
    let s ← w.get source
    pure (.value (← w.evaluate s subjects), w)
  | .equal left right => do
    let l ← w.get left
    let r ← w.get right
    pure (.equal (← (w.amendments.same l r).mapError .obstructed), w)
  | .equalText source _ => do
    let _ ← w.get source
    pure (.equal false, w)
  | .assign source store field value => do
    let s ← w.get source
    ((w.amendments.of s).admits s field).mapError .obstructed
    let change ← (Assignment.attempt s.form store field value.canonical).mapError .notAssigned
    pure (.assigned, { w with amendments := w.amendments.amend s change })

/-- One step: its answer or why it has none, and the workspace after it. -/
def perform (w : Workspace) (s : Step) : Except Failure Answer × Workspace :=
  match w.attempt s with
  | .error why => (.error why, w)
  | .ok (answer, w) => (.ok answer, w)

/-- A sequence of steps, with what comes of each. -/
def performAll (w : Workspace) : List Step → List (Except Failure Answer)
  | [] => []
  | s :: steps => (w.perform s).1 :: (w.perform s).2.performAll steps

end Workspace

end TagFilter
