import TagFilter.Evaluation.Meaning
import TagFilter.Worklist

/-!
# Evaluation with an explicit stack

Chains of operators nest one level per operator, so a filter is evaluated without recursion on it.
A stack holds the nodes to be visited, and a second one the values found. An operator is visited
twice: on the way down, when its first operand is put on top of it, and again when that operand has
its value. A conjunction or disjunction that is still open on the second visit is replaced by its
right operand, whose value is then its own.

* `Machine` — the two stacks;
* `Machine.step` — one visit;
* `Machine.run` — visits until no node is left; `Machine.step_work` says why this comes to an end;
* `evaluate` — the machine started on one evaluand.
-/

namespace TagFilter

/-- Why an evaluation has no value. -/
inductive Machine.Fault (φ : Type) where
  /-- Something that is no filter was reached. -/
  | foreign (thing : φ)
  /-- A value was wanted and none was there. -/
  | noValue
  deriving Repr

/-- The wording of a fault, given how foreign things are shown. -/
def Machine.Fault.message {φ : Type} (display : φ → String) : Machine.Fault φ → String
  | foreign thing => "Invalid expression node: " ++ display thing
  | noValue => "A value is wanted and none is there"

/-- An evaluation under way: the nodes to be visited, each with whether its first operand has been
evaluated, and the values found; the tops of both stacks come first. -/
structure Machine (φ : Type) where
  stack : List (Evaluand φ × Bool)
  values : List Bool
  deriving Repr

namespace Machine

variable {φ : Type}

/-- A machine that is to evaluate one evaluand. -/
def start (e : Evaluand φ) : Machine φ := ⟨[(e, false)], []⟩

/-- Visits one node, which has been taken off the stack. The flag says whether its first operand has
been evaluated. -/
def visit (tags : List String) (stack : List (Evaluand φ × Bool)) (values : List Bool) :
    Evaluand φ → Bool → Except (Fault φ) (Machine φ)
  | .identifier pattern, _ => .ok ⟨stack, decide (pattern ∈ tags) :: values⟩
  | .not operand, false => .ok ⟨(operand, false) :: (.not operand, true) :: stack, values⟩
  | .not _, true =>
    match values with
    | [] => .error .noValue
    | b :: values => .ok ⟨stack, (!b) :: values⟩
  | .and left right, false => .ok ⟨(left, false) :: (.and left right, true) :: stack, values⟩
  | .and _ right, true =>
    match values with
    | [] => .error .noValue
    -- the value of the right operand is the value of the conjunction
    | true :: values => .ok ⟨(right, false) :: stack, values⟩
    | false :: values => .ok ⟨stack, false :: values⟩
  | .or left right, false => .ok ⟨(left, false) :: (.or left right, true) :: stack, values⟩
  | .or _ right, true =>
    match values with
    | [] => .error .noValue
    | true :: values => .ok ⟨stack, true :: values⟩
    -- the value of the right operand is the value of the disjunction
    | false :: values => .ok ⟨(right, false) :: stack, values⟩
  | .foreign thing, _ => .error (.foreign thing)

/-- One visit; with nothing to visit the machine stays as it is. -/
def step (tags : List String) (m : Machine φ) : Except (Fault φ) (Machine φ) :=
  match m.stack with
  | [] => .ok m
  | (node, again) :: stack => visit tags stack m.values node again

/-! ### Evaluation comes to an end -/

/-- The number of visits that a node on the stack can still cause: on the first visit as many as
it has nodes and operators, and on the second one those of the operand that is left. -/
def visits : Evaluand φ × Bool → Nat
  | (.and _ right, true) => right.size + right.operators + 1
  | (.or _ right, true) => right.size + right.operators + 1
  | (_, true) => 1
  | (e, false) => e.size + e.operators

/-- The number of visits that a machine can still make. -/
def work (m : Machine φ) : Nat := Worklist.worth visits m.stack

theorem visit_work {tags : List String} {stack : List (Evaluand φ × Bool)} {values : List Bool}
    {e : Evaluand φ} {again : Bool} {m : Machine φ}
    (h : visit tags stack values e again = .ok m) :
    m.work < visits (e, again) + Worklist.worth visits stack := by
  cases e <;> cases again <;> simp only [visit] at h <;> (try split at h) <;> cases h <;>
    simp only [work, Worklist.worth_cons, visits, Evaluand.size, Evaluand.operators] <;>
    omega

/-- **Every visit leaves fewer visits to be made.** -/
theorem step_work {tags : List String} {m m' : Machine φ} {node : Evaluand φ × Bool}
    {stack : List (Evaluand φ × Bool)} (hm : m.stack = node :: stack)
    (h : m.step tags = .ok m') : m'.work < m.work := by
  obtain ⟨e, again⟩ := node
  simp only [step, hm] at h
  have hw := visit_work h
  simpa only [work, hm, Worklist.worth_cons] using hw

/-- Visits nodes until none is left; the value is then on top of the values found. -/
def run (tags : List String) (m : Machine φ) : Except (Fault φ) Bool :=
  match _hm : m.stack with
  | [] =>
    match m.values with
    | [] => .error .noValue
    | b :: _ => .ok b
  | _ :: _ =>
    match _h : m.step tags with
    | .error fault => .error fault
    | .ok m' => m'.run tags
termination_by m.work
decreasing_by exact step_work _hm _h

end Machine

/-- The value of an evaluand for an item with the given tags. -/
def evaluate {φ : Type} (e : Evaluand φ) (subjects : Subjects) : Except (Machine.Fault φ) Bool :=
  (Machine.start e).run subjects.tags

/-- A filter to be asked again and again: the evaluation of one evaluand, as a function of the tags
alone. -/
def evaluator {φ : Type} (e : Evaluand φ) : Subjects → Except (Machine.Fault φ) Bool :=
  evaluate e

end TagFilter
