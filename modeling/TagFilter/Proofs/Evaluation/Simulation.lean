import TagFilter.Evaluation.Selector

/-!
# The machine finds the meaning

The machine evaluates with two stacks and visits an operator twice; the meaning of an evaluand is
given by recursion on it. They agree on every evaluand and for every item
(`evaluate_eq_meaning`), foreign things included: the machine stops at the first one that the
recursion reaches, and at nothing else.

* `Machine.Runs` — a number of visits that lead from one machine to another;
* `Machine.Comes` — what a run is to come to: a value on top of what stood there before, or a visit
  of a foreign thing;
* `Machine.comes_meaning` — the simulation: above any stack and any values, an evaluand on its first
  visit comes to its meaning. Nothing below it is touched, which is what lets a right operand stand
  in for the operator it belongs to.

How many visits there can be at most follows from `Machine.step_work`, which is the reason why the
machine comes to an end at all (`Machine.Runs.work_le`).
-/

namespace TagFilter

namespace Machine

variable {φ : Type} {tags : List String}

/-- `Runs tags n m m'`: after `n` visits the machine `m` has become `m'`. -/
inductive Runs (tags : List String) : Nat → Machine φ → Machine φ → Prop where
  | refl (m : Machine φ) : Runs tags 0 m m
  | head {n : Nat} {m m' m'' : Machine φ} (hm : m.stack ≠ []) (hstep : m.step tags = .ok m')
    (rest : Runs tags n m' m'') : Runs tags (n + 1) m m''

/-- The machine `m` comes to a visit that fails because of `thing`, after `n` visits that do not. -/
def Stops (tags : List String) (n : Nat) (m : Machine φ) (thing : φ) : Prop :=
  ∃ m', Runs tags n m m' ∧ m'.stack ≠ [] ∧ m'.step tags = .error (.foreign thing)

namespace Runs

theorem trans {m m' m'' : Machine φ} {n k : Nat} (h : Runs tags n m m')
    (h' : Runs tags k m' m'') : Runs tags (n + k) m m'' := by
  induction h with
  | refl m => rwa [Nat.zero_add]
  | head hm hstep _ ih =>
    rw [Nat.add_right_comm]
    exact .head hm hstep (ih h')

theorem trans_stops {m m' : Machine φ} {n k : Nat} {thing : φ} (h : Runs tags n m m')
    (h' : Stops tags k m' thing) : Stops tags (n + k) m thing := by
  obtain ⟨m'', hruns, hm, hstep⟩ := h'
  exact ⟨m'', h.trans hruns, hm, hstep⟩

/-- A first or second visit that succeeds. -/
theorem visit {m : Machine φ} {stack : List (Evaluand φ × Bool)} {values : List Bool}
    {e : Evaluand φ} {again : Bool} (h : Machine.visit tags stack values e again = .ok m) :
    Runs tags 1 ⟨(e, again) :: stack, values⟩ m :=
  .head (by simp) h (.refl m)

/-- An operator on its first visit stays on the stack, and its first operand comes on top of it. -/
theorem first_not (operand : Evaluand φ) (stack : List (Evaluand φ × Bool)) (values : List Bool) :
    Runs tags 1 ⟨(.not operand, false) :: stack, values⟩
      ⟨(operand, false) :: (.not operand, true) :: stack, values⟩ := .visit rfl

theorem first_and (left right : Evaluand φ) (stack : List (Evaluand φ × Bool))
    (values : List Bool) : Runs tags 1 ⟨(.and left right, false) :: stack, values⟩
      ⟨(left, false) :: (.and left right, true) :: stack, values⟩ := .visit rfl

theorem first_or (left right : Evaluand φ) (stack : List (Evaluand φ × Bool))
    (values : List Bool) : Runs tags 1 ⟨(.or left right, false) :: stack, values⟩
      ⟨(left, false) :: (.or left right, true) :: stack, values⟩ := .visit rfl

/-- **Visits are paid for with work**, so that there are no more of them than work to begin with. -/
theorem work_le {m m' : Machine φ} {n : Nat} (h : Runs tags n m m') : n + m'.work ≤ m.work := by
  induction h with
  | refl m => omega
  | @head n m m' m'' hm hstep _ ih =>
    obtain ⟨node, stack, hstack⟩ := List.exists_cons_of_ne_nil hm
    have := step_work hstack hstep
    omega

end Runs

/-! ### What a run comes to -/

theorem run_of_stack_eq_nil {m : Machine φ} {b : Bool} {values : List Bool} (hm : m.stack = [])
    (hvalues : m.values = b :: values) : m.run tags = .ok b := by
  rw [run]
  split
  · rw [hvalues]
  · next h => rw [hm] at h; cases h

theorem run_of_step_eq_ok {m m' : Machine φ} (hm : m.stack ≠ []) (h : m.step tags = .ok m') :
    m.run tags = m'.run tags := by
  rw [run]
  split
  · contradiction
  · split
    · next h' => rw [h] at h'; cases h'
    · next h' => rw [h] at h'; cases h'; rfl

theorem run_of_step_eq_error {m : Machine φ} {fault : Fault φ} (hm : m.stack ≠ [])
    (h : m.step tags = .error fault) : m.run tags = .error fault := by
  rw [run]
  split
  · contradiction
  · split
    · next h' => rw [h] at h'; cases h'; rfl
    · next h' => rw [h] at h'; cases h'

/-- Visits on the way do not change what the run comes to. -/
theorem Runs.run_eq {m m' : Machine φ} {n : Nat} (h : Runs tags n m m') :
    m.run tags = m'.run tags := by
  induction h with
  | refl m => rfl
  | head hm hstep _ ih => rw [run_of_step_eq_ok hm hstep, ih]

theorem Stops.run_eq {m : Machine φ} {n : Nat} {thing : φ} (h : Stops tags n m thing) :
    m.run tags = .error (.foreign thing) := by
  obtain ⟨m', hruns, hm, hstep⟩ := h
  rw [hruns.run_eq, run_of_step_eq_error hm hstep]

/-! ### The simulation -/

/-- What the machine `m` comes to: the stack `stack` with a truth value on top of `values`, or a
visit of a foreign thing. -/
def Comes (tags : List String) (m : Machine φ) (stack : List (Evaluand φ × Bool))
    (values : List Bool) : Except φ Bool → Prop
  | .ok b => ∃ n, Runs tags n m ⟨stack, b :: values⟩
  | .error thing => ∃ n, Stops tags n m thing

/-- Visits on the way do not change what a machine comes to. -/
theorem Runs.comes {m m' : Machine φ} {n : Nat} {stack : List (Evaluand φ × Bool)}
    {values : List Bool} {found : Except φ Bool} (h : Runs tags n m m')
    (h' : Comes tags m' stack values found) : Comes tags m stack values found := by
  cases found with
  | ok b =>
    obtain ⟨k, hk⟩ := h'
    exact ⟨n + k, h.trans hk⟩
  | error thing =>
    obtain ⟨k, hk⟩ := h'
    exact ⟨n + k, h.trans_stops hk⟩

/-- **An evaluand comes to its meaning.** Whatever stands below it on both stacks stays there, and
its value comes on top of the values; if it has none, the machine stops at the foreign thing that
the recursion reaches first. -/
theorem comes_meaning (e : Evaluand φ) (stack : List (Evaluand φ × Bool)) (values : List Bool) :
    Comes tags ⟨(e, false) :: stack, values⟩ stack values (e.meaning tags) := by
  induction e generalizing stack values with
  | identifier pattern => exact ⟨1, .visit rfl⟩
  | foreign thing => exact ⟨0, _, .refl _, by simp, rfl⟩
  | not operand ih =>
    have hdown := (Runs.first_not operand stack values).comes (ih _ values)
    rw [Evaluand.meaning]
    cases hoperand : operand.meaning tags with
    | error thing =>
      rw [hoperand] at hdown
      exact hdown
    | ok b =>
      rw [hoperand] at hdown
      obtain ⟨n, hn⟩ := hdown
      exact ⟨_, hn.trans (.visit rfl)⟩
  | and left right ihl ihr =>
    have hdown := (Runs.first_and left right stack values).comes (ihl _ values)
    rw [Evaluand.meaning]
    cases hleft : left.meaning tags with
    | error thing =>
      rw [hleft] at hdown
      exact hdown
    | ok b =>
      rw [hleft] at hdown
      obtain ⟨n, hn⟩ := hdown
      cases b with
      | false =>
        -- the left operand settles the question
        exact ⟨_, hn.trans (.visit rfl)⟩
      | true =>
        -- the right operand takes the place of the conjunction
        exact (hn.trans (.visit rfl)).comes (ihr stack values)
  | or left right ihl ihr =>
    have hdown := (Runs.first_or left right stack values).comes (ihl _ values)
    rw [Evaluand.meaning]
    cases hleft : left.meaning tags with
    | error thing =>
      rw [hleft] at hdown
      exact hdown
    | ok b =>
      rw [hleft] at hdown
      obtain ⟨n, hn⟩ := hdown
      cases b with
      | true => exact ⟨_, hn.trans (.visit rfl)⟩
      | false => exact (hn.trans (.visit rfl)).comes (ihr stack values)

theorem work_start (e : Evaluand φ) : (start e).work = e.size + e.operators := by
  cases e <;> simp [start, work, visits]

/-- A machine has at most as many visits to make as the evaluand has nodes and operators. -/
theorem Runs.le_of_start {e : Evaluand φ} {m : Machine φ} {n : Nat} (h : Runs tags n (start e) m) :
    n ≤ e.size + e.operators := by
  have hwork := h.work_le
  rw [work_start] at hwork
  omega

theorem Stops.le_of_start {e : Evaluand φ} {thing : φ} {n : Nat}
    (h : Stops tags n (start e) thing) : n ≤ e.size + e.operators := by
  obtain ⟨m, hruns, -⟩ := h
  exact hruns.le_of_start

end Machine

open Machine

variable {φ : Type}

/-- The machine comes to what the meaning says. -/
theorem evaluate_eq_mapError (e : Evaluand φ) (subjects : Subjects) :
    evaluate e subjects = (e.meaning subjects.tags).mapError .foreign := by
  have hcomes := @comes_meaning φ subjects.tags e [] []
  cases h : e.meaning subjects.tags with
  | ok b =>
    rw [h] at hcomes
    obtain ⟨n, hn⟩ := hcomes
    exact hn.run_eq.trans (run_of_stack_eq_nil rfl rfl)
  | error thing =>
    rw [h] at hcomes
    obtain ⟨n, hn⟩ := hcomes
    exact hn.run_eq

/-- The value of a filter is its truth value. -/
theorem Filter.evaluate_eq_holds (f : Filter) (subjects : Subjects) :
    f.evaluate subjects = .ok (f.holds subjects.tags) := by
  rw [evaluate, evaluator, evaluate_eq_mapError, Evaluand.meaning_ofFilter]
  rfl

/-- **Evaluation with an explicit stack finds the meaning.** The machine answers with the value, or
fails because of the first foreign thing that is reached from left to right with short cuts, and in
no other way. It comes to an end after at most as many visits as there are nodes and operators: with
the value as the only thing left, or in front of the foreign thing. A filter without foreign things
always has its truth value. -/
theorem evaluate_eq_meaning (e : Evaluand φ) (subjects : Subjects) :
    evaluate e subjects = (e.meaning subjects.tags).mapError .foreign ∧
      (∃ n ≤ e.size + e.operators,
        match e.meaning subjects.tags with
        | .ok b => Runs subjects.tags n (start e) ⟨[], [b]⟩
        | .error thing => Stops subjects.tags n (start e) thing) ∧
      ∀ f : Filter, evaluate (.ofFilter f : Evaluand φ) subjects = .ok (f.holds subjects.tags) := by
  refine ⟨evaluate_eq_mapError e subjects, ?_, ?_⟩
  · have hcomes := @comes_meaning φ subjects.tags e [] []
    cases h : e.meaning subjects.tags with
    | ok b =>
      rw [h] at hcomes
      obtain ⟨n, hn⟩ := hcomes
      exact ⟨n, hn.le_of_start, hn⟩
    | error thing =>
      rw [h] at hcomes
      obtain ⟨n, hn⟩ := hcomes
      exact ⟨n, hn.le_of_start, hn⟩
  · intro f
    rw [evaluate_eq_mapError, Evaluand.meaning_ofFilter]
    rfl

/-- A foreign thing behind a settled disjunction is not reached. -/
example :
    evaluate (.or (.identifier "slow") (.foreign ())) (.several ["slow", "unit"]) = .ok true := by
  rw [evaluate_eq_mapError]
  rfl

end TagFilter
