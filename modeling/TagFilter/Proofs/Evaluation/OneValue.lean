import TagFilter.Proofs.Evaluation.Simulation

/-!
# One value at a time

The machine has a stack of values, but there is never more than one value on it. It goes down to
the first operand of an operator before it has found anything, and a value that it has found is used
up by the next visit: it is negated, or it is the value of the operator too, or it is dropped for
the right operand. So there are two ways in which a machine can stand between two visits
(`Machine.Poised`), and a visit leads from each of them to one of them (`Machine.Poised.step`):

* `Machine.Poised.down` — an evaluand is to be visited for the first time, and there is no value;
* `Machine.Poised.up` — there is one value, for the operator on top or as the outcome.

Below that, nothing but operators stands on the stack, all of them visited once
(`Machine.Waiting`). The main result is `Machine.one_value_of_runs`.
-/

namespace TagFilter

namespace Machine

variable {φ : Type} {tags : List String} {m m' : Machine φ}

/-- A node that waits for the value of its first operand: an operator that has been visited once. -/
inductive Waiting : Evaluand φ × Bool → Prop where
  | not (operand : Evaluand φ) : Waiting (.not operand, true)
  | and (left right : Evaluand φ) : Waiting (.and left right, true)
  | or (left right : Evaluand φ) : Waiting (.or left right, true)

/-- How a machine can stand between two visits. -/
inductive Poised : Machine φ → Prop where
  /-- An evaluand is to be visited for the first time, and no value has been found. -/
  | down (e : Evaluand φ) {below : List (Evaluand φ × Bool)}
    (hbelow : ∀ node ∈ below, Waiting node) : Poised ⟨(e, false) :: below, []⟩
  /-- One value has been found: for the operator on top, or as the outcome. -/
  | up {stack : List (Evaluand φ × Bool)} (b : Bool) (hstack : ∀ node ∈ stack, Waiting node) :
    Poised ⟨stack, [b]⟩

theorem poised_start (e : Evaluand φ) : (start e).Poised := .down e (by simp)

/-! ### Visits -/

/-- **The first visit** finds the value of a pattern, or goes down to the first operand. -/
theorem poised_visit_first {e : Evaluand φ} {below : List (Evaluand φ × Bool)}
    (hbelow : ∀ node ∈ below, Waiting node) (h : visit tags below [] e false = .ok m') :
    m'.Poised := by
  cases e with
  | identifier pattern =>
    -- the first value, for whatever waits below
    cases h
    exact .up _ hbelow
  -- an operator stays where it is and waits for the operand on top of it
  | not operand =>
    cases h
    exact .down operand (List.forall_mem_cons.mpr ⟨.not operand, hbelow⟩)
  | and left right =>
    cases h
    exact .down left (List.forall_mem_cons.mpr ⟨.and left right, hbelow⟩)
  | or left right =>
    cases h
    exact .down left (List.forall_mem_cons.mpr ⟨.or left right, hbelow⟩)
  | foreign thing => cases h

/-- **The second visit** uses up the one value. It leaves a value in its place, or goes down to the
right operand without one. -/
theorem poised_visit_again {e : Evaluand φ} {below : List (Evaluand φ × Bool)} {b : Bool}
    (he : Waiting (e, true)) (hbelow : ∀ node ∈ below, Waiting node)
    (h : visit tags below [b] e true = .ok m') : m'.Poised := by
  cases he with
  | not operand =>
    cases h
    exact .up _ hbelow
  | and left right =>
    cases b with
    | true =>
      -- the value found is dropped, and the right operand stands in for the conjunction
      cases h
      exact .down right hbelow
    | false =>
      cases h
      exact .up _ hbelow
  | or left right =>
    cases b with
    | true =>
      cases h
      exact .up _ hbelow
    | false =>
      cases h
      exact .down right hbelow

namespace Poised

/-- **A visit keeps the machine poised.** -/
theorem step (hm : m.Poised) (h : m.step tags = .ok m') : m'.Poised := by
  cases hm with
  | down e hbelow => exact poised_visit_first hbelow h
  | @up stack b hstack =>
    cases stack with
    | nil =>
      -- nothing to visit: the machine stays as it is
      cases h
      exact .up b hstack
    | cons node below =>
      obtain ⟨e, again⟩ := node
      obtain ⟨hnode, hbelow⟩ := List.forall_mem_cons.mp hstack
      -- what waits for a value has been visited before
      obtain rfl : again = true := by cases hnode <;> rfl
      exact poised_visit_again hnode hbelow h

/-- **So do any number of visits.** -/
theorem runs {n : Nat} (hm : m.Poised) (h : Runs tags n m m') : m'.Poised := by
  induction h with
  | refl m => exact hm
  | head _ hstep _ ih => exact ih (hm.step hstep)

/-! ### What a poised machine has on its stacks -/

theorem values_eq_nil {e : Evaluand φ} {below : List (Evaluand φ × Bool)} (hm : m.Poised)
    (h : m.stack = (e, false) :: below) : m.values = [] := by
  cases hm with
  | down e hbelow => rfl
  | @up stack b hstack =>
    obtain rfl : stack = (e, false) :: below := h
    -- an operator that waits for a value is not visited for the first time
    cases hstack (e, false) (List.mem_cons_self ..)

/-- Unless an evaluand is to be visited for the first time, there is one value. -/
theorem exists_values_eq (hm : m.Poised) (h : ∀ e below, m.stack ≠ (e, false) :: below) :
    ∃ b, m.values = [b] := by
  cases hm with
  | @down e below hbelow => exact absurd rfl (h e below)
  | up b hstack => exact ⟨b, rfl⟩

/-- Only operators are visited a second time. -/
theorem waiting_of_mem {e : Evaluand φ} (hm : m.Poised) (h : (e, true) ∈ m.stack) :
    Waiting (e, true) := by
  cases hm with
  | down g hbelow =>
    rcases List.mem_cons.mp h with heq | hmem
    · cases heq
    · exact hbelow _ hmem
  | up b hstack => exact hstack _ h

end Poised

/-! ### How many visits there are -/

/-- A node on the stack causes at least the visit that it stands there for. -/
theorem visits_pos (node : Evaluand φ × Bool) : 0 < visits node := by
  obtain ⟨e, again⟩ := node
  cases e <;> cases again <;> simp only [visits, Evaluand.size] <;> omega

/-- While there is a node to be visited, there is a visit left to be made. -/
theorem Runs.lt_of_start {e : Evaluand φ} {n : Nat} (h : Runs tags n (start e) m)
    (hm : m.stack ≠ []) : n < e.size + e.operators := by
  obtain ⟨node, stack, hstack⟩ := List.exists_cons_of_ne_nil hm
  have hleft : 0 < m.work := by
    rw [work, hstack, Worklist.worth_cons]
    exact Nat.add_pos_left (visits_pos node) _
  have hwork := h.work_le
  rw [work_start] at hwork
  omega

/-- **One value at a time.** Whenever the machine looks for the next node to visit, it has no value
if that node is to be visited for the first time, and one value if it has been visited before, or if
there is no node left; that value is the outcome. Only operators are visited again, which patterns
and foreign things are not. No more visits are made than there are nodes and operators, a visit that
fails included. -/
theorem one_value_of_runs {e : Evaluand φ} {subjects : Subjects} {n : Nat}
    (h : Runs subjects.tags n (start e) m) :
    (∀ g below, m.stack = (g, false) :: below → m.values = []) ∧
      (∀ g below, m.stack = (g, true) :: below → ∃ b, m.values = [b]) ∧
      (m.stack = [] → ∃ b, m.values = [b] ∧ evaluate e subjects = .ok b) ∧
      (∀ pattern, (.identifier pattern, true) ∉ m.stack) ∧
      (∀ thing, (.foreign thing, true) ∉ m.stack) ∧
      n ≤ e.size + e.operators ∧ (m.stack ≠ [] → n + 1 ≤ e.size + e.operators) := by
  have hm : m.Poised := (poised_start e).runs h
  -- all that is said of the stacks is read off the two ways to stand
  refine ⟨fun g below => hm.values_eq_nil, fun g below hstack => ?_, fun hstack => ?_,
    fun pattern hmem => ?_, fun thing hmem => ?_, h.le_of_start, h.lt_of_start⟩
  · exact hm.exists_values_eq (by simp [hstack])
  · obtain ⟨b, hvalues⟩ := hm.exists_values_eq (by simp [hstack])
    exact ⟨b, hvalues, h.run_eq.trans (run_of_stack_eq_nil hstack hvalues)⟩
  · cases hm.waiting_of_mem hmem
  · cases hm.waiting_of_mem hmem

/-- `slow and not unit or _` for an item with the tag `slow`: after six visits the conjunction has
given way to its right operand, whose `NOT` finds the one value that it is to negate. -/
theorem one_value_of_runs_negated :
    let e : Evaluand Unit :=
      .or (.and (.identifier "slow") (.not (.identifier "unit"))) (.foreign ())
    let m : Machine Unit := ⟨[(.not (.identifier "unit"), true), (e, true)], [false]⟩
    Runs ["slow"] 6 (start e) m ∧ (∃ b, m.values = [b]) ∧ 6 + 1 ≤ e.size + e.operators := by
  intro e m
  have h : Runs (Subjects.several ["slow"]).tags 6 (start e) m :=
    .head (by simp [start]) rfl <| .head (by simp) rfl <| .head (by simp) rfl <|
      .head (by simp) rfl <| .head (by simp) rfl <| .head (by simp) rfl <| .refl m
  obtain ⟨-, hvalue, -, -, -, -, hvisits⟩ := one_value_of_runs h
  exact ⟨h, hvalue _ _ rfl, hvisits (by simp [m])⟩

end Machine

end TagFilter
