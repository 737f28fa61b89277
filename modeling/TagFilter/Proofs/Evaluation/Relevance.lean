import TagFilter.Proofs.Evaluation.Simulation

/-!
# Only tags that a pattern asks for matter

An item's tags are looked at by nothing but the patterns of the evaluand. Two items that answer
these patterns alike are told apart by no evaluation: the machine makes the same visits for both,
with the same values on its stack, and comes to the same value or the same foreign thing
(`evaluate_eq_of_agree`). So it does not matter in which order the tags are given, how often, or
what other tags there are.

* `Evaluand.patterns` — the patterns of an evaluand;
* `Machine.Agrees` — the invariant of two runs side by side: all nodes that may still be visited ask
  for tags that both items have or both items lack;
* `Machine.Agrees.step_eq`, `Machine.Agrees.step` — one visit is the same for both, and keeps the
  invariant;
* `Machine.Agrees.runs`, `Machine.Agrees.run_eq` — and so is a whole run, from any stacks on.
-/

namespace TagFilter

/-- The patterns of an evaluand, from left to right. -/
def Evaluand.patterns {φ : Type} : Evaluand φ → List String
  | identifier pattern => [pattern]
  | and left right => left.patterns ++ right.patterns
  | or left right => left.patterns ++ right.patterns
  | not operand => operand.patterns
  | foreign _ => []

/-- The evaluands right below the root, from left to right. -/
def Evaluand.operands {φ : Type} : Evaluand φ → List (Evaluand φ)
  | identifier _ => []
  | and left right => [left, right]
  | or left right => [left, right]
  | not operand => [operand]
  | foreign _ => []

/-- The patterns of an operand are patterns of the whole. -/
theorem Evaluand.patterns_subset_of_operand {φ : Type} {e g : Evaluand φ} (h : g ∈ e.operands) :
    g.patterns ⊆ e.patterns := by
  cases e with
  | identifier _ | foreign _ => simp [operands] at h
  | not operand =>
    obtain rfl := List.mem_singleton.mp h
    exact List.Subset.refl _
  | and left right | or left right =>
    have h : g = left ∨ g = right := by simpa [operands] using h
    rcases h with rfl | rfl
    · exact List.subset_append_left _ _
    · exact List.subset_append_right _ _

namespace Machine

variable {φ : Type} {tags others : List String} {m m' : Machine φ}

/-- Every pattern of a node on the stack is met by both lists of tags or by neither. -/
def Agrees (tags others : List String) (m : Machine φ) : Prop :=
  ∀ node ∈ m.stack, ∀ p ∈ node.1.patterns, p ∈ tags ↔ p ∈ others

theorem Agrees.symm (h : m.Agrees tags others) : m.Agrees others tags :=
  fun node hnode p hp => (h node hnode p hp).symm

/-- **A visit is the same for both.** Only at a pattern are the tags looked at. -/
theorem Agrees.step_eq (h : m.Agrees tags others) : m.step tags = m.step others := by
  obtain ⟨stack, values⟩ := m
  cases stack with
  | nil => rfl
  | cons node stack =>
    obtain ⟨e, again⟩ := node
    cases e with
    | identifier pattern =>
      have hpattern : pattern ∈ tags ↔ pattern ∈ others :=
        h _ (List.mem_cons_self ..) pattern (List.mem_singleton_self pattern)
      simp only [step, visit, decide_eq_decide.mpr hpattern]
    | not _ | and _ _ | or _ _ => cases again <;> rfl
    | foreign _ => rfl

/-- What a visit leaves of the node that it takes off the stack: nothing, or the node and an operand
on top of it, or an operand alone. -/
theorem stack_of_visit {stack : List (Evaluand φ × Bool)} {values : List Bool} {e : Evaluand φ}
    {again : Bool} (h : visit tags stack values e again = .ok m') :
    m'.stack = stack ∨ ∃ g ∈ e.operands,
      m'.stack = (g, false) :: (e, true) :: stack ∨ m'.stack = (g, false) :: stack := by
  cases e <;> cases again <;> simp only [visit] at h <;> (try split at h) <;> cases h <;>
    simp [Evaluand.operands]

/-- **A visit keeps the agreement**, since an operand asks for no other tags than its node. -/
theorem Agrees.step (h : m.Agrees tags others) (hstep : m.step tags = .ok m') :
    m'.Agrees tags others := by
  obtain ⟨stack, values⟩ := m
  cases stack with
  | nil =>
    cases hstep
    exact h
  | cons node stack =>
    obtain ⟨e, again⟩ := node
    have hnode : ∀ p ∈ e.patterns, p ∈ tags ↔ p ∈ others := h _ (List.mem_cons_self ..)
    have hstack : Agrees tags others ⟨stack, values⟩ :=
      fun entry hentry => h entry (List.mem_cons_of_mem _ hentry)
    intro entry hentry p hp
    rcases stack_of_visit hstep with hm | ⟨g, hg, hm | hm⟩ <;> rw [hm] at hentry
    · exact hstack entry hentry p hp
    · rcases List.mem_cons.mp hentry with rfl | hentry
      · exact hnode p (Evaluand.patterns_subset_of_operand hg hp)
      · rcases List.mem_cons.mp hentry with rfl | hentry
        · exact hnode p hp
        · exact hstack entry hentry p hp
    · rcases List.mem_cons.mp hentry with rfl | hentry
      · exact hnode p (Evaluand.patterns_subset_of_operand hg hp)
      · exact hstack entry hentry p hp

/-- **The same visits are made for both**, one after the other. -/
theorem Agrees.runs {n : Nat} (h : m.Agrees tags others) (hruns : Runs tags n m m') :
    Runs others n m m' := by
  induction hruns with
  | refl m => exact .refl m
  | head hm hstep _ ih => exact .head hm (h.step_eq ▸ hstep) (ih (h.step hstep))

/-- **A run comes to the same for both**, by induction on the visits that can still be made. -/
theorem Agrees.run_eq (h : m.Agrees tags others) : m.run tags = m.run others := by
  induction hwork : m.work using Nat.strongRecOn generalizing m with
  | _ work ih =>
    by_cases hm : m.stack = []
    · -- nothing is visited any more, and no tags are looked at
      obtain ⟨stack, values⟩ := m
      obtain rfl : stack = [] := hm
      simp only [run]
    · obtain ⟨node, stack, hstack⟩ := List.exists_cons_of_ne_nil hm
      cases hstep : m.step tags with
      | error fault =>
        rw [run_of_step_eq_error hm hstep, run_of_step_eq_error hm (h.step_eq ▸ hstep)]
      | ok m' =>
        rw [run_of_step_eq_ok hm hstep, run_of_step_eq_ok hm (h.step_eq ▸ hstep)]
        exact ih _ (hwork ▸ step_work hstack hstep) (h.step hstep) rfl

/-- Two items agree on a machine that is to evaluate `e` if they agree on the patterns of `e`. -/
theorem agrees_start {e : Evaluand φ} (h : ∀ p ∈ e.patterns, p ∈ tags ↔ p ∈ others) :
    (start e).Agrees tags others := by
  intro node hnode
  obtain rfl := List.mem_singleton.mp hnode
  exact h

end Machine

open Machine

variable {φ : Type}

/-- **Only the tags that a pattern asks for matter.** Items that meet the same patterns of an
evaluand are told apart by no evaluation: the same visits are made for both, and they come to the
same value, or to the same foreign thing. So neither the order of the tags matters, nor how often
one is given, nor whether there are others that no pattern asks for; and a tag given by itself is
the list of that tag. -/
theorem evaluate_eq_of_agree (e : Evaluand φ) :
    (∀ A B : Subjects, (∀ p ∈ e.patterns, p ∈ A.tags ↔ p ∈ B.tags) →
      evaluate e A = evaluate e B ∧
        ∀ n m, Runs A.tags n (start e) m ↔ Runs B.tags n (start e) m) ∧
    (∀ A B : Subjects, (∀ tag, tag ∈ A.tags ↔ tag ∈ B.tags) → evaluate e A = evaluate e B) ∧
    (∀ tags others : List String, (∀ tag ∈ others, tag ∉ e.patterns) →
      evaluate e (.several (tags ++ others)) = evaluate e (.several tags)) ∧
    ∀ tag, evaluate e (.single tag) = evaluate e (.several [tag]) := by
  have hagree : ∀ A B : Subjects, (∀ p ∈ e.patterns, p ∈ A.tags ↔ p ∈ B.tags) →
      evaluate e A = evaluate e B := fun A B h => (agrees_start h).run_eq
  refine ⟨fun A B h => ⟨hagree A B h, fun n m => ?_⟩, fun A B h => hagree A B fun p _ => h p,
    fun tags others h => hagree _ _ fun p hp => ?_, fun tag => rfl⟩
  · exact ⟨(agrees_start h).runs, (agrees_start h).symm.runs⟩
  · -- a pattern is met by none of the tags that were added
    have hothers : p ∉ others := fun hmem => h p hmem hp
    simp [Subjects.tags, hothers]

/-- Tags in another order, one of them twice, and one more that no pattern asks for: both items come
to the foreign thing behind `slow and (not unit or _)`. -/
theorem evaluate_eq_of_agree_foreign :
    let e : Evaluand String :=
      .and (.identifier "slow") (.or (.not (.identifier "unit")) (.foreign "fast"))
    let A : Subjects := .several ["unit", "slow", "slow"]
    let B : Subjects := .several ["slow", "fast", "unit"]
    (∀ p ∈ e.patterns, p ∈ A.tags ↔ p ∈ B.tags) ∧ evaluate e A = evaluate e B ∧
      evaluate e B = .error (.foreign "fast") := by
  intro e A B
  have h : ∀ p ∈ e.patterns, p ∈ A.tags ↔ p ∈ B.tags := by decide
  refine ⟨h, ((evaluate_eq_of_agree e).1 A B h).1, ?_⟩
  rw [evaluate_eq_mapError]
  rfl

end TagFilter
