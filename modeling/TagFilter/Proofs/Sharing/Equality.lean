import TagFilter.Proofs.Sharing.Nodes
import TagFilter.Sharing.Equality

/-!
# Equality of filters with shared nodes is equality of trees

* `Shared.toFilter_eq_iff` — what one turn of the comparison rests on: two trees are equal if the
  roots agree and the children are equal in pairs. All children are in the pairs, since a form says
  how many operands a node has;
* `Shared.samePairs_iff`, `Shared.sameThroughout_iff` — the loop answers for all pairs that are
  still to be compared, with and without the short cut for places that hold one node;
* `Shared.same_iff_equal_trees` — so two filters are found equal exactly if their trees are.

The short cut looks at names alone, so it is right only among coherent filters, and the invariant of
the loop is that it never leaves their nodes. Names play no other part: the answer is the one found
without the short cut, and no sharing shows in it.
-/

namespace TagFilter.Shared

variable {a b : Shared} {filters : List Shared} {pairs : List (Shared × Shared)}

/-- Is every pair a pair of equal filters? Every pair is looked through, also one of places that hold
one node. -/
def sameThroughout (pairs : List (Shared × Shared)) : Bool :=
  match pairs with
  | [] => true
  | (a, b) :: others =>
    if a.form ≠ b.form ∨ a.pattern? ≠ b.pattern? then false
    else sameThroughout (childPairs a b ++ others)
termination_by Worklist.worth pairSize pairs
decreasing_by
  have := worth_childPairs_lt a b
  simp only [Worklist.worth_append, Worklist.worth_cons, pairSize] at *
  omega

/-! ### One turn -/

/-- A form says how many operands a node has. -/
theorem length_children_eq (h : a.form = b.form) : a.children.length = b.children.length := by
  cases a <;> cases b <;> simp [form, children] at h ⊢

/-- **Two trees are equal** if their roots agree and their children are equal in pairs. -/
theorem toFilter_eq_iff : a.toFilter = b.toFilter ↔
    (a.form = b.form ∧ a.pattern? = b.pattern?) ∧
      ∀ pair ∈ childPairs a b, pair.1.toFilter = pair.2.toFilter := by
  cases a <;> cases b <;> simp [toFilter, form, pattern?, childPairs, children, and_comm]

/-- The pairs put in the place of one are as good as it, if its roots agree. -/
theorem forall_mem_turn (hform : ¬(a.form ≠ b.form ∨ a.pattern? ≠ b.pattern?)) :
    (∀ pair ∈ childPairs a b ++ pairs, pair.1.toFilter = pair.2.toFilter) ↔
      ∀ pair ∈ (a, b) :: pairs, pair.1.toFilter = pair.2.toFilter := by
  have hroots : a.form = b.form ∧ a.pattern? = b.pattern? := by simpa using hform
  rw [List.forall_mem_append, List.forall_mem_cons, @toFilter_eq_iff a b, and_iff_right hroots]

/-- Where the roots disagree the trees do. -/
theorem not_forall_mem_of_ne (hform : a.form ≠ b.form ∨ a.pattern? ≠ b.pattern?) :
    ¬∀ pair ∈ (a, b) :: pairs, pair.1.toFilter = pair.2.toFilter := by
  intro h
  obtain ⟨hsame, hpattern⟩ := (toFilter_eq_iff.mp (h (a, b) List.mem_cons_self)).1
  exact hform.elim (· hsame) (· hpattern)

/-- The children of two nodes are nodes. -/
theorem childPairs_mem_nodes (ha : a ∈ filters.flatMap nodes) (hb : b ∈ filters.flatMap nodes) :
    ∀ pair ∈ childPairs a b, pair.1 ∈ filters.flatMap nodes ∧ pair.2 ∈ filters.flatMap nodes := by
  intro pair hpair
  rw [childPairs, List.mem_reverse] at hpair
  obtain ⟨hleft, hright⟩ := List.of_mem_zip hpair
  obtain ⟨f, hf, ha⟩ := List.mem_flatMap.mp ha
  obtain ⟨g, hg, hb⟩ := List.mem_flatMap.mp hb
  exact ⟨List.mem_flatMap.mpr ⟨f, hf, mem_nodes_of_child ha hleft⟩,
    List.mem_flatMap.mpr ⟨g, hg, mem_nodes_of_child hb hright⟩⟩

/-! ### The loop -/

/-- Without the short cut the loop finds out whether the trees of all pairs are equal. -/
theorem sameThroughout_iff :
    sameThroughout pairs = true ↔ ∀ pair ∈ pairs, pair.1.toFilter = pair.2.toFilter := by
  fun_induction sameThroughout pairs with
  | case1 => simp
  | case2 a b others hform => simpa using not_forall_mem_of_ne hform
  | case3 a b others hform ih => exact ih.trans (forall_mem_turn hform)

/-- **The loop finds out whether the trees of all pairs are equal**, as long as all of them are nodes
of coherent filters. -/
theorem samePairs_iff (h : Coherent filters)
    (hpairs : ∀ pair ∈ pairs, pair.1 ∈ filters.flatMap nodes ∧ pair.2 ∈ filters.flatMap nodes) :
    samePairs pairs = true ↔ ∀ pair ∈ pairs, pair.1.toFilter = pair.2.toFilter := by
  fun_induction samePairs pairs with
  | case1 => simp
  | case2 a b others hname ih =>
    rw [List.forall_mem_cons] at hpairs ⊢
    -- places with one name hold one node
    obtain rfl : a = b := h a hpairs.1.1 b hpairs.1.2 hname
    rw [ih hpairs.2]
    exact (and_iff_right rfl).symm
  | case3 a b others hname hform => simpa using not_forall_mem_of_ne hform
  | case4 a b others hname hform ih =>
    -- the children that take the place of the pair are nodes too
    rw [List.forall_mem_cons] at hpairs
    rw [← forall_mem_turn hform]
    refine ih (List.forall_mem_append.mpr ⟨?_, hpairs.2⟩)
    exact childPairs_mem_nodes hpairs.1.1 hpairs.1.2

/-- Filters are found equal exactly if their trees are. -/
theorem same_iff (h : Coherent filters) (ha : a ∈ filters) (hb : b ∈ filters) :
    a.same b = true ↔ a.toFilter = b.toFilter := by
  have hnode : ∀ {s : Shared}, s ∈ filters → s ∈ filters.flatMap nodes :=
    fun hs => List.mem_flatMap.mpr ⟨_, hs, mem_nodes_self _⟩
  rw [same, samePairs_iff h (List.forall_mem_singleton.mpr ⟨hnode ha, hnode hb⟩)]
  exact List.forall_mem_singleton

/-- **Equality does not see sharing.** Among coherent filters, whatever nodes they share, two are
found equal exactly if their trees are, and the short cut for one node in two places never changes
the answer. So equality is an equivalence. Side by side, the children of nodes of one form are all
there. -/
theorem same_iff_equal_trees (h : Coherent filters) :
    (∀ a ∈ filters, ∀ b ∈ filters,
      (a.same b = true ↔ a.toFilter = b.toFilter) ∧ a.same b = sameThroughout [(a, b)]) ∧
    Equivalence (fun a b : { s // s ∈ filters } => a.1.same b.1 = true) ∧
    ∀ a b : Shared, a.form = b.form →
      (a.children.zip b.children).unzip = (a.children, b.children) := by
  refine ⟨fun a ha b hb => ⟨same_iff h ha hb, ?_⟩, ⟨?_, ?_, ?_⟩, ?_⟩
  · rw [Bool.eq_iff_iff, same_iff h ha hb, sameThroughout_iff]
    simp
  -- equality of the trees is an equivalence, and so is whatever finds it out
  · intro a
    exact (same_iff h a.2 a.2).mpr rfl
  · intro a b hab
    exact (same_iff h b.2 a.2).mpr ((same_iff h a.2 b.2).mp hab).symm
  · intro a b c hab hbc
    have htrees := ((same_iff h a.2 b.2).mp hab).trans ((same_iff h b.2 c.2).mp hbc)
    exact (same_iff h a.2 c.2).mpr htrees
  · intro a b hform
    exact List.unzip_zip (length_children_eq hform)

/-- One negation stands twice below the first filter and once below the second, next to a negation
that only looks like it. -/
theorem same_iff_equal_trees_twice :
    let one : Shared := .not 1 (.identifier 0 "a")
    let left : Shared := .and 2 one one
    let right : Shared := .and 5 one (.not 4 (.identifier 3 "a"))
    Coherent [left, right] ∧ left.same right = true := by
  intro one left right
  have h : Coherent [left, right] := by
    unfold Coherent
    decide
  exact ⟨h, ((same_iff_equal_trees h).1 left (by simp) right (by simp)).1.mpr rfl⟩

end TagFilter.Shared
