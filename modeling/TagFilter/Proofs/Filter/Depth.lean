import Mathlib.Algebra.BigOperators.Group.Multiset.Basic
import Mathlib.Algebra.Order.BigOperators.Group.Multiset
import Mathlib.Algebra.Order.Group.Nat
import TagFilter.Filter.Depth

/-!
# The worklist finds the height

The loop behind `Filter.depth` takes the node on top of its worklist. Which one it takes does not
matter: a search that takes its pending nodes in any order whatever comes to an end, after one turn
for every node of the filter, and the deepest level it has found by then is the height of the filter
(`Filter.depth_of_any_order`).

* `Filter.reach_le_iff` — how deep a filter reaches, told by its root and its children;
* `Search`, `Search.Turn` — a search under way and one turn of it. The pending nodes are a multiset,
  so that any of them may be the next one to be taken;
* `Search.Turn.nodes_add` — a turn deals with one node;
* `Search.Turn.within_iff` — the invariant: a level bounds what a search has found and can still
  find before a turn exactly if it does so after it. Which node is taken makes no difference to
  this, as `Filter.reach_le_iff` is about one node and its children alone;
* `Search.turns_deepest`, `Filter.depth_eq_height` — the loop is one of these searches, so it finds
  the height.
-/

namespace TagFilter.Filter

/-- A filter reaches no further than `bound` from its level on if its root stands within and its
children reach no further. -/
theorem reach_le_iff {f : Filter} {level bound : Nat} :
    level + f.height ≤ bound + 1 ↔
      level ≤ bound ∧ ∀ entry ∈ f.descend level, entry.2 + entry.1.height ≤ bound + 1 := by
  cases f <;> simp [descend, children, height] <;> omega

/-- A search for the deepest level: the nodes that are still to be taken, each with the level it
stands on, and the deepest level found so far. -/
structure Search where
  pending : Multiset (Filter × Nat)
  found : Nat

namespace Search

/-- A search that is to begin at the root. -/
def start (f : Filter) : Search := ⟨{(f, 1)}, 0⟩

/-- One turn: a node is taken, whichever it is, and its children take its place. -/
inductive Turn (s : Search) : Search → Prop where
  | take {f : Filter} {level : Nat} {others : Multiset (Filter × Nat)}
    (hpending : s.pending = (f, level) ::ₘ others) :
    Turn s ⟨f.descend level + others, max s.found level⟩

/-- `Turns n s s'`: after `n` turns the search `s` has become `s'`. -/
inductive Turns : Nat → Search → Search → Prop where
  | refl (s : Search) : Turns 0 s s
  | head {n : Nat} {s s' s'' : Search} (hturn : Turn s s') (rest : Turns n s' s'') :
    Turns (n + 1) s s''

variable {s s' : Search} {n bound : Nat}

/-- As long as a node is pending there is a turn to be made. -/
theorem exists_turn (h : s.pending ≠ 0) : ∃ s', Turn s s' := by
  obtain ⟨⟨f, level⟩, hmem⟩ := Multiset.exists_mem_of_ne_zero h
  obtain ⟨others, hpending⟩ := Multiset.exists_cons_of_mem hmem
  exact ⟨_, .take hpending⟩

/-! ### Nodes -/

/-- The number of nodes that are still to be taken, those below a pending one included. -/
def nodes (s : Search) : Nat := (s.pending.map entrySize).sum

/-- What the entries of a worklist are worth together does not depend on their order. -/
theorem sum_map_coe (pending : List (Filter × Nat)) :
    ((pending : Multiset (Filter × Nat)).map entrySize).sum = Worklist.worth entrySize pending := by
  induction pending with
  | nil => rfl
  | cons entry pending ih =>
    rw [← Multiset.cons_coe, Multiset.map_cons, Multiset.sum_cons, ih, Worklist.worth_cons]

theorem nodes_start (f : Filter) : (start f).nodes = f.size := by
  rw [nodes, start, Multiset.map_singleton, Multiset.sum_singleton, entrySize]

theorem nodes_eq_zero_iff : s.nodes = 0 ↔ s.pending = 0 := by
  constructor
  · intro h
    refine Multiset.eq_zero_of_forall_notMem fun entry hmem => ?_
    have hzero : entrySize entry = 0 :=
      Multiset.sum_eq_zero_iff.mp h _ (Multiset.mem_map_of_mem entrySize hmem)
    -- but a pending node counts itself
    exact absurd hzero (Nat.ne_of_gt entry.1.size_pos)
  · intro h
    rw [nodes, h, Multiset.map_zero, Multiset.sum_zero]

/-- **A turn deals with one node.** -/
theorem Turn.nodes_add (h : Turn s s') : s'.nodes + 1 = s.nodes := by
  obtain @⟨f, level, others, hpending⟩ := h
  calc ((f.descend level + others).map entrySize).sum + 1
      = Worklist.worth entrySize (f.descend level) + 1 + (others.map entrySize).sum := by
        rw [Multiset.map_add, Multiset.sum_add, sum_map_coe, Nat.add_right_comm]
    _ = f.size + (others.map entrySize).sum := by rw [worth_descend]
    _ = s.nodes := by rw [nodes, hpending, Multiset.map_cons, Multiset.sum_cons, entrySize]

theorem Turns.nodes_add (h : Turns n s s') : s'.nodes + n = s.nodes := by
  induction h with
  | refl s => rfl
  | head hturn _ ih => rw [← hturn.nodes_add, ← ih, Nat.add_assoc]

/-! ### Levels -/

/-- No level of the search is deeper than `bound`: neither the one found so far nor any that is
reached from a pending node. -/
def Within (bound : Nat) (s : Search) : Prop :=
  s.found ≤ bound ∧ ∀ entry ∈ s.pending, entry.2 + entry.1.height ≤ bound + 1

theorem within_start_iff {f : Filter} : Within bound (start f) ↔ f.height ≤ bound := by
  simp [Within, start]
  omega

theorem within_iff_of_pending_eq_zero (h : s.pending = 0) : Within bound s ↔ s.found ≤ bound := by
  simp [Within, h]

/-- **A turn keeps every bound and brings no new one.** -/
theorem Turn.within_iff (h : Turn s s') : Within bound s ↔ Within bound s' := by
  obtain @⟨f, level, others, hpending⟩ := h
  rw [Within, Within, hpending, Multiset.forall_mem_cons, reach_le_iff, Nat.max_le]
  simp only [Multiset.mem_add, Multiset.mem_coe, or_imp, forall_and]
  -- the same four bounds, in another order
  tauto

theorem Turns.within_iff (h : Turns n s s') : Within bound s ↔ Within bound s' := by
  induction h with
  | refl s => rfl
  | head hturn _ ih => rw [hturn.within_iff, ih]

/-- **Every search finds the height**, whatever the order in which it takes the nodes. -/
theorem Turns.found_eq_height {f : Filter} (h : Turns n (start f) s) (hs : s.pending = 0) :
    s.found = f.height := by
  -- the same levels bound the search at its end and at its beginning
  refine eq_of_forall_ge_iff fun bound => ?_
  rw [← within_iff_of_pending_eq_zero hs, ← h.within_iff, within_start_iff]

/-! ### The loop -/

/-- **The loop is a search.** It takes the first entry of its worklist. -/
theorem turns_deepest (pending : List (Filter × Nat)) (found : Nat) :
    Turns (Worklist.worth entrySize pending) ⟨pending, found⟩ ⟨0, deepest pending found⟩ := by
  induction pending, found using deepest.induct with
  | case1 found =>
    rw [deepest]
    exact .refl _
  | case2 found f level others ih =>
    have hworth : Worklist.worth entrySize ((f, level) :: others) =
        Worklist.worth entrySize (f.descend level ++ others) + 1 := by
      rw [Worklist.worth_append, Worklist.worth_cons, entrySize, ← worth_descend f level]
      omega
    -- the first entry is one of those that may be taken
    have hturn : Turn ⟨((f, level) :: others : List (Filter × Nat)), found⟩
        ⟨(f.descend level ++ others : List (Filter × Nat)), max found level⟩ := by
      rw [← Multiset.coe_add]
      exact .take rfl
    rw [deepest, hworth]
    exact .head hturn ih

end Search

/-- **The loop finds the height** when it starts at the root on level one. -/
theorem depth_eq_height (f : Filter) : f.depth = f.height :=
  (Search.turns_deepest [(f, 1)] 0).found_eq_height rfl

open Search

/-- **Depth, in whatever order the nodes are taken.** The loop finds the height: one for a pattern,
and one more than the deepest operand of an operator. So does any other search. Of the nodes that
are pending it may take any one next; it can go on as long as there is one, it is at its end after
one turn for every node of the filter and not before, and then it has found the height. -/
theorem depth_of_any_order (f : Filter) :
    f.depth = f.height ∧ Turns f.size (start f) ⟨0, f.depth⟩ ∧
      ∀ n s, Turns n (start f) s →
        n ≤ f.size ∧ (s.pending = 0 ↔ n = f.size) ∧
          (s.pending ≠ 0 → ∃ s', Turn s s') ∧ (s.pending = 0 → s.found = f.height) := by
  refine ⟨depth_eq_height f, ?_, fun n s h => ?_⟩
  · have hloop := turns_deepest [(f, 1)] 0
    rwa [Worklist.worth_cons, Worklist.worth_nil, Nat.add_zero, entrySize] at hloop
  · -- how far a search is, told by the nodes that are left to it
    have hnodes : s.nodes + n = f.size := h.nodes_add.trans (nodes_start f)
    refine ⟨by omega, ?_, exists_turn, h.found_eq_height⟩
    rw [← nodes_eq_zero_iff]
    omega

/-- `not a and b`: the loop takes the right operand before it turns to the left one. This search
takes the left one first, leaves its pattern for the end, and finds the same depth. -/
theorem depth_of_any_order_left :
    let a := identifier "a"
    let b := identifier "b"
    let s : Search := ⟨0, 3⟩
    Turns 4 (start (.and (.not a) b)) s ∧ s.pending = 0 ∧
      s.found = (and (.not a) b).height ∧ (and (.not a) b).depth = 3 := by
  intro a b s
  have hroot : Turn (start (.and (.not a) b)) ⟨{(b, 2), (.not a, 2)}, 1⟩ :=
    @Turn.take _ (.and (.not a) b) 1 0 rfl
  have hleft : Turn ⟨{(b, 2), (.not a, 2)}, 1⟩ ⟨{(a, 3), (b, 2)}, 2⟩ :=
    @Turn.take _ (.not a) 2 {(b, 2)} (by decide)
  have hright : Turn ⟨{(a, 3), (b, 2)}, 2⟩ ⟨{(a, 3)}, 2⟩ :=
    @Turn.take _ b 2 {(a, 3)} (by decide)
  have hpattern : Turn ⟨{(a, 3)}, 2⟩ s := @Turn.take _ a 3 0 rfl
  have h : Turns 4 (start (.and (.not a) b)) s :=
    .head hroot (.head hleft (.head hright (.head hpattern (.refl s))))
  obtain ⟨hdepth, -, hsearch⟩ := depth_of_any_order (.and (.not a) b)
  have hfound := (hsearch 4 s h).2.2.2 rfl
  exact ⟨h, rfl, hfound, hdepth⟩

end TagFilter.Filter
