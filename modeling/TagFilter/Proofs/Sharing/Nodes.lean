import TagFilter.Sharing.Basic

/-!
# The nodes of a filter with shared nodes

A filter with shared nodes is still a tree, and what is shown of it goes from the children of a node
to the node, whatever its form (`Shared.byChildren`).

* `Shared.nodes_eq` — the nodes of a filter are its root and the nodes of its children, from left to
  right;
* `Shared.mem_nodes_of_child` — the children of a node are nodes too, so that a walk that goes from
  nodes to their children never leaves them;
* `Shared.Coherent.mono` — filters whose nodes are among those of coherent ones are coherent.
-/

namespace TagFilter.Shared

variable {s x child : Shared} {filters others : List Shared}

/-- What holds of a node whenever it holds of its children holds of every filter. -/
theorem byChildren {motive : Shared → Prop}
    (step : ∀ s : Shared, (∀ child ∈ s.children, motive child) → motive s) (s : Shared) :
    motive s := by
  induction s with
  | identifier name pattern => exact step _ (by simp [children])
  | and name left right hl hr => exact step _ (by simp [children, hl, hr])
  | or name left right hl hr => exact step _ (by simp [children, hl, hr])
  | not name operand h => exact step _ (by simp [children, h])

theorem nodes_eq (s : Shared) : s.nodes = s :: s.children.flatMap nodes := by
  cases s <;> simp [nodes, children]

theorem mem_nodes_self (s : Shared) : s ∈ s.nodes := by
  rw [nodes_eq]
  exact List.mem_cons_self

/-- The nodes of a child are nodes. -/
theorem nodes_subset_of_child (hchild : child ∈ s.children) : child.nodes ⊆ s.nodes := by
  intro x hx
  rw [nodes_eq]
  exact List.mem_cons_of_mem _ (List.mem_flatMap.mpr ⟨child, hchild, hx⟩)

/-- **The children of a node are nodes.** -/
theorem mem_nodes_of_child (hx : x ∈ s.nodes) (hchild : child ∈ x.children) : child ∈ s.nodes := by
  induction s using byChildren with
  | step s ih =>
    rw [nodes_eq, List.mem_cons, List.mem_flatMap] at hx
    rcases hx with rfl | ⟨below, hbelow, hx⟩
    · exact nodes_subset_of_child hchild (mem_nodes_self child)
    · exact nodes_subset_of_child hbelow (ih below hbelow hx)

/-- Filters whose nodes are among those of coherent ones are coherent. -/
theorem Coherent.mono (h : Coherent filters)
    (hsubset : others.flatMap nodes ⊆ filters.flatMap nodes) : Coherent others :=
  fun x hx y hy hname => h x (hsubset hx) y (hsubset hy) hname

/-- Every filter among coherent ones is coherent by itself. -/
theorem Coherent.of_mem (h : Coherent filters) (hs : s ∈ filters) : Coherent [s] := by
  refine h.mono fun x hx => ?_
  rw [List.flatMap_singleton] at hx
  exact List.mem_flatMap.mpr ⟨s, hs, hx⟩

/-- So is every child of a coherent filter. -/
theorem Coherent.of_child (h : Coherent [s]) (hchild : child ∈ s.children) : Coherent [child] := by
  refine h.mono ?_
  rw [List.flatMap_singleton, List.flatMap_singleton]
  exact nodes_subset_of_child hchild

end TagFilter.Shared
