import TagFilter.Proofs.Sharing.Equality
import TagFilter.Sharing.Digest

/-!
# The digest of a filter with shared nodes is that of its tree

A node that stands in several places is visited in each of them, and each time its digest is put into
the table again. What the table holds can be said exactly: when the loop is done with a filter, the
names of its nodes have come in front of what was known, the root first, each with the digest of its
tree (`Shared.digestLoop_visit`).

The invariant goes by induction on the children. When the children of a node have been visited, their
entries are in the table (`Shared.lookup_child`), so that the second visit of the node finds all it
wants. Coherence is used there: between the entry of a child and the front of the table stand the
entries of other nodes, and one of its name is its own.

* `Shared.digest_eq_tree_digest` — the loop never misses an entry, and the digest is that of the tree.
  Equal filters have the same digest, whatever nodes they share.
-/

namespace TagFilter.Shared

variable {mix : Mixer} {s : Shared} {known : Digests} {stack : List (Shared × Bool)}

/-- What the table holds for a node: its name and the digest of its tree. -/
def entry (mix : Mixer) (s : Shared) : Nat × UInt64 := (s.name, s.toFilter.digest mix)

/-- The entries of all nodes of a filter, the root first. -/
def entries (mix : Mixer) (s : Shared) : Digests := s.nodes.map (entry mix)

theorem entries_eq (mix : Mixer) (s : Shared) :
    entries mix s = entry mix s :: s.children.flatMap (entries mix) := by
  rw [entries, nodes_eq, List.map_cons, List.map_flatMap]
  rfl

/-- The digest of a tree comes from its root and the digests of the children. -/
theorem digest_eq (mix : Mixer) (s : Shared) : s.toFilter.digest mix =
    mix s.form s.pattern? (s.children.map fun child => child.toFilter.digest mix) := by
  cases s <;> rfl

/-- **An entry is found by its name**, whatever stands behind it, if nodes of one name are one. -/
theorem lookup_entry {nodes : List Shared}
    (hnames : ∀ x ∈ nodes, ∀ y ∈ nodes, x.name = y.name → x = y) (hs : s ∈ nodes) :
    (nodes.map (entry mix) ++ known).lookup s.name = some (s.toFilter.digest mix) := by
  induction nodes with
  | nil => simp at hs
  | cons x nodes ih =>
    rw [List.map_cons, List.cons_append, entry, List.lookup_cons]
    by_cases hname : s.name = x.name
    · -- the entry in front has this name, and so it is the one of this node
      obtain rfl : s = x := hnames s hs x List.mem_cons_self hname
      simp
    · rw [beq_false_of_ne hname]
      refine ih (fun y hy z hz => hnames y (List.mem_cons_of_mem _ hy) z (List.mem_cons_of_mem _ hz))
        ((List.mem_cons.mp hs).resolve_left ?_)
      rintro rfl
      exact hname rfl

/-! ### One turn -/

/-- A node whose children have entries gets its digest. -/
theorem nodeDigest?_eq
    (h : ∀ child ∈ s.children, known.lookup child.name = some (child.toFilter.digest mix)) :
    nodeDigest? mix s known = some (s.toFilter.digest mix) := by
  have hchildren : (s.children.mapM fun child => known.lookup child.name) =
      some (s.children.map fun child => child.toFilter.digest mix) := by
    generalize s.children = children at h
    induction children with
    | nil => rfl
    | cons child children ih =>
      rw [List.forall_mem_cons] at h
      rw [List.mapM_cons, h.1, ih h.2]
      rfl
  rw [nodeDigest?, hchildren, digest_eq]
  rfl

/-- A node with children waits for them. -/
theorem digestLoop_wait (hs : s.children ≠ []) :
    digestLoop mix ((s, false) :: stack) known =
      digestLoop mix (firstVisits s ++ (s, true) :: stack) known := by
  rw [digestLoop, if_neg (by simpa using hs)]

/-- A node that waits for nothing more comes into the table. -/
theorem digestLoop_store {again : Bool} (hready : again = true ∨ s.children = [])
    (h : ∀ child ∈ s.children, known.lookup child.name = some (child.toFilter.digest mix)) :
    digestLoop mix ((s, again) :: stack) known = digestLoop mix stack (entry mix s :: known) := by
  rw [digestLoop, if_pos (by simpa using hready), nodeDigest?_eq h]
  rfl

/-! ### The loop -/

/-- Filters that wait to be visited are visited from the last to the first. -/
theorem digestLoop_visit_all {waiting : List Shared}
    (hvisit : ∀ s ∈ waiting, ∀ (stack : List (Shared × Bool)) (known : Digests),
      digestLoop mix ((s, false) :: stack) known = digestLoop mix stack (entries mix s ++ known)) :
    digestLoop mix ((waiting.reverse.map fun s => (s, false)) ++ stack) known =
      digestLoop mix stack (waiting.flatMap (entries mix) ++ known) := by
  induction waiting generalizing stack with
  | nil => rfl
  | cons s waiting ih =>
    rw [List.forall_mem_cons] at hvisit
    -- `s` lies below all others, so its entries come last and stand in front
    rw [List.reverse_cons, List.map_append, List.append_assoc, ih hvisit.2, List.flatMap_cons,
      List.append_assoc]
    exact hvisit.1 stack _

/-- When the children of a node have been visited, the table has the digest of each of them. -/
theorem lookup_child (h : Coherent [s]) : ∀ child ∈ s.children,
    (s.children.flatMap (entries mix) ++ known).lookup child.name =
      some (child.toFilter.digest mix) := by
  intro child hchild
  have hentries : s.children.flatMap (entries mix) =
      (s.children.flatMap nodes).map (entry mix) := by
    rw [List.map_flatMap]
    rfl
  have hnode : ∀ {x}, x ∈ s.children.flatMap nodes → x ∈ [s].flatMap nodes := by
    intro x hx
    rw [List.flatMap_singleton, nodes_eq]
    exact List.mem_cons_of_mem s hx
  rw [hentries]
  exact lookup_entry (fun x hx y hy => h x (hnode hx) y (hnode hy))
    (List.mem_flatMap.mpr ⟨child, hchild, mem_nodes_self child⟩)

/-- **Visiting a filter puts the entries of its nodes into the table**, and nothing else. -/
theorem digestLoop_visit (h : Coherent [s]) (stack : List (Shared × Bool)) (known : Digests) :
    digestLoop mix ((s, false) :: stack) known = digestLoop mix stack (entries mix s ++ known) := by
  induction s using byChildren generalizing stack known with
  | step s ih =>
    by_cases hleaf : s.children = []
    · rw [digestLoop_store (.inr hleaf) (by simp [hleaf]), entries_eq, hleaf]
      rfl
    · -- the node is put back, its children are visited on top of it, and then it is its turn again
      calc digestLoop mix ((s, false) :: stack) known
          = digestLoop mix (firstVisits s ++ (s, true) :: stack) known := digestLoop_wait hleaf
        _ = digestLoop mix ((s, true) :: stack) (s.children.flatMap (entries mix) ++ known) :=
            digestLoop_visit_all fun child hchild => ih child hchild (h.of_child hchild)
        _ = digestLoop mix stack (entry mix s :: (s.children.flatMap (entries mix) ++ known)) :=
            digestLoop_store (.inl rfl) (lookup_child h)
        _ = digestLoop mix stack (entries mix s ++ known) := by
            rw [entries_eq, List.cons_append]

/-- **The digest is that of the tree.** Among coherent filters, whatever nodes they share, the loop
finds the digest of every child that it wants, and it ends with the digest of each node in the table;
that of the root is the digest of the tree. So equal filters have equal digests. -/
theorem digest_eq_tree_digest (mix : Mixer) {filters : List Shared} (h : Coherent filters) :
    (∀ s ∈ filters, digestLoop mix [(s, false)] [] =
        some (s.nodes.map fun x => (x.name, x.toFilter.digest mix)) ∧
      s.digest? mix = some (s.toFilter.digest mix)) ∧
    ∀ a ∈ filters, ∀ b ∈ filters, a.same b = true → a.digest? mix = b.digest? mix := by
  have hloop : ∀ s ∈ filters, digestLoop mix [(s, false)] [] = some (entries mix s) := by
    intro s hs
    rw [digestLoop_visit (h.of_mem hs), List.append_nil, digestLoop]
  have hdigest : ∀ s ∈ filters, s.digest? mix = some (s.toFilter.digest mix) := by
    intro s hs
    rw [digest?, hloop s hs, Option.bind_some, entries_eq, entry, List.lookup_cons_self]
  refine ⟨fun s hs => ⟨hloop s hs, hdigest s hs⟩, fun a ha b hb hsame => ?_⟩
  rw [hdigest a ha, hdigest b hb, (same_iff h ha hb).mp hsame]

/-- A conjunction whose operands are one negation, and one that shares only the leaf below them. -/
theorem digest_eq_tree_digest_twice :
    let leaf : Shared := .identifier 0 "a"
    let left : Shared := .and 2 (.not 1 leaf) (.not 1 leaf)
    let right : Shared := .and 5 (.not 3 leaf) (.not 4 leaf)
    Coherent [left, right] ∧ left.digest? standardMixer = right.digest? standardMixer := by
  intro leaf left right
  have h : Coherent [left, right] := by
    unfold Coherent
    decide
  have hsame : left.same right = true := (same_iff h (by simp) (by simp)).mpr rfl
  exact ⟨h, (digest_eq_tree_digest standardMixer h).2 left (by simp) right (by simp) hsame⟩

end TagFilter.Shared
