import TagFilter.Outline.Basic

/-!
# An outline mirrors its filter

The outline of a filter has one branch for every node, with the branches of the operands below it in
their order (`Outline.ofFilter_eq_mirror`), whatever the nodes are called. The outline is built from
a worklist and a table, and the table is then read as a tree; neither of these is a recursion on the
filter.

* `Branch.mirror` — the tree of branches of a filter, by recursion on it;
* `Outline.block`, `Outline.blocks` — the part of the table that belongs to a filter: its root, and
  then the parts of its operands one after the other;
* `Outline.grow_cons` — the loop adds this part for the first filter of the worklist, and goes on
  with the others;
* `Outline.branchAt_block` — wherever such a part stands in a table, it is read as the tree of the
  filter. What stands behind it has to keep clear of it, which is the invariant `Outline.Apart`: no
  entry there belongs under one of its branches.
-/

namespace TagFilter

/-- What holds of a node whenever it holds of its children holds of every filter. -/
theorem Filter.byChildren {motive : Filter → Prop}
    (step : ∀ f : Filter, (∀ child ∈ f.children, motive child) → motive f) (f : Filter) :
    motive f := by
  induction f with
  | identifier pattern => exact step _ (by simp [children])
  | and left right hl hr => exact step _ (by simp [children, hl, hr])
  | or left right hl hr => exact step _ (by simp [children, hl, hr])
  | not operand h => exact step _ (by simp [children, h])

/-- The tree of branches with the shape of the filter. -/
def Branch.mirror (naming : Filter → String) : Filter → Branch
  | .identifier pattern => .node (naming (.identifier pattern)) []
  | .and left right => .node (naming (.and left right)) [mirror naming left, mirror naming right]
  | .or left right => .node (naming (.or left right)) [mirror naming left, mirror naming right]
  | .not operand => .node (naming (.not operand)) [mirror naming operand]

theorem Branch.mirror_eq (naming : Filter → String) (f : Filter) :
    mirror naming f = .node (naming f) (f.children.map (mirror naming)) := by cases f <;> rfl

namespace Outline

/-! ### The table of a filter -/

/-- The entries of a filter whose root has the number `start` and belongs under `parent`. -/
def block (naming : Filter → String) : Filter → (parent : Option Nat) → (start : Nat) → List Entry
  | .identifier pattern, parent, _ => [⟨parent, naming (.identifier pattern)⟩]
  | .and left right, parent, start => ⟨parent, naming (.and left right)⟩ ::
      (block naming left (some start) (start + 1) ++
        block naming right (some start) (start + 1 + left.size))
  | .or left right, parent, start => ⟨parent, naming (.or left right)⟩ ::
      (block naming left (some start) (start + 1) ++
        block naming right (some start) (start + 1 + left.size))
  | .not operand, parent, start => ⟨parent, naming (.not operand)⟩ ::
      block naming operand (some start) (start + 1)

/-- The entries of filters that stand one after the other under one branch. -/
def blocks (naming : Filter → String) : List Filter → (parent start : Nat) → List Entry
  | [], _, _ => []
  | f :: fs, parent, start =>
    block naming f (some parent) start ++ blocks naming fs parent (start + f.size)

/-- The numbers of their roots. -/
def starts : List Filter → (start : Nat) → List Nat
  | [], _ => []
  | f :: fs, start => start :: starts fs (start + f.size)

variable {naming : Filter → String}

/-- The root comes first, and its operands follow. -/
theorem block_eq (f : Filter) (parent : Option Nat) (start : Nat) :
    block naming f parent start =
      ⟨parent, naming f⟩ :: blocks naming f.children start (start + 1) := by
  cases f <;> simp [block, blocks, Filter.children]

theorem length_block (f : Filter) (parent : Option Nat) (start : Nat) :
    (block naming f parent start).length = f.size := by
  induction f generalizing parent start with
  | identifier pattern => rfl
  | and left right ihl ihr | or left right ihl ihr =>
    rw [block, List.length_cons, List.length_append, ihl, ihr, Filter.size]
  | not operand ih => rw [block, List.length_cons, ih, Filter.size]

variable {f : Filter} {fs : List Filter} {parent : Option Nat} {others : List (Filter × Option Nat)}
  {table : Array Entry} {front back : List Entry} {e : Entry} {i start : Nat}

/-- Filters under one branch are added one after the other, if each of them is. -/
theorem grow_map (h : ∀ f ∈ fs, ∀ parent others table, grow naming ((f, parent) :: others) table =
      grow naming others (table ++ (block naming f parent table.size).toArray)) (others table) :
    grow naming (fs.map (fun f => (f, some i)) ++ others) table =
      grow naming others (table ++ (blocks naming fs i table.size).toArray) := by
  induction fs generalizing table with
  | nil => simp [blocks]
  | cons f fs ih =>
    rw [List.map_cons, List.cons_append, h f (List.mem_cons_self ..),
      ih fun g hg => h g (List.mem_cons_of_mem _ hg)]
    simp [blocks, length_block]

/-- **The loop adds the part of the first filter**, and goes on with the others. -/
theorem grow_cons : grow naming ((f, parent) :: others) table =
    grow naming others (table ++ (block naming f parent table.size).toArray) := by
  induction f using Filter.byChildren generalizing parent others table with
  | step f ih =>
    rw [grow, descend, grow_map fun g hg _ _ _ => ih g hg, block_eq]
    simp

theorem entries_eq (f : Filter) : entries naming f = (block naming f none 0).toArray := by
  rw [entries, grow_cons, grow]
  simp

/-! ### Where the entries belong -/

/-- No entry belongs under a branch with a number from `low` on and below `high`. -/
def Apart (low high : Nat) (entries : List Entry) : Prop :=
  ∀ e ∈ entries, ∀ i, e.parent = some i → i < low ∨ high ≤ i

/-- Every entry of a filter but its root belongs under a branch of the filter. -/
theorem parent_of_mem_block (h : e ∈ block naming f parent start) :
    e.parent = parent ∨ ∃ i, e.parent = some i ∧ start ≤ i ∧ i < start + f.size := by
  induction f generalizing parent start with
  | identifier pattern =>
    obtain rfl := List.mem_singleton.mp h
    exact .inl rfl
  | and left right ihl ihr | or left right ihl ihr =>
    rw [block, List.mem_cons, List.mem_append] at h
    rw [Filter.size]
    rcases h with rfl | h | h
    · exact .inl rfl
    · rcases ihl h with hp | ⟨i, hp, hlow, hhigh⟩
      · exact .inr ⟨start, hp, by omega, by omega⟩
      · exact .inr ⟨i, hp, by omega, by omega⟩
    · rcases ihr h with hp | ⟨i, hp, hlow, hhigh⟩
      · exact .inr ⟨start, hp, by omega, by omega⟩
      · exact .inr ⟨i, hp, by omega, by omega⟩
  | not operand ih =>
    rw [block, List.mem_cons] at h
    rw [Filter.size]
    rcases h with rfl | h
    · exact .inl rfl
    · rcases ih h with hp | ⟨i, hp, hlow, hhigh⟩
      · exact .inr ⟨start, hp, by omega, by omega⟩
      · exact .inr ⟨i, hp, by omega, by omega⟩

theorem Apart.append {low high : Nat} {es fs : List Entry} (h : Apart low high es)
    (h' : Apart low high fs) : Apart low high (es ++ fs) := by
  intro e he
  rcases List.mem_append.mp he with he | he
  · exact h e he
  · exact h' e he

theorem Apart.mono {low low' high high' : Nat} {es : List Entry} (h : Apart low high es)
    (hlow : low ≤ low') (hhigh : high' ≤ high) : Apart low' high' es := by
  intro e he i hi
  have := h e he i hi
  omega

/-- Filters under a branch outside of a range keep clear of it if they begin behind it. -/
theorem apart_blocks {low high : Nat} (hi : i < low ∨ high ≤ i) (hstart : high ≤ start) :
    Apart low high (blocks naming fs i start) := by
  induction fs generalizing start with
  | nil => simp [Apart, blocks]
  | cons f fs ih =>
    refine .append (fun e he k hk => ?_) (ih (Nat.le_add_right_of_le hstart))
    rcases parent_of_mem_block he with hp | ⟨j, hp, hlow, -⟩ <;>
      · rw [hp, Option.some.injEq] at hk
        omega

/-! ### Reading the table -/

/-- The numbers of the entries right under branch `i`; the first entry has the number `start`. -/
def hits (i start : Nat) : List Entry → List Nat
  | [] => []
  | e :: es => if e.parent = some i then start :: hits i (start + 1) es else hits i (start + 1) es

theorem hits_append (es : List Entry) :
    hits i start (es ++ back) = hits i start es ++ hits i (start + es.length) back := by
  induction es generalizing start with
  | nil => simp [hits]
  | cons e es ih =>
    have hlength : start + 1 + es.length = start + (e :: es).length := by
      rw [List.length_cons]
      omega
    by_cases he : e.parent = some i <;> simp [hits, he, ih, hlength]

theorem hits_of_apart (h : Apart i (i + 1) back) : hits i start back = [] := by
  induction back generalizing start with
  | nil => rfl
  | cons e es ih =>
    have hne : e.parent ≠ some i := fun he => by
      have := h e (List.mem_cons_self ..) i he
      omega
    rw [hits, if_neg hne]
    exact ih fun e he => h e (List.mem_cons_of_mem _ he)

/-- Right under a branch stand the roots of its filters, and nothing below them. -/
theorem hits_blocks (hi : i < start) :
    hits i start (blocks naming fs i start) = starts fs start := by
  induction fs generalizing start with
  | nil => rfl
  | cons f fs ih =>
    have hbelow : Apart i (i + 1) (blocks naming f.children start (start + 1)) :=
      apart_blocks (.inr hi) (by omega)
    rw [blocks, hits_append, length_block, ih (by omega), block_eq, hits, if_pos rfl,
      hits_of_apart hbelow, starts]
    rfl

/-- The numbers of the entries that belong under branch `i`, among those of a part of the table. -/
theorem filter_range'_eq (htable : table.toList = front ++ back) (hi : i < front.length) :
    ((List.range' front.length back.length).filter fun j =>
      i < j ∧ (table[j]?.bind Entry.parent) = some i) = hits i front.length back := by
  induction back generalizing front with
  | nil => rfl
  | cons e es ih =>
    have hentry : table[front.length]? = some e := by
      rw [← Array.getElem?_toList, htable]
      simp
    have hrest := @ih (front ++ [e]) (by simpa using htable) (by simp; omega)
    rw [List.length_append, List.length_singleton] at hrest
    rw [List.length_cons, List.range'_succ, List.filter_cons, hrest, hits, hentry]
    by_cases he : e.parent = some i <;> simp [he, hi]

/-- What is right under a branch is found behind it. -/
theorem under_eq (htable : table.toList = front ++ e :: back) :
    under table front.length = hits front.length (front.length + 1) back := by
  have hsize : table.size = front.length + 1 + back.length := by
    rw [← Array.length_toList, htable, List.length_append, List.length_cons]
    omega
  have hbehind := @filter_range'_eq table (front ++ [e]) back front.length
    (by simpa using htable) (by simp)
  rw [List.length_append, List.length_singleton] at hbehind
  rw [under, hsize, List.range_eq_range', ← List.range'_append_1, List.filter_append, Nat.zero_add,
    hbehind, List.append_left_eq_self, List.filter_eq_nil_iff]
  -- up to the branch itself there is nothing
  intro j hj
  have hle : j < front.length + 1 := by simpa using hj
  simp only [decide_eq_true_eq, not_and]
  omega

/-- Filters that stand one after the other are read as their trees, if each of them is. -/
theorem map_branchAt_starts
    (h : ∀ f ∈ fs, ∀ {front back : List Entry} {parent : Option Nat},
      table.toList = front ++ (block naming f parent front.length ++ back) →
        Apart front.length (front.length + f.size) back →
          branchAt table front.length = .mirror naming f)
    (hi : i < front.length)
    (htable : table.toList = front ++ (blocks naming fs i front.length ++ back))
    (hback : Apart front.length (front.length + (blocks naming fs i front.length).length) back) :
    (starts fs front.length).map (branchAt table) = fs.map (.mirror naming) := by
  induction fs generalizing front with
  | nil => rfl
  | cons f fs ih =>
    rw [blocks, List.append_assoc] at htable
    rw [blocks, List.length_append, length_block] at hback
    have hfirst : branchAt table front.length = .mirror naming f := by
      refine h f (List.mem_cons_self ..) htable (.append ?_ (hback.mono (Nat.le_refl _) (by omega)))
      exact apart_blocks (.inl hi) (Nat.le_refl _)
    have hlength : (front ++ block naming f (some i) front.length).length =
        front.length + f.size := by
      rw [List.length_append, length_block]
    have hothers := @ih (front ++ block naming f (some i) front.length)
      (fun g hg => h g (List.mem_cons_of_mem _ hg)) (by omega)
      (by rw [hlength, List.append_assoc, htable])
      (by rw [hlength]; exact hback.mono (by omega) (by omega))
    rw [hlength] at hothers
    rw [starts, List.map_cons, List.map_cons, hfirst, hothers]

/-- **The part of a filter is read as its tree**, wherever it stands in the table. -/
theorem branchAt_block
    (htable : table.toList = front ++ (block naming f parent front.length ++ back))
    (hback : Apart front.length (front.length + f.size) back) :
    branchAt table front.length = .mirror naming f := by
  induction f using Filter.byChildren generalizing front back parent with
  | step f ih =>
    have hsize := @length_block naming f parent front.length
    rw [block_eq, List.cons_append] at htable
    rw [block_eq, List.length_cons] at hsize
    have hroot : table[front.length]? = some ⟨parent, naming f⟩ := by
      rw [← Array.getElem?_toList, htable]
      simp
    -- right under the root stand its operands, since all that is behind them keeps clear
    have hunder : under table front.length = starts f.children (front.length + 1) := by
      rw [under_eq htable, hits_append, hits_blocks (Nat.lt_succ_self _),
        hits_of_apart (hback.mono (Nat.le_refl _) (by omega)), List.append_nil]
    have hlength : (front ++ [(⟨parent, naming f⟩ : Entry)]).length = front.length + 1 := by simp
    have hchildren := @map_branchAt_starts naming f.children table (front ++ [⟨parent, naming f⟩])
      back front.length (fun g hg => ih g hg) (by omega) (by rw [hlength, htable]; simp)
      (by rw [hlength]; exact hback.mono (by omega) (by omega))
    rw [hlength, ← hunder] at hchildren
    rw [branchAt, hroot, Branch.mirror_eq, ← hchildren]
    simp

/-- **An outline mirrors its filter.** -/
theorem ofFilter_eq_mirror (f : Filter) : ofFilter naming f = .mirror naming f := by
  have htable : (entries naming f).toList =
      [] ++ (block naming f none ([] : List Entry).length ++ []) := by
    simp [entries_eq]
  exact branchAt_block htable (by simp [Apart])

end Outline

end TagFilter
