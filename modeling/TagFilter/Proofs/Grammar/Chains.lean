import TagFilter.Proofs.Grammar.Sentence

/-!
# Chains of operands

The grammar has two sorts of chains, operands between `AND`s and operands between `OR`s, and what
holds of one mostly holds of the other. `Chain` names the two, with the phrase that a chain is and
the phrase of its operands, so that such facts are stated once.

* `Chain.derives_links`, `Chain.exists_links` — a chain is an operand with links behind it;
* `Chain.derives_append` — a chain may be lengthened by links;
* `joinAll_inj` — what the links are joined to can be told from the filter of the chain;
* `joinAll_join_ne` — and a chain that begins with `f` is not `f` joined to one operand.
-/

namespace TagFilter.Grammar

/-- The two sorts of chains. -/
inductive Chain where
  | and
  | or
  deriving DecidableEq, Repr

namespace Chain

/-- The phrase that a chain is. -/
def phrase : Chain → Phrase
  | and => .conjunction
  | or => .disjunction

/-- The phrase that its operands are. -/
def operand : Chain → Phrase
  | and => .negation
  | or => .conjunction

/-- The operator between them. -/
def kind : Chain → Token.Kind
  | and => .and
  | or => .or

/-- The node that the operator makes. -/
def join : Chain → Filter → Filter → Filter
  | and => .and
  | or => .or

theorem kind_ne_leftParen (c : Chain) : c.kind ≠ .leftParen := by cases c <;> decide

theorem join_inj {c : Chain} {f f' g g' : Filter} :
    c.join f g = c.join f' g' ↔ f = f' ∧ g = g' := by
  cases c <;> simp [join]

/-- A node is larger than its first operand. -/
theorem size_lt_join (c : Chain) (f g : Filter) : f.size < (c.join f g).size := by
  cases c <;> simp only [join, Filter.size] <;> omega

end Chain

variable {c : Chain} {f g g' : Filter} {links : List Link} {ts : List Token}

/-! ### Links one after the other -/

theorem spelling_append (links others : List Link) :
    spelling (links ++ others) = spelling links ++ spelling others := List.flatMap_append

theorem joinAll_append (join : Filter → Filter → Filter) (f : Filter) (links others : List Link) :
    joinAll join f (links ++ others) = joinAll join (joinAll join f links) others :=
  List.foldl_append

/-- The last link of a chain makes the node at the root. -/
theorem joinAll_concat (join : Filter → Filter → Filter) (f : Filter) (links : List Link)
    (m : Link) : joinAll join f (links ++ [m]) = join (joinAll join f links) m.filter := by
  rw [joinAll_append]
  rfl

/-! ### Derivations of chains -/

namespace Chain

/-- An operand with links behind it is a chain. -/
theorem derives_links (first : Derives c.operand ts f)
    (hlinks : ∀ m ∈ links, m.operator.kind = c.kind ∧ Derives c.operand m.tokens m.filter) :
    Derives c.phrase (ts ++ spelling links) (joinAll c.join f links) := by
  cases c with
  | and => exact .conjunction first (fun m hm => (hlinks m hm).1) fun m hm => (hlinks m hm).2
  | or => exact .disjunction first (fun m hm => (hlinks m hm).1) fun m hm => (hlinks m hm).2

/-- A chain is an operand with links behind it. -/
theorem exists_links (h : Derives c.phrase ts f) :
    ∃ us g links, ts = us ++ spelling links ∧ f = joinAll c.join g links ∧
      Derives c.operand us g ∧
      ∀ m ∈ links, m.operator.kind = c.kind ∧ Derives c.operand m.tokens m.filter := by
  cases c with
  | and =>
    cases h with
    | conjunction first operators operands =>
      exact ⟨_, _, _, rfl, rfl, first, fun m hm => ⟨operators m hm, operands m hm⟩⟩
  | or =>
    cases h with
    | disjunction first operators operands =>
      exact ⟨_, _, _, rfl, rfl, first, fun m hm => ⟨operators m hm, operands m hm⟩⟩

/-- **A chain may be lengthened by links.** -/
theorem derives_append (h : Derives c.phrase ts f)
    (hlinks : ∀ m ∈ links, m.operator.kind = c.kind ∧ Derives c.operand m.tokens m.filter) :
    Derives c.phrase (ts ++ spelling links) (joinAll c.join f links) := by
  obtain ⟨us, g, others, rfl, rfl, first, hothers⟩ := exists_links h
  rw [List.append_assoc, ← spelling_append, ← joinAll_append]
  exact derives_links first (List.forall_mem_append.mpr ⟨hothers, hlinks⟩)

end Chain

/-! ### Filters of chains -/

/-- What the links are joined to can be told from the filter of the chain. -/
theorem joinAll_inj : joinAll c.join f links = joinAll c.join g links ↔ f = g := by
  induction links generalizing f g with
  | nil => exact Iff.rfl
  | cons m links ih =>
    rw [joinAll_cons, joinAll_cons, ih, Chain.join_inj]
    exact and_iff_left rfl

theorem size_le_joinAll (c : Chain) (f : Filter) (links : List Link) :
    f.size ≤ (joinAll c.join f links).size := by
  induction links generalizing f with
  | nil => exact Nat.le_refl _
  | cons m links ih => exact Nat.le_trans (Nat.le_of_lt (c.size_lt_join f m.filter)) (ih _)

/-- A chain with links has its operator at the root. -/
theorem exists_joinAll_eq (h : links ≠ []) : ∃ f' g', joinAll c.join f links = c.join f' g' := by
  obtain ⟨others, m, rfl⟩ := (List.eq_nil_or_concat' links).resolve_left h
  exact ⟨_, _, joinAll_concat ..⟩

/-- **What a chain begins with is smaller than what the last link is joined to**, if there is more
than one operator. So such a chain is not `f` joined to one operand. -/
theorem joinAll_join_ne (h : links ≠ []) : joinAll c.join (c.join f g) links ≠ c.join f g' := by
  obtain ⟨others, m, rfl⟩ := (List.eq_nil_or_concat' links).resolve_left h
  rw [joinAll_concat]
  intro heq
  have hfirst : joinAll c.join (c.join f g) others = f := (Chain.join_inj.mp heq).1
  have hlt : f.size < (c.join f g).size := c.size_lt_join f g
  have hle : (c.join f g).size ≤ f.size := calc
    (c.join f g).size ≤ (joinAll c.join (c.join f g) others).size := size_le_joinAll ..
    _ = f.size := by rw [hfirst]
  exact absurd hlt (Nat.not_lt.mpr hle)

end TagFilter.Grammar
