import TagFilter.Proofs.Grammar.Derivation

/-!
# Tokens outside all parentheses

* `exposed` — the tokens that stand outside all parentheses, found by counting the open ones;
* `Balanced` — tokens after which as many parentheses are open as before them, and which expose
  nothing when they stand inside others;
* `Grammar.Derives.balanced` — derived tokens are balanced, by induction on the derivation;
* `Grammar.Derives.exposed_not_hidden` — no phrase exposes an operator that binds less closely than
  it does. The exposed operators of a chain are therefore its own (`filter_exposed_chain`).
-/

namespace TagFilter

open Grammar

/-- The tokens outside all parentheses, in a list that stands inside `depth` open ones. -/
def exposedFrom : (depth : Nat) → List Token → List Token
  | _, [] => []
  | depth, t :: ts =>
    match t.kind with
    | .leftParen => exposedFrom (depth + 1) ts
    | .rightParen => exposedFrom (depth - 1) ts
    | .identifier | .and | .or | .not | .eof =>
      if depth = 0 then t :: exposedFrom depth ts else exposedFrom depth ts

/-- The tokens outside all parentheses; parentheses themselves do not count. -/
def exposed (ts : List Token) : List Token := exposedFrom 0 ts

/-- No parenthesis is left open, and inside others nothing is exposed. -/
structure Balanced (ts : List Token) : Prop where
  /-- What follows stands at the same depth. -/
  append (depth : Nat) (rest : List Token) :
    exposedFrom depth (ts ++ rest) = exposedFrom depth ts ++ exposedFrom depth rest
  inside (depth : Nat) : exposedFrom (depth + 1) ts = []

theorem exposedFrom_zero_cons {t : Token} {ts : List Token} (hl : t.kind ≠ .leftParen)
    (hr : t.kind ≠ .rightParen) : exposedFrom 0 (t :: ts) = t :: exposedFrom 0 ts := by
  rw [exposedFrom]
  split <;> simp_all

theorem exposedFrom_succ_cons {t : Token} {ts : List Token} (hl : t.kind ≠ .leftParen)
    (hr : t.kind ≠ .rightParen) (depth : Nat) :
    exposedFrom (depth + 1) (t :: ts) = exposedFrom (depth + 1) ts := by
  rw [exposedFrom]
  split <;> simp_all

theorem exposedFrom_leftParen {t : Token} {ts : List Token} (ht : t.kind = .leftParen)
    (depth : Nat) : exposedFrom depth (t :: ts) = exposedFrom (depth + 1) ts := by
  rw [exposedFrom, ht]

theorem exposedFrom_rightParen {t : Token} {ts : List Token} (ht : t.kind = .rightParen)
    (depth : Nat) : exposedFrom (depth + 1) (t :: ts) = exposedFrom depth ts := by
  rw [exposedFrom, ht, Nat.add_sub_cancel]

/-! ### Balanced lists -/

namespace Balanced

variable {ts us : List Token}

theorem nil : Balanced [] where
  append _ _ := rfl
  inside _ := rfl

/-- A token that is no parenthesis may stand in front. -/
theorem cons (h : Balanced ts) {t : Token} (hl : t.kind ≠ .leftParen) (hr : t.kind ≠ .rightParen) :
    Balanced (t :: ts) where
  append := by
    intro depth rest
    cases depth with
    | zero =>
      rw [List.cons_append, exposedFrom_zero_cons hl hr, exposedFrom_zero_cons hl hr, h.append,
        List.cons_append]
    | succ depth =>
      rw [List.cons_append, exposedFrom_succ_cons hl hr, exposedFrom_succ_cons hl hr, h.append]
  inside := by
    intro depth
    rw [exposedFrom_succ_cons hl hr, h.inside]

theorem concat (h : Balanced ts) (h' : Balanced us) : Balanced (ts ++ us) where
  append := by
    intro depth rest
    rw [List.append_assoc, h.append, h'.append, h.append, List.append_assoc]
  inside := by
    intro depth
    rw [h.append, h.inside, h'.inside, List.append_nil]

/-- Parentheses around a balanced list hide all of it. -/
theorem exposedFrom_parens (h : Balanced ts) {l r : Token} (hl : l.kind = .leftParen)
    (hr : r.kind = .rightParen) (depth : Nat) (rest : List Token) :
    exposedFrom depth (l :: (ts ++ r :: rest)) = exposedFrom depth rest := by
  rw [exposedFrom_leftParen hl, h.append, h.inside, List.nil_append, exposedFrom_rightParen hr]

theorem parens (h : Balanced ts) {l r : Token} (hl : l.kind = .leftParen)
    (hr : r.kind = .rightParen) : Balanced (l :: (ts ++ [r])) where
  append := by
    intro depth rest
    have hnil := h.exposedFrom_parens hl hr depth []
    have hrest := h.exposedFrom_parens hl hr depth rest
    simp only [List.cons_append, List.append_assoc, List.nil_append] at hrest ⊢
    rw [hrest, hnil, exposedFrom, List.nil_append]
  inside := by
    intro depth
    rw [h.exposedFrom_parens hl hr, exposedFrom]

/-- Links with balanced operands are balanced. -/
theorem spelling {links : List Link} (operators : ∀ l ∈ links, l.operator.kind ≠ .leftParen ∧
    l.operator.kind ≠ .rightParen) (operands : ∀ l ∈ links, Balanced l.tokens) :
    Balanced (Grammar.spelling links) := by
  induction links with
  | nil => exact nil
  | cons l links ih =>
    rw [List.forall_mem_cons] at operators operands
    rw [spelling_cons]
    exact (operands.1.concat (ih operators.2 operands.2)).cons operators.1.1 operators.1.2

end Balanced

/-- **Derived tokens are balanced.** -/
theorem Grammar.Derives.balanced {p : Phrase} {ts : List Token} {f : Filter}
    (h : Derives p ts f) : Balanced ts := by
  induction h with
  | identifier ht => exact .cons .nil (by simp [ht]) (by simp [ht])
  | parens hl _ hr ih => exact ih.parens hl hr
  | operand _ ih => exact ih
  | not ht _ ih => exact ih.cons (by simp [ht]) (by simp [ht])
  | conjunction _ operators _ ih ihs =>
    exact ih.concat (.spelling (fun l hl => by simp [operators l hl]) ihs)
  | disjunction _ operators _ ih ihs =>
    exact ih.concat (.spelling (fun l hl => by simp [operators l hl]) ihs)

/-! ### Exposed operators -/

theorem Balanced.exposed_append {ts : List Token} (h : Balanced ts) (us : List Token) :
    exposed (ts ++ us) = exposed ts ++ exposed us := h.append 0 us

theorem exposed_cons {t : Token} {ts : List Token} (hl : t.kind ≠ .leftParen)
    (hr : t.kind ≠ .rightParen) : exposed (t :: ts) = t :: exposed ts :=
  exposedFrom_zero_cons hl hr

/-- The operators that a phrase has only inside parentheses. -/
def Grammar.Phrase.hides : Phrase → List Token.Kind
  | disjunction => []
  | conjunction => [.or]
  | negation => [.and, .or]
  | primary => [.and, .or]

/-- What is exposed in a chain is its operators, and what its operands expose. -/
theorem exposed_spelling {links : List Link} (operators : ∀ l ∈ links,
    l.operator.kind ≠ .leftParen ∧ l.operator.kind ≠ .rightParen)
    (operands : ∀ l ∈ links, Balanced l.tokens) :
    exposed (spelling links) = links.flatMap fun l => l.operator :: exposed l.tokens := by
  induction links with
  | nil => rfl
  | cons l links ih =>
    rw [List.forall_mem_cons] at operators operands
    rw [spelling_cons, exposed_cons operators.1.1 operators.1.2, operands.1.exposed_append,
      ih operators.2 operands.2, List.flatMap_cons, List.cons_append]

/-- **No phrase exposes an operator that binds less closely.** Such operators need parentheses to
stand in it. -/
theorem Grammar.Derives.exposed_not_hidden {p : Phrase} {ts : List Token} {f : Filter}
    (h : Derives p ts f) : ∀ t ∈ exposed ts, t.kind ∉ p.hides := by
  induction h with
  | identifier ht =>
    rw [exposed_cons (by simp [ht]) (by simp [ht])]
    simp [exposed, exposedFrom, ht, Phrase.hides]
  | parens hl inner hr _ =>
    -- whatever stands inside the parentheses, it is not exposed
    have hnone := inner.balanced.exposedFrom_parens hl hr 0 []
    rw [exposed, hnone]
    simp [exposedFrom]
  | operand _ ih => exact ih
  | not ht _ ih =>
    rw [exposed_cons (by simp [ht]) (by simp [ht]), List.forall_mem_cons]
    exact ⟨by simp [ht, Phrase.hides], ih⟩
  | conjunction first operators operands ih ihs =>
    rw [first.balanced.exposed_append, exposed_spelling (fun l hl => by simp [operators l hl])
      fun l hl => (operands l hl).balanced]
    -- an exposed `OR` would be exposed in one of the negations already
    have hfewer : ∀ {k : Token.Kind}, k ∉ Phrase.negation.hides → k ∉ Phrase.conjunction.hides := by
      simp [Phrase.hides]
    intro t ht
    rcases List.mem_append.mp ht with ht | ht
    · exact hfewer (ih t ht)
    · obtain ⟨l, hl, ht⟩ := List.mem_flatMap.mp ht
      rcases List.mem_cons.mp ht with rfl | ht
      · simp [operators l hl, Phrase.hides]
      · exact hfewer (ihs l hl t ht)
  | disjunction _ _ _ _ _ =>
    -- a disjunction hides nothing
    intro t _
    simp [Phrase.hides]

/-- A phrase exposes none of the operators that it hides. -/
theorem Grammar.Derives.filter_exposed_eq_nil {p : Phrase} {kind : Token.Kind} {ts : List Token}
    {f : Filter} (h : Derives p ts f) (hhides : kind ∈ p.hides) :
    (exposed ts).filter (·.kind = kind) = [] := by
  rw [List.filter_eq_nil_iff]
  intro t ht hk
  exact h.exposed_not_hidden t ht (by rwa [of_decide_eq_true hk])

/-- The exposed operators of a chain are its own, if its operands hide theirs. -/
theorem filter_exposed_chain {p : Phrase} {kind : Token.Kind} {ts : List Token} {f : Filter}
    {links : List Link} (hkind : kind = .and ∨ kind = .or) (hhides : kind ∈ p.hides)
    (first : Derives p ts f) (operators : ∀ l ∈ links, l.operator.kind = kind)
    (operands : ∀ l ∈ links, Derives p l.tokens l.filter) :
    (exposed (ts ++ spelling links)).filter (·.kind = kind) = links.map Link.operator := by
  have hoperators : ∀ l ∈ links, l.operator.kind ≠ .leftParen ∧ l.operator.kind ≠ .rightParen := by
    intro l hl
    rcases hkind with rfl | rfl <;> simp [operators l hl]
  rw [first.balanced.exposed_append, exposed_spelling hoperators fun l hl => (operands l hl).balanced,
    List.filter_append, first.filter_exposed_eq_nil hhides, List.nil_append]
  -- of every link the operator is left and nothing of its operand
  clear first hoperators
  induction links with
  | nil => rfl
  | cons l links ih =>
    rw [List.forall_mem_cons] at operators operands
    rw [List.flatMap_cons, List.filter_append, List.filter_cons_of_pos (by simp [operators.1]),
      operands.1.filter_exposed_eq_nil hhides, ih operators.2 operands.2]
    rfl

end TagFilter
