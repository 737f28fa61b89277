import TagFilter.Proofs.Grammar.Grafting

/-!
# Partners of parentheses

An opening parenthesis and a closing one are partners if what stands between them is nested: it
closes as many parentheses as it opens, and none before it has been opened.

* `Grammar.Nested` — such a list of tokens. Every derivation is one (`Derives.nested`);
* `Nested.exists_partner` — a list that is nested holds the partners of its parentheses;
* `Nested.eq_of_partner` — the two ends of a parenthesis that encloses a nested list are partners.
-/

namespace TagFilter.Grammar

/-- The number of closing parentheses. -/
def closings (ts : List Token) : Nat := ts.countP (·.kind = .rightParen)

@[simp] theorem closings_nil : closings [] = 0 := rfl

@[simp] theorem closings_append (ts us : List Token) :
    closings (ts ++ us) = closings ts + closings us := List.countP_append

@[simp] theorem closings_cons (t : Token) (ts : List Token) :
    closings (t :: ts) = closings ts + if t.kind = .rightParen then 1 else 0 := by
  simp [closings, List.countP_cons]

theorem openings_leftParen {l : Token} (hl : l.kind = .leftParen) (ts : List Token) :
    openings (l :: ts) = openings ts + 1 := by simp [hl]

theorem closings_leftParen {l : Token} (hl : l.kind = .leftParen) (ts : List Token) :
    closings (l :: ts) = closings ts := by simp [hl]

/-- Every parenthesis has its partner within the list. -/
structure Nested (ts : List Token) : Prop where
  /-- No parenthesis is left open. -/
  closed : openings ts = closings ts
  /-- From left to right, no parenthesis is closed that has not been opened. -/
  opened {us vs : List Token} (h : ts = us ++ vs) : closings us ≤ openings us

namespace Nested

variable {ts us front back inside after rest : List Token} {t l r : Token}

theorem nil : Nested [] where
  closed := rfl
  opened h := by
    obtain ⟨rfl, -⟩ := List.append_eq_nil_iff.mp h.symm
    exact Nat.le_refl _

theorem append (h : Nested ts) (h' : Nested us) : Nested (ts ++ us) where
  closed := by rw [openings_append, closings_append, h.closed, h'.closed]
  opened hsplit := by
    rcases List.append_eq_append_iff.mp hsplit with ⟨part, rfl, hus⟩ | ⟨part, hts, -⟩
    · rw [openings_append, closings_append, h.closed]
      exact Nat.add_le_add_left (h'.opened hus) _
    · exact h.opened hts

/-- A token that is no parenthesis. -/
theorem singleton (hl : t.kind ≠ .leftParen) (hr : t.kind ≠ .rightParen) : Nested [t] where
  closed := by simp [hl, hr]
  opened hsplit := by
    rcases List.singleton_eq_append_iff.mp hsplit with ⟨rfl, -⟩ | ⟨rfl, -⟩
    · exact Nat.le_refl _
    · simp [hl, hr]

theorem cons (h : Nested ts) (hl : t.kind ≠ .leftParen) (hr : t.kind ≠ .rightParen) :
    Nested (t :: ts) := (singleton hl hr).append h

theorem parens (h : Nested ts) (hl : l.kind = .leftParen) (hr : r.kind = .rightParen) :
    Nested (l :: (ts ++ [r])) where
  closed := by simp [hl, hr, h.closed]
  opened {us vs} hsplit := by
    rcases List.cons_eq_append_iff.mp hsplit with ⟨rfl, -⟩ | ⟨us, rfl, hrest⟩
    · exact Nat.le_refl _
    · rw [openings_leftParen hl, closings_leftParen hl]
      rcases List.append_eq_append_iff.mp hrest with ⟨part, rfl, hpart⟩ | ⟨part, rfl, -⟩
      · -- the closing parenthesis may be among them, and the opening one makes up for it
        have hle : closings part ≤ 1 := by
          rcases List.singleton_eq_append_iff.mp hpart with ⟨rfl, -⟩ | ⟨rfl, -⟩ <;> simp [hr]
        rw [openings_append, closings_append, h.closed]
        omega
      · exact Nat.le_succ_of_le (h.opened rfl)

theorem spelling {links : List Link} (operators : ∀ l ∈ links, l.operator.kind ≠ .leftParen ∧
    l.operator.kind ≠ .rightParen) (operands : ∀ l ∈ links, Nested l.tokens) :
    Nested (spelling links) := by
  induction links with
  | nil => exact nil
  | cons l links ih =>
    rw [List.forall_mem_cons] at operators operands
    rw [spelling_cons]
    exact (operands.1.append (ih operators.2 operands.2)).cons operators.1.1 operators.1.2

/-- **A nested list holds the partners of its parentheses.** If `l` stands in it and `r` is the
partner of `l`, then `r` stands in it as well. -/
theorem exists_partner (h : Nested (front ++ l :: back)) (hl : l.kind = .leftParen)
    (hinside : Nested inside) (heq : back ++ rest = inside ++ r :: after) :
    ∃ behind, back = inside ++ r :: behind ∧ after = behind ++ rest := by
  rcases append_eq_append_cons_cases heq with hpartner | ⟨part, hpart, -⟩
  · exact hpartner
  · -- otherwise `back` would close fewer parentheses than have been opened in front of it
    have hfront := h.opened rfl
    have hback := hinside.opened hpart
    have hclosed := h.closed
    rw [openings_append, openings_leftParen hl, closings_append, closings_leftParen hl] at hclosed
    omega

/-- **The ends of a parenthesis are partners**, if it encloses a nested list. -/
theorem eq_of_partner (h : Nested ts) (hinside : Nested inside) (hr : r.kind = .rightParen)
    (heq : ts ++ [t] = inside ++ r :: after) : ts = inside ∧ after = [] := by
  rcases append_eq_append_cons_cases heq with ⟨back, rfl, -⟩ | ⟨part, rfl, hlast⟩
  · -- otherwise `r` would close a parenthesis that has not been opened
    have hsplit : inside ++ r :: back = (inside ++ [r]) ++ back := by simp
    have hopened := h.opened hsplit
    have hclosed := hinside.closed
    simp [hr] at hopened
    omega
  · obtain ⟨rfl, rfl⟩ : part = [] ∧ after = [] := by
      rcases List.singleton_eq_append_iff.mp hlast with ⟨rfl, h⟩ | ⟨-, h⟩
      · exact ⟨rfl, (List.cons.inj h).2⟩
      · cases h
    simp

end Nested

/-- **Derived tokens are nested.** -/
theorem Derives.nested {p : Phrase} {ts : List Token} {f : Filter} (h : Derives p ts f) :
    Nested ts := by
  induction h with
  | identifier ht => exact .singleton (by simp [ht]) (by simp [ht])
  | parens hl _ hr ih => exact ih.parens hl hr
  | operand _ ih => exact ih
  | not ht _ ih => exact ih.cons (by simp [ht]) (by simp [ht])
  | conjunction _ operators _ ih ihs =>
    exact ih.append (.spelling (fun l hl => by simp [operators l hl]) ihs)
  | disjunction _ operators _ ih ihs =>
    exact ih.append (.spelling (fun l hl => by simp [operators l hl]) ihs)

end TagFilter.Grammar
