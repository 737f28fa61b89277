import TagFilter.Proofs.Grammar.Completeness

/-!
# The rules read nothing but derivations

If a rule answers with a filter, it has passed tokens that its phrase derives, with that filter, and
it stands in front of a token that does not go on with the phrase (`rule_sound`). Together with
`Derives.read` this says exactly when a rule answers, and with what (`rule_eq_ok_iff`).

The tokens have to end with an end mark (`Ended`). No derivation contains one, so a rule that
answers has always left a token to stand at, and `advance` has really passed what it was to pass.

What is said of a rule is `ReadsOnly`; it is carried from the operands to negations
(`ReadsOnly.negationOf`), from there to the chains (`ReadsOnly.chain`, the invariant of the loop, and
`ReadsOnly.andThen_chain`), and from one level of parentheses to the next (`rule_sound`).
-/

namespace TagFilter.Grammar

/-- The last token is an end mark. -/
def Ended (ts : List Token) : Prop := ∃ us e, ts = us ++ [e] ∧ e.kind = .eof

theorem Ended.ne_nil {ts : List Token} (h : Ended ts) : ts ≠ [] := by
  obtain ⟨us, e, rfl, -⟩ := h
  simp

/-- Behind a token that is no end mark the list still ends with one. -/
theorem Ended.tail {t : Token} {ts : List Token} (h : Ended (t :: ts)) (ht : t.kind ≠ .eof) :
    Ended ts := by
  obtain ⟨us, e, hts, he⟩ := h
  cases us with
  | nil =>
    obtain ⟨rfl, -⟩ := List.cons.inj hts
    exact absurd he ht
  | cons u us =>
    obtain ⟨-, rfl⟩ := List.cons.inj hts
    exact ⟨us, e, rfl, he⟩

/-- `r` answers only where `D` holds of the tokens it passed and of its answer, and it ends only in
front of a token of other kinds than `kinds`. -/
def ReadsOnly (r : Rule Filter) (D : List Token → Filter → Prop) (kinds : List Token.Kind) : Prop :=
  ∀ ⦃ts : List Token⦄ ⦃f : Filter⦄ ⦃rest : List Token⦄, Ended ts → r ts = (.ok f, rest) →
    ∃ front, ts = front ++ rest ∧ D front f ∧ Ended rest ∧ Clear kinds rest

theorem Ended.clear_nil {ts : List Token} (h : Ended ts) : Clear [] ts := by
  cases ts with
  | nil => exact absurd rfl h.ne_nil
  | cons t ts => exact .cons (by simp) ts

/-- An answer that is passed on comes from an answer before it. -/
theorem Outcome.andThen_eq_ok {α β : Type} {o : Outcome α} {next : α → Rule β} {b : β}
    {rest : List Token} (h : o.andThen next = (.ok b, rest)) :
    ∃ a ahead, o = (.ok a, ahead) ∧ next a ahead = (.ok b, rest) := by
  obtain ⟨result, ahead⟩ := o
  cases result with
  | error stop => simp [Outcome.andThen] at h
  | ok a => exact ⟨a, ahead, rfl, h⟩

/-- A changed answer comes from the answer before the change. -/
theorem Outcome.map_eq_ok {α β : Type} {o : Outcome α} {g : α → β} {b : β} {rest : List Token}
    (h : o.map g = (.ok b, rest)) : ∃ a, o = (.ok a, rest) ∧ g a = b := by
  obtain ⟨result, ahead⟩ := o
  cases result with
  | error stop => simp [Outcome.map, Except.map] at h
  | ok a =>
    simp only [Outcome.map, Except.map, Prod.mk.injEq, Except.ok.injEq] at h
    obtain ⟨hab, rfl⟩ := h
    exact ⟨a, rfl, hab⟩

/-! ### From operands to negations and chains -/

/-- **A run of `NOT` is derived.** Every `NOT` that is passed becomes one negation. -/
theorem ReadsOnly.negationOf {operand : Rule Filter}
    (h : ReadsOnly operand (Derives .primary) []) :
    ReadsOnly (negationOf operand) (Derives .negation) [] := by
  intro ts f rest hended hread
  -- the rule recurses on the tokens ahead, one `NOT` at a time
  induction ts generalizing f with
  | nil => simp [Grammar.negationOf] at hread
  | cons t ts ih =>
    by_cases ht : t.kind = .not
    · have htail : Ended ts := hended.tail (by simp [ht])
      rw [negationOf_not ht htail.ne_nil] at hread
      obtain ⟨g, hg, rfl⟩ := Outcome.map_eq_ok hread
      obtain ⟨front, rfl, hfront, hrest⟩ := ih htail hg
      exact ⟨t :: front, rfl, .not ht hfront, hrest⟩
    · rw [negationOf_of_ne_not ht] at hread
      obtain ⟨front, hts, hfront, hrest⟩ := h hended hread
      exact ⟨front, hts, .operand hfront, hrest⟩

/-- **The loop of a chain reads links.** Whatever filter it starts with, it has joined to it the
operands of the links it passed, and it ends where neither its own operator follows nor one with
which an operand would go on. -/
theorem ReadsOnly.chain {kind : Token.Kind} {join : Filter → Filter → Filter}
    {operand : Rule Filter} {D : List Token → Filter → Prop} {kinds : List Token.Kind}
    (h : ReadsOnly operand D kinds) (hkind : kind ≠ .eof) {ahead rest : List Token} {f : Filter}
    (left : Filter) (hended : Ended ahead) (hclear : Clear kinds ahead)
    (hread : Grammar.chain kind join operand left ahead = (.ok f, rest)) :
    ∃ links, ahead = spelling links ++ rest ∧ (∀ l ∈ links, l.operator.kind = kind) ∧
      (∀ l ∈ links, D l.tokens l.filter) ∧ f = joinAll join left links ∧ Ended rest ∧
      Clear (kind :: kinds) rest := by
  fun_induction Grammar.chain kind join operand left ahead with
  | case1 left => simp at hread
  | case2 left t others ht right rest' hoperand hshort ih =>
    -- one more link: its operand begins where `advance` has put the reader
    have htail : Ended others := hended.tail (by rwa [ht])
    rw [advance_cons t htail.ne_nil] at hoperand
    obtain ⟨front, rfl, hfront, hended', hclear'⟩ := h htail hoperand
    obtain ⟨links, rfl, hops, hlinks, rfl, hrest⟩ := ih hended' hclear' hread
    refine ⟨⟨t, front, right⟩ :: links, by simp, ?_, ?_, rfl, hrest⟩
    · simpa [ht] using hops
    · simpa [hfront] using hlinks
  | case3 left t others ht right rest' hoperand hshort => simp at hread
  | case4 left t others ht stop rest' hoperand => simp at hread
  -- the loop ends in front of `t`, which is not its operator and no operator of its operands
  | case5 left t others ht =>
    simp only [Prod.mk.injEq, Except.ok.injEq] at hread
    obtain ⟨rfl, rfl⟩ := hread
    obtain ⟨u, us, hcons, hu⟩ := hclear
    obtain ⟨rfl, rfl⟩ := List.cons.inj hcons
    exact ⟨[], rfl, by simp, by simp, rfl, hended, .cons (by simp [ht, hu]) _⟩

/-- A first operand and the loop behind it read a chain; `D'` is what chains of such operands are. -/
theorem ReadsOnly.andThen_chain {kind : Token.Kind} {join : Filter → Filter → Filter}
    {operand : Rule Filter} {D D' : List Token → Filter → Prop} {kinds : List Token.Kind}
    (h : ReadsOnly operand D kinds) (hkind : kind ≠ .eof)
    (hchains : ∀ {ts f links}, D ts f → (∀ l ∈ links, l.operator.kind = kind) →
      (∀ l ∈ links, D l.tokens l.filter) → D' (ts ++ spelling links) (joinAll join f links)) :
    ReadsOnly (fun ahead => (operand ahead).andThen (Grammar.chain kind join operand)) D'
      (kind :: kinds) := by
  intro ts f rest hended hread
  obtain ⟨first, ahead, hfirst, hchain⟩ := Outcome.andThen_eq_ok hread
  obtain ⟨front, rfl, hfront, hended', hclear⟩ := h hended hfirst
  obtain ⟨links, rfl, hops, hlinks, rfl, hrest⟩ := h.chain hkind first hended' hclear hchain
  exact ⟨front ++ spelling links, by simp, hchains hfront hops hlinks, hrest⟩

/-- **A conjunction is derived** if its negations are. -/
theorem ReadsOnly.conjunctionOf {operand : Rule Filter}
    (h : ReadsOnly operand (Derives .primary) []) :
    ReadsOnly (conjunctionOf operand) (Derives .conjunction) Phrase.conjunction.goesOn :=
  h.negationOf.andThen_chain (by simp) .conjunction

/-- **A disjunction is derived** if its conjunctions are. -/
theorem ReadsOnly.disjunctionOf {operand : Rule Filter}
    (h : ReadsOnly operand (Derives .primary) []) :
    ReadsOnly (disjunctionOf operand) (Derives .disjunction) Phrase.disjunction.goesOn :=
  h.conjunctionOf.andThen_chain (by simp) .disjunction

/-! ### From one level of parentheses to the next -/

/-- **A primary is derived**, by induction on the levels it may open. -/
theorem readsOnly_primaryWithin (levels : Nat) :
    ReadsOnly (primaryWithin levels) (Derives .primary) [] := by
  induction levels with
  | zero =>
    intro ts f rest _ hread
    cases ts <;> simp [primaryWithin] at hread
  | succ levels ih =>
    intro ts f rest hended hread
    cases ts with
    | nil => simp [primaryWithin] at hread
    | cons t ts =>
      rw [primaryWithin] at hread
      split at hread
      · next ht =>
        -- inside the parentheses one level less is left
        have htail : Ended ts := hended.tail (by simp [ht])
        rw [advance_cons t htail.ne_nil] at hread
        obtain ⟨g, ahead, hinner, hclose⟩ := Outcome.andThen_eq_ok hread
        obtain ⟨front, rfl, hfront, hended', -⟩ := ih.disjunctionOf htail hinner
        obtain ⟨u, hu, rfl⟩ := Outcome.map_eq_ok hclose
        -- what is left begins with the closing parenthesis
        cases ahead with
        | nil => simp [require] at hu
        | cons r ahead =>
          by_cases hr : r.kind = .rightParen
          · have hrest : Ended ahead := hended'.tail (by simp [hr])
            rw [require, if_pos hr, advance_cons r hrest.ne_nil] at hu
            simp only [Prod.mk.injEq] at hu
            obtain ⟨-, rfl⟩ := hu
            exact ⟨t :: (front ++ [r]), by simp, .parens ht hfront hr, hrest, hrest.clear_nil⟩
          · rw [require, if_neg hr] at hu
            simp [Outcome.fault] at hu
      · next ht =>
        have htail : Ended ts := hended.tail (by simp [ht])
        rw [advance_cons t htail.ne_nil] at hread
        simp only [Prod.mk.injEq, Except.ok.injEq] at hread
        obtain ⟨rfl, rfl⟩ := hread
        exact ⟨[t], rfl, .identifier ht, htail, htail.clear_nil⟩
      -- no other token begins an operand
      all_goals simp [Outcome.fault] at hread

/-- **The rules read nothing but derivations.** -/
theorem rule_sound (p : Phrase) (levels : Nat) :
    ReadsOnly (p.rule (primaryWithin levels)) (Derives p) p.goesOn := by
  have h := readsOnly_primaryWithin levels
  cases p with
  | disjunction => exact h.disjunctionOf
  | conjunction => exact h.conjunctionOf
  | negation => exact h.negationOf
  | primary => exact h

/-- **When a rule answers, and with what.** In a list that ends with an end mark, a rule answers
with a filter and leaves `rest` if and only if its phrase derives the tokens before `rest` with this
filter, and the first token of `rest` does not go on with the phrase. -/
theorem rule_eq_ok_iff (p : Phrase) {levels : Nat} {ts rest : List Token} {f : Filter}
    (hended : Ended ts) (hlevels : openings ts < levels) :
    p.rule (primaryWithin levels) ts = (.ok f, rest) ↔
      ∃ front, ts = front ++ rest ∧ Derives p front f ∧ Clear p.goesOn rest := by
  constructor
  · intro hread
    obtain ⟨front, hts, hfront, -, hclear⟩ := rule_sound p levels hended hread
    exact ⟨front, hts, hfront, hclear⟩
  · rintro ⟨front, rfl, hfront, hclear⟩
    rw [openings_append] at hlevels
    exact hfront.read (by omega) hclear

end TagFilter.Grammar
