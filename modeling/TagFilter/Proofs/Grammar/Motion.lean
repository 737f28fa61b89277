import TagFilter.Proofs.Grammar.Termination
import TagFilter.Grammar.Steps

/-!
# What a step does to the tokens ahead

A rule may be started at any token of any list, closed or not, and it may stop for any reason. Three
things hold of it all the same (`Moves`):

* the tokens it leaves are a rear part of those it found, so the place of the current token never
  goes back;
* it leaves a token at least, so there always is a current one;
* if it stops, then with a fault at the very token that is current then, or because it would go on
  for ever.

A rule that keeps to this in front of any tokens is `Steady`. The steps the rules are made of are
steady, and what is put together from steady rules is steady again (`Moves.andThen`, `Moves.map`,
`Steady.negationOf`, `Steady.chain`); the levels of parentheses are built up by induction
(`steady_primaryWithin`). `perform_moves` says it of every step that can be asked for.
-/

namespace TagFilter.Grammar

variable {α β : Type} {ahead others : List Token} {t : Token} {o : Outcome α}

/-- The outcome `o` leaves some of the tokens `ahead`, and a fault in it is about the first of
these. -/
structure Moves (ahead : List Token) (o : Outcome α) : Prop where
  suffix : o.2 <:+ ahead
  ne_nil : o.2 ≠ []
  stops : ∀ stop, o.1 = .error stop →
    stop = .endless ∨ ∃ fault, stop = .fault fault ∧ o.2.head? = some fault.token

/-- Wherever there is a current token, the rule moves. -/
def Steady (r : Rule α) : Prop := ∀ ⦃ahead : List Token⦄, ahead ≠ [] → Moves ahead (r ahead)

/-! ### Outcomes -/

theorem Moves.ok (hsuffix : others <:+ ahead) (hne : others ≠ []) (a : α) :
    Moves ahead (.ok a, others) :=
  ⟨hsuffix, hne, by simp⟩

/-- A changed answer is missing for the reason for which the answer is. -/
theorem Outcome.map_eq_error {g : α → β} {stop : Stop} :
    (o.map g).1 = .error stop ↔ o.1 = .error stop := by
  obtain ⟨result, rest⟩ := o
  cases result <;> simp [Outcome.map, Except.map]

/-- Nothing is passed when a fault is found at the current token. -/
theorem Moves.fault (cause : Cause) (t : Token) (others : List Token) :
    Moves (t :: others) (Outcome.fault cause t (t :: others) : Outcome α) := by
  refine ⟨List.suffix_rfl, List.cons_ne_nil t others, fun stop hstop => .inr ?_⟩
  obtain rfl := Except.error.inj hstop
  exact ⟨⟨cause, t⟩, rfl, rfl⟩

theorem Moves.endless (hne : ahead ≠ []) : Moves ahead ((.error .endless, ahead) : Outcome α) :=
  ⟨List.suffix_rfl, hne, fun _ hstop => .inl (Except.error.inj hstop).symm⟩

/-- What was found ahead after a few tokens is found ahead of them too. -/
theorem Moves.behind (h : Moves others o) (hsuffix : others <:+ ahead) : Moves ahead o :=
  ⟨h.suffix.trans hsuffix, h.ne_nil, h.stops⟩

/-- To change the answer moves nothing. -/
theorem Moves.map {g : α → β} (h : Moves ahead o) : Moves ahead (o.map g) :=
  ⟨h.suffix, h.ne_nil, fun stop hstop => h.stops stop (Outcome.map_eq_error.mp hstop)⟩

/-- **One rule after another.** The second one is started only where the first one has left a
token. -/
theorem Moves.andThen {next : α → Rule β} (h : Moves ahead o) (hnext : ∀ a, Steady (next a)) :
    Moves ahead (o.andThen next) := by
  obtain ⟨result, rest⟩ := o
  cases result with
  | ok a => exact (hnext a h.ne_nil).behind h.suffix
  | error stop =>
    exact ⟨h.suffix, h.ne_nil, fun stop' hstop =>
      h.stops stop' (congrArg Except.error (Except.error.inj hstop))⟩

/-! ### Steps -/

theorem steady_peek : Steady peek := by
  intro ahead hne
  obtain ⟨t, others, rfl⟩ := List.exists_cons_of_ne_nil hne
  exact .ok List.suffix_rfl hne t

theorem steady_check (kind : Token.Kind) : Steady (check kind) := by
  intro ahead hne
  obtain ⟨t, others, rfl⟩ := List.exists_cons_of_ne_nil hne
  exact .ok List.suffix_rfl hne _

theorem steady_accept (kind : Token.Kind) : Steady (accept kind) := by
  intro ahead hne
  obtain ⟨t, others, rfl⟩ := List.exists_cons_of_ne_nil hne
  rw [accept]
  split
  · exact .ok (advance_suffix _) (advance_ne_nil hne) true
  · exact .ok List.suffix_rfl hne false

theorem steady_require (kind : Token.Kind) (complaint : String) :
    Steady (require kind complaint) := by
  intro ahead hne
  obtain ⟨t, others, rfl⟩ := List.exists_cons_of_ne_nil hne
  rw [require]
  split
  · exact .ok (advance_suffix _) (advance_ne_nil hne) t
  · exact .fault _ t others

/-! ### Rules -/

section

variable {operand : Rule Filter}

/-- **A run of `NOT`**: each one is passed, or it is the last token. -/
theorem Steady.negationOf (h : Steady operand) : Steady (negationOf operand) := by
  intro ahead hne
  induction ahead with
  | nil => exact absurd rfl hne
  | cons t others ih =>
    by_cases ht : t.kind = .not
    · by_cases hothers : others = []
      · subst hothers
        rw [Grammar.negationOf, if_pos ht]
        exact .endless hne
      · rw [negationOf_not ht hothers]
        exact ((ih hothers).behind (List.suffix_cons t others)).map
    · rw [negationOf_of_ne_not ht]
      exact h hne

/-- **The loop of a chain.** A round starts where the round before it has left a token. -/
theorem Steady.chain (h : Steady operand) (kind : Token.Kind) (join : Filter → Filter → Filter)
    (left : Filter) : Steady (Grammar.chain kind join operand left) := by
  intro ahead hne
  -- what the operand of a round leaves
  have hround {t : Token} {others : List Token} :
      Moves (t :: others) (operand (advance (t :: others))) :=
    (h (advance_ne_nil (List.cons_ne_nil t others))).behind (advance_suffix _)
  fun_induction Grammar.chain kind join operand left ahead with
  | case1 left => exact absurd rfl hne
  | case2 left t others ht right rest hoperand hshort ih =>
    have hmoves := hoperand ▸ hround
    exact (ih hmoves.ne_nil).behind hmoves.suffix
  | case3 left t others ht right rest hoperand hshort =>
    have hmoves := hoperand ▸ hround
    exact (Moves.endless hmoves.ne_nil).behind hmoves.suffix
  | case4 left t others ht stop rest hoperand =>
    have hmoves := hoperand ▸ hround
    exact ⟨hmoves.suffix, hmoves.ne_nil, fun stop' hstop => hmoves.stops stop' hstop⟩
  | case5 left t others ht => exact .ok List.suffix_rfl hne left

theorem Steady.conjunctionOf (h : Steady operand) : Steady (conjunctionOf operand) :=
  fun _ hne => (h.negationOf hne).andThen (h.negationOf.chain .and .and)

theorem Steady.disjunctionOf (h : Steady operand) : Steady (disjunctionOf operand) :=
  fun _ hne => (h.conjunctionOf hne).andThen (h.conjunctionOf.chain .or .or)

end

/-- **A primary is steady**, by induction on the levels it may open. -/
theorem steady_primaryWithin (levels : Nat) : Steady (primaryWithin levels) := by
  induction levels with
  | zero =>
    intro ahead hne
    obtain ⟨t, others, rfl⟩ := List.exists_cons_of_ne_nil hne
    exact .endless hne
  | succ levels ih =>
    intro ahead hne
    obtain ⟨t, others, rfl⟩ := List.exists_cons_of_ne_nil hne
    rw [primaryWithin]
    split
    · -- what stands in parentheses, and the closing one
      have hinside := ih.disjunctionOf (advance_ne_nil hne)
      refine Moves.andThen (hinside.behind (advance_suffix _)) fun f rest hrest => ?_
      exact (steady_require .rightParen unclosed hrest).map
    · exact .ok (advance_suffix _) (advance_ne_nil hne) _
    -- no other token begins an operand
    all_goals exact .fault _ t others

theorem Phrase.steady_rule (p : Phrase) (levels : Nat) :
    Steady (p.rule (primaryWithin levels)) := by
  have h := steady_primaryWithin levels
  cases p with
  | disjunction => exact h.disjunctionOf
  | conjunction => exact h.conjunctionOf
  | negation => exact h.negationOf
  | primary => exact h

theorem Phrase.steady_read (p : Phrase) : Steady p.read := by
  intro ahead hne
  rw [p.read_eq]
  exact p.steady_rule _ hne

theorem steady_sentence : Steady sentence := by
  intro ahead hne
  obtain ⟨t, others, rfl⟩ := List.exists_cons_of_ne_nil hne
  rw [sentence]
  split
  · exact .fault _ t others
  · refine (Phrase.disjunction.steady_read hne).andThen fun f rest hrest => ?_
    -- what is left has to be the end mark
    obtain ⟨u, more, rfl⟩ := List.exists_cons_of_ne_nil hrest
    dsimp only
    split
    · exact .ok List.suffix_rfl hrest f
    · exact .fault _ u more

/-- **Every step moves**, wherever it is taken. -/
theorem perform_moves (s : Step) (hne : ahead ≠ []) : Moves ahead (perform ahead s) := by
  cases s with
  | sentence => exact (steady_sentence hne).map
  | disjunction => exact (Phrase.disjunction.steady_read hne).map
  | conjunction => exact (Phrase.conjunction.steady_read hne).map
  | negation => exact (Phrase.negation.steady_read hne).map
  | primary => exact (Phrase.primary.steady_read hne).map
  | peek => exact (steady_peek hne).map
  | advance => exact .ok (advance_suffix ahead) (advance_ne_nil hne) Answer.passed
  | check kind => exact (steady_check kind hne).map
  | accept kind => exact (steady_accept kind hne).map
  | require kind complaint => exact (steady_require kind complaint hne).map

end TagFilter.Grammar
