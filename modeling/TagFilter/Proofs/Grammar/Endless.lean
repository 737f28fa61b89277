import TagFilter.Proofs.Grammar.Motion

/-!
# Rules that would go on for ever

A rule started at an odd place may have no end: the last token is never passed, and it may be one
that wants more behind it. The rules notice this and answer `Stop.endless`. Here it is shown that
they do so exactly then: a rule answers anything else if and only if its recursion, which is
followed by `Returns` with no bound on it, comes to an end, and then it answers what the recursion
comes to (`Phrase.returns_iff`).

* `Returns.rule_eq` — what a call comes to is what its rule answers, by induction on the calls. The
  levels of the rule are enough, since a parenthesis that opens one is passed; where it is not, the
  calls go round in a circle (`Call.Circles.not_returns`);
* `Returns.ends` — no call comes to `Stop.endless`;
* `Honest` — a rule that does not answer `Stop.endless` has followed calls that come to an end. This
  is carried from operands to negations and chains, and by induction from one level of parentheses
  to the next (`honest_primaryWithin`).
-/

namespace TagFilter.Grammar

variable {call : Call} {c : Chain} {ahead rest others : List Token} {o : Outcome Filter} {t : Token}
  {f left : Filter} {depth levels : Nat}

/-- The rule that is called. -/
def Call.rule (levels : Nat) : Call → Rule Filter
  | primary => primaryWithin levels
  | negation => negationOf (primaryWithin levels)
  | chain c => c.phrase.rule (primaryWithin levels)
  | loop c left => Grammar.chain c.kind c.join (c.operand.rule (primaryWithin levels)) left

theorem Phrase.call_rule (p : Phrase) (levels : Nat) :
    p.call.rule levels = p.rule (primaryWithin levels) := by
  cases p <;> rfl

theorem Call.steady_rule (call : Call) (levels : Nat) : Steady (call.rule levels) := by
  cases call with
  | primary => exact steady_primaryWithin levels
  | negation => exact (steady_primaryWithin levels).negationOf
  | chain c => exact c.phrase.steady_rule levels
  | loop c left => exact (c.operand.steady_rule levels).chain c.kind c.join left

/-! ### What a call comes to is what the rule answers -/

/-- Where a call returns there is a current token. -/
theorem Returns.ne_nil (h : Returns call ahead o depth) : ahead ≠ [] := by
  induction h with
  | chain _ _ ih _ | chainStops _ ih => exact ih
  | _ => exact List.cons_ne_nil _ _

/-- A `NOT` or an opening parenthesis behind which a call returns is passed. -/
theorem Returns.advance_eq (h : Returns call (advance (t :: others)) o depth)
    (ht : t.kind = .not ∨ t.kind = .leftParen) (hcall : call.Circles t) :
    advance (t :: others) = others ∧ others ≠ [] := by
  have hne : others ≠ [] := by
    rintro rfl
    exact hcall.not_returns ht h
  exact ⟨advance_cons t hne, hne⟩

/-- **A round is not repeated for ever** if it finds an operand: its operator has been passed then,
so that the loop goes on in front of fewer tokens. -/
theorem Call.loop_round {right : Filter} (hlevels : 0 < levels) (ht : t.kind = c.kind)
    (hoperand : c.operand.rule (primaryWithin levels) (advance (t :: others)) = (.ok right, rest)) :
    (Call.loop c left).rule levels (t :: others) =
      (Call.loop c (c.join left right)).rule levels rest := by
  have hadvance := advance_of_operand hlevels ht hoperand
  have hmoves := c.operand.steady_rule levels (advance_ne_nil (List.cons_ne_nil t others))
  have hshort : rest.length < others.length + 1 := by
    rw [hoperand, hadvance] at hmoves
    exact Nat.lt_succ_of_le hmoves.suffix.length_le
  rw [Call.rule, Grammar.chain, if_pos ht, hoperand]
  exact if_pos hshort

/-- **What a call comes to is what the rule answers**, if it has a level for every parenthesis. -/
theorem Returns.rule_eq (h : Returns call ahead o depth) (hlevels : openings ahead < levels) :
    call.rule levels ahead = o := by
  induction h generalizing levels with
  | identifier ht =>
    obtain ⟨n, rfl⟩ : ∃ n, levels = n + 1 := ⟨levels - 1, by omega⟩
    simp [Call.rule, primaryWithin, ht]
  | @parens t others o depth ht inner ih =>
    obtain ⟨n, rfl⟩ : ∃ n, levels = n + 1 := ⟨levels - 1, by omega⟩
    -- the parenthesis has been passed, and it takes one level
    obtain ⟨hadvance, -⟩ := inner.advance_eq (.inr ht) trivial
    rw [openings_cons, if_pos ht] at hlevels
    have hinner : (Call.chain .or).rule n (advance (t :: others)) = o :=
      ih (by rw [hadvance]; omega)
    rw [← hinner]
    simp [Call.rule, primaryWithin, ht, closing, Chain.phrase, Phrase.rule]
  | @noOperand t others hword hparen =>
    obtain ⟨n, rfl⟩ : ∃ n, levels = n + 1 := ⟨levels - 1, by omega⟩
    rw [Call.rule, primaryWithin]
    split <;> first | contradiction | rfl
  | @not t others o depth ht inner ih =>
    obtain ⟨hadvance, hne⟩ := inner.advance_eq (.inl ht) trivial
    have hle := openings_le_of_suffix (List.suffix_cons t others)
    rw [hadvance] at ih
    rw [Call.rule, negationOf_not ht hne, ← ih (Nat.lt_of_le_of_lt hle hlevels)]
    rfl
  | operand ht _ ih =>
    rw [Call.rule, negationOf_of_ne_not ht]
    exact ih hlevels
  | @chain c ahead rest f o depth depth' first loop ihfirst ihloop =>
    have hfirst := ihfirst hlevels
    -- the loop starts with what the operand leaves, and needs no more levels than there were
    have hmoves := hfirst ▸ c.operand.call.steady_rule levels first.ne_nil
    have hle : openings rest ≤ openings ahead := openings_le_of_suffix hmoves.suffix
    rw [Phrase.call_rule] at hfirst
    rw [Call.rule, c.rule_eq, hfirst]
    exact ihloop (Nat.lt_of_le_of_lt hle hlevels)
  | @chainStops c ahead rest stop depth first ih =>
    have hfirst := ih hlevels
    rw [Phrase.call_rule] at hfirst
    rw [Call.rule, c.rule_eq, hfirst]
    rfl
  | @round c left right t others rest o depth depth' ht operand loop ihoperand ihloop =>
    have hoperand := ihoperand (Nat.lt_of_le_of_lt (openings_advance_le _) hlevels)
    have hmoves := hoperand ▸ c.operand.call.steady_rule levels operand.ne_nil
    have hle : openings rest ≤ openings (t :: others) :=
      Nat.le_trans (openings_le_of_suffix hmoves.suffix) (openings_advance_le _)
    rw [Phrase.call_rule] at hoperand
    rw [Call.loop_round (Nat.zero_lt_of_lt hlevels) ht hoperand]
    exact ihloop (Nat.lt_of_le_of_lt hle hlevels)
  | @roundStops c left t others rest stop depth ht operand ih =>
    have hoperand := ih (Nat.lt_of_le_of_lt (openings_advance_le _) hlevels)
    rw [Phrase.call_rule] at hoperand
    rw [Call.rule, Grammar.chain, if_pos ht, hoperand]
  | leaves ht => rw [Call.rule, Grammar.chain, if_neg ht]

/-- To demand a token is no recursion. -/
theorem require_ends (kind : Token.Kind) (complaint : String) (ahead : List Token) :
    (require kind complaint ahead).1 ≠ .error .endless := by
  unfold require
  split
  · simp
  · split <;> simp [Outcome.fault]

/-- Nor is to close what stands in parentheses. -/
theorem closing_eq_endless : (closing o).1 = .error .endless ↔ o.1 = .error .endless := by
  obtain ⟨result, rest⟩ := o
  cases result with
  | error stop => simp [closing, Outcome.andThen]
  | ok f =>
    rw [closing, Outcome.andThen, Outcome.map_eq_error]
    exact iff_of_false (require_ends .rightParen unclosed rest) (by simp)

/-- **No call comes to the answer that it would go on for ever.** -/
theorem Returns.ends (h : Returns call ahead o depth) : o.1 ≠ .error .endless := by
  induction h with
  | identifier _ | noOperand _ _ | leaves _ => simp [Outcome.fault]
  | parens _ _ ih => rwa [Ne, closing_eq_endless]
  | not _ _ ih => rwa [Ne, Outcome.map_eq_error]
  | operand _ _ ih | chain _ _ _ ih | chainStops _ ih | round _ _ _ _ ih | roundStops _ _ ih =>
    exact ih

/-! ### A rule that comes to an end has followed calls -/

/-- In front of any tokens, the rule follows calls, unless it says that it would go on for ever. -/
def Honest (r : Rule Filter) (call : Call) : Prop :=
  ∀ ⦃ahead : List Token⦄, ahead ≠ [] → (r ahead).1 ≠ .error .endless →
    ∃ depth, Returns call ahead (r ahead) depth

section

variable {operand : Rule Filter}

/-- **A run of `NOT`** calls itself behind each of them. -/
theorem Honest.negationOf (h : Honest operand .primary) :
    Honest (negationOf operand) .negation := by
  intro ahead hne hends
  induction ahead with
  | nil => exact absurd rfl hne
  | cons t others ih =>
    by_cases ht : t.kind = .not
    · have hothers : others ≠ [] := by
        rintro rfl
        exact hends (by simp [Grammar.negationOf, ht])
      rw [negationOf_not ht hothers] at hends ⊢
      obtain ⟨depth, hreturns⟩ := ih hothers (by rwa [Ne, Outcome.map_eq_error] at hends)
      exact ⟨depth, .not ht (by rwa [advance_cons t hothers])⟩
    · rw [negationOf_of_ne_not ht] at hends ⊢
      obtain ⟨depth, hreturns⟩ := h hne hends
      exact ⟨depth, .operand ht hreturns⟩

/-- **The loop of a chain** calls its operand in every round. -/
theorem Honest.loop (h : Honest operand c.operand.call) (hsteady : Steady operand) (left : Filter) :
    Honest (Grammar.chain c.kind c.join operand left) (.loop c left) := by
  intro ahead hne hends
  have hround (t : Token) (others : List Token) : advance (t :: others) ≠ [] :=
    advance_ne_nil (List.cons_ne_nil t others)
  fun_induction Grammar.chain c.kind c.join operand left ahead with
  | case1 left => exact absurd rfl hne
  | case2 left t others ht right rest hoperand hshort ih =>
    have hmoves := hoperand ▸ hsteady (hround t others)
    obtain ⟨depth, hfirst⟩ := h (hround t others) (by simp [hoperand])
    obtain ⟨depth', hloop⟩ := ih hmoves.ne_nil hends
    rw [hoperand] at hfirst
    exact ⟨_, .round ht hfirst hloop⟩
  | case3 left t others ht right rest hoperand hshort => exact absurd rfl hends
  | case4 left t others ht stop rest hoperand =>
    obtain ⟨depth, hfirst⟩ := h (hround t others) (by simpa [hoperand] using hends)
    rw [hoperand] at hfirst
    exact ⟨depth, .roundStops ht hfirst⟩
  | case5 left t others ht => exact ⟨0, .leaves ht⟩

/-- **A chain** calls its first operand and then the loop. -/
theorem Honest.chain (h : Honest (c.operand.rule operand) c.operand.call)
    (hsteady : Steady (c.operand.rule operand)) : Honest (c.phrase.rule operand) (.chain c) := by
  intro ahead hne hends
  rw [c.rule_eq] at hends ⊢
  have hrest := (hsteady hne).ne_nil
  have hfirst := h hne
  -- only the outcome of the first operand matters from here on
  generalize c.operand.rule operand ahead = first at hends hrest hfirst ⊢
  obtain ⟨result, rest⟩ := first
  cases result with
  | ok f =>
    obtain ⟨depth, hreturns⟩ := hfirst (by simp)
    obtain ⟨depth', hloop⟩ := h.loop hsteady f hrest hends
    exact ⟨_, .chain hreturns hloop⟩
  | error stop =>
    obtain ⟨depth, hreturns⟩ := hfirst hends
    exact ⟨depth, .chainStops hreturns⟩

/-- All rules are honest if the one for operands is. -/
theorem Honest.rule (h : Honest operand .primary) (hsteady : Steady operand) (p : Phrase) :
    Honest (p.rule operand) p.call := by
  have hconjunction : Honest (Phrase.conjunction.rule operand) (.chain .and) :=
    Honest.chain (c := .and) h.negationOf hsteady.negationOf
  cases p with
  | primary => exact h
  | negation => exact h.negationOf
  | conjunction => exact hconjunction
  | disjunction => exact Honest.chain (c := .or) hconjunction hsteady.conjunctionOf

end

/-- **A primary is honest**, by induction on the levels it may open. Where none is left it says that
it would go on for ever, so nothing has to be known about their number. -/
theorem honest_primaryWithin (levels : Nat) : Honest (primaryWithin levels) .primary := by
  induction levels with
  | zero =>
    intro ahead hne hends
    obtain ⟨t, others, rfl⟩ := List.exists_cons_of_ne_nil hne
    exact absurd rfl hends
  | succ levels ih =>
    intro ahead hne hends
    obtain ⟨t, others, rfl⟩ := List.exists_cons_of_ne_nil hne
    rw [primaryWithin] at hends ⊢
    split at hends
    · next ht =>
      -- what is asked for inside is the disjunction, with one level less
      have hinside := ih.rule (steady_primaryWithin levels) .disjunction (advance_ne_nil hne)
      obtain ⟨depth, hreturns⟩ := hinside (by rwa [Ne, ← closing_eq_endless])
      exact ⟨depth + 1, .parens ht hreturns⟩
    · next ht => exact ⟨1, .identifier ht⟩
    -- no other token begins an operand
    all_goals
      next ht => exact ⟨1, .noOperand (by simp [ht]) (by simp [ht])⟩

/-- **A rule comes to what its recursion comes to**, as long as that has an end; otherwise it says
that it would go on for ever. -/
theorem Phrase.returns_iff (p : Phrase) (hne : ahead ≠ []) :
    (∃ depth, Returns p.call ahead o depth) ↔ p.read ahead = o ∧ o.1 ≠ .error .endless := by
  constructor
  · rintro ⟨depth, hreturns⟩
    refine ⟨?_, hreturns.ends⟩
    rw [p.read_eq, ← p.call_rule]
    exact hreturns.rule_eq (Nat.lt_succ_self _)
  · rintro ⟨rfl, hends⟩
    rw [p.read_eq] at hends ⊢
    exact (honest_primaryWithin _).rule (steady_primaryWithin _) p hne hends

end TagFilter.Grammar
