import TagFilter.Proofs.Grammar.Calls
import TagFilter.Proofs.Grammar.OneScan

/-!
# The rules come to an end

Whatever tokens are ahead, a rule returns with a filter or with a fault, if only the last token is
one that it can stand at: neither a `NOT` nor an opening parenthesis (`Phrase.read_settled`). The
recursion goes no deeper than one level for every opening parenthesis and one more. So a list of
tokens is read as a filter or refused with a fault, unless it is not closed
(`Filter.ofTokens_outcome`).

What makes the rules come to an end is that some token is passed between a call and the next one of
the same sort.

* An opening parenthesis is never the last token, so it has been passed when the rules begin anew
  inside it, and there is one less ahead.
* The same holds of a `NOT`.
* An operator of a chain may be the last token, and is then not passed. But no operand begins with
  an operator (`rule_of_operator`), so the round ends with a fault; every other round has passed its
  operator.

* `Passable` — what is asked of the tokens;
* `Settled` — what is said of a call;
* `Settled.passed`, `Settled.followed` — how it is carried from a call to the one that makes it;
* `Settles.negation`, `Settles.loop`, `Settles.chain`, `settles_primary` — the rules, one by one.
-/

namespace TagFilter

namespace Grammar

/-- There is a last token, and it is one that the rules can stand at without passing it. -/
def Passable (ts : List Token) : Prop :=
  ∃ last, ts.getLast? = some last ∧ last.kind ≠ .not ∧ last.kind ≠ .leftParen

/-- The call returns with a filter or with a fault, and it leaves some of the tokens ahead. The
recursion goes no deeper than the opening parentheses allow. -/
structure Settled (call : Call) (ahead : List Token) (o : Outcome Filter) : Prop where
  returns : ∃ depth ≤ openings ahead + 1, Returns call ahead o depth
  decided : (∃ f, o.1 = .ok f) ∨ ∃ fault, o.1 = .error (.fault fault)
  suffix : o.2 <:+ ahead
  passable : Passable o.2

variable {t : Token} {ts others ahead : List Token} {levels : Nat}

/-! ### Tokens that can be passed -/

theorem Passable.ne_nil (h : Passable ts) : ts ≠ [] := by
  obtain ⟨last, hlast, -⟩ := h
  rintro rfl
  simp at hlast

/-- What is left of the tokens ends with the same token. -/
theorem Passable.of_suffix (h : Passable ts) (hsuffix : others <:+ ts) (hne : others ≠ []) :
    Passable others := by
  obtain ⟨last, hlast, hkind⟩ := h
  obtain ⟨front, rfl⟩ := hsuffix
  rw [List.getLast?_append_of_ne_nil _ hne] at hlast
  exact ⟨last, hlast, hkind⟩

/-- **A `NOT` and an opening parenthesis are passed**, since more tokens follow. -/
theorem Passable.tail (h : Passable (t :: others)) (ht : t.kind = .not ∨ t.kind = .leftParen) :
    advance (t :: others) = others ∧ Passable others := by
  have hne : others ≠ [] := by
    rintro rfl
    obtain ⟨last, hlast, hnot, hparen⟩ := h
    obtain rfl : t = last := by simpa using hlast
    exact ht.elim hnot hparen
  exact ⟨advance_cons t hne, h.of_suffix (List.suffix_cons t others) hne⟩

/-- Whether or not the current token is passed, some of the tokens are left, and none is new. -/
theorem advance_suffix (ts : List Token) : advance ts <:+ ts := by
  rcases ts with _ | ⟨t, _ | ⟨u, others⟩⟩
  · exact List.suffix_rfl
  · exact List.suffix_rfl
  · exact List.suffix_cons t _

theorem advance_ne_nil (h : ts ≠ []) : advance ts ≠ [] := by
  rcases ts with _ | ⟨t, _ | ⟨u, others⟩⟩
  · exact absurd rfl h
  · exact List.cons_ne_nil t []
  · exact List.cons_ne_nil u others

theorem Passable.advance (h : Passable ts) : Passable (advance ts) :=
  h.of_suffix (advance_suffix ts) (advance_ne_nil h.ne_nil)

theorem openings_le_of_suffix (h : others <:+ ts) : openings others ≤ openings ts :=
  h.sublist.countP_le

theorem openings_advance_le (ts : List Token) : openings (advance ts) ≤ openings ts :=
  openings_le_of_suffix (advance_suffix ts)

/-! ### From one call to the next -/

/-- No operand begins with an operator of a chain, and so no rule answers in front of one. -/
theorem rule_of_operator (p : Phrase) (ht : t.kind = .and ∨ t.kind = .or) :
    p.rule (primaryWithin (levels + 1)) (t :: others) = .fault .operand t (t :: others) := by
  have hprimary : primaryWithin (levels + 1) (t :: others) = .fault .operand t (t :: others) := by
    rcases ht with ht | ht <;> simp [primaryWithin, ht]
  have hnegation : negationOf (primaryWithin (levels + 1)) (t :: others) =
      .fault .operand t (t :: others) := by
    rw [negationOf_of_ne_not (by rcases ht with ht | ht <;> simp [ht]), hprimary]
  cases p with
  | primary => exact hprimary
  | negation => exact hnegation
  | conjunction => simp only [Phrase.rule, conjunctionOf, hnegation]; rfl
  | disjunction => simp only [Phrase.rule, disjunctionOf, conjunctionOf, hnegation]; rfl

/-- In front of tokens that the rules can stand at, the rule settles the call. -/
def Settles (r : Rule Filter) (call : Call) (levels : Nat) : Prop :=
  ∀ ⦃ahead : List Token⦄, Passable ahead → openings ahead < levels → Settled call ahead (r ahead)

section

variable {c : Chain} {call : Call} {o : Outcome Filter}

/-- A call that only makes another one, maybe after passing tokens, is settled with it. -/
theorem Settled.passed {call' : Call} (h : Settled call others o) (hsuffix : others <:+ ahead)
    (hcall : ∀ {depth}, Returns call others o depth → Returns call' ahead o depth) :
    Settled call' ahead o := by
  obtain ⟨⟨depth, hdepth, hreturns⟩, hdecided, hrest, hpassable⟩ := h
  have hle := openings_le_of_suffix hsuffix
  exact ⟨⟨depth, by omega, hcall hreturns⟩, hdecided, hrest.trans hsuffix, hpassable⟩

/-- A change of the answer changes nothing about the way a call goes. -/
theorem Settled.mapped {call' : Call} {g : Filter → Filter} (h : Settled call others o)
    (hsuffix : others <:+ ahead)
    (hcall : ∀ {depth}, Returns call others o depth → Returns call' ahead (o.map g) depth) :
    Settled call' ahead (o.map g) := by
  obtain ⟨⟨depth, hdepth, hreturns⟩, hdecided, hrest, hpassable⟩ := h
  have hle := openings_le_of_suffix hsuffix
  refine ⟨⟨depth, by omega, hcall hreturns⟩, ?_, hrest.trans hsuffix, hpassable⟩
  obtain ⟨result, rest⟩ := o
  rcases hdecided with ⟨f, rfl⟩ | ⟨fault, rfl⟩
  · exact .inl ⟨g f, rfl⟩
  · exact .inr ⟨fault, rfl⟩

/-- A call that makes two others, the second one in front of what the first one leaves, is settled
with them. The deeper one of the two tells how deep the recursion goes. -/
theorem Settled.followed {call' call'' : Call} {f : Filter} {rest : List Token}
    (h : Settled call others (.ok f, rest)) (h' : Settled call' rest o) (hsuffix : others <:+ ahead)
    (hcall : ∀ {depth depth'}, Returns call others (.ok f, rest) depth →
      Returns call' rest o depth' → Returns call'' ahead o (max depth depth')) :
    Settled call'' ahead o := by
  obtain ⟨⟨depth, hdepth, hreturns⟩, -, hrest, -⟩ := h
  obtain ⟨⟨depth', hdepth', hreturns'⟩, hdecided, hrest', hpassable⟩ := h'
  have hle := openings_le_of_suffix hsuffix
  have hle' : openings rest ≤ openings others := openings_le_of_suffix hrest
  exact ⟨⟨max depth depth', by omega, hcall hreturns hreturns'⟩, hdecided,
    hrest'.trans (hrest.trans hsuffix), hpassable⟩

/-- **A run of `NOT` comes to an end**: every one of them is passed. -/
theorem Settles.negation {operand : Rule Filter} (h : Settles operand .primary levels) :
    Settles (negationOf operand) .negation levels := by
  intro ahead hpass hlevels
  induction ahead with
  | nil => exact absurd rfl hpass.ne_nil
  | cons t others ih =>
    by_cases ht : t.kind = .not
    · obtain ⟨hadvance, hothers⟩ := hpass.tail (.inl ht)
      have hle := openings_le_of_suffix (List.suffix_cons t others)
      rw [negationOf_not ht hothers.ne_nil]
      refine (ih hothers (by omega)).mapped (List.suffix_cons t others) fun hinner => ?_
      exact .not ht (by rwa [hadvance])
    · rw [negationOf_of_ne_not ht]
      exact (h hpass hlevels).passed List.suffix_rfl (.operand ht)

/-- A chain is read as its first operand and the loop. -/
theorem Chain.rule_eq (c : Chain) (operand : Rule Filter) (ahead : List Token) :
    c.phrase.rule operand ahead = (c.operand.rule operand ahead).andThen
      (Grammar.chain c.kind c.join (c.operand.rule operand)) := by
  cases c <;> rfl

/-- An operand that is found behind an operator is not found at the operator. -/
theorem advance_of_operand {right : Filter} {rest : List Token} (hlevels : 0 < levels)
    (ht : t.kind = c.kind)
    (h : c.operand.rule (primaryWithin levels) (advance (t :: others)) = (.ok right, rest)) :
    advance (t :: others) = others := by
  refine advance_cons t ?_
  rintro rfl
  -- the operator would be the last token, and the operand would begin with it
  obtain ⟨n, rfl⟩ : ∃ n, levels = n + 1 := ⟨levels - 1, by omega⟩
  have hkind : t.kind = .and ∨ t.kind = .or := by
    rw [ht]
    cases c <;> simp [Chain.kind]
  rw [advance, rule_of_operator c.operand hkind] at h
  cases h

/-- **The loop of a chain comes to an end.** A round that finds an operand has passed an operator,
since no operand begins with one. -/
theorem Settles.loop (h : Settles (c.operand.rule (primaryWithin levels)) c.operand.call levels)
    (left : Filter) (hpass : Passable ahead) (hlevels : openings ahead < levels) :
    Settled (.loop c left) ahead
      (Grammar.chain c.kind c.join (c.operand.rule (primaryWithin levels)) left ahead) := by
  -- the operand of a round is read behind the operator, or in front of it if it is the last token
  have hround {t : Token} {others : List Token} (hpass : Passable (t :: others))
      (hlevels : openings (t :: others) < levels) :
      Settled c.operand.call (Grammar.advance (t :: others))
        (c.operand.rule (primaryWithin levels) (Grammar.advance (t :: others))) :=
    h hpass.advance (Nat.lt_of_le_of_lt (openings_advance_le _) hlevels)
  fun_induction Grammar.chain c.kind c.join (c.operand.rule (primaryWithin levels)) left ahead with
  | case1 left => exact absurd rfl hpass.ne_nil
  | case2 left t others ht right rest hoperand hshort ih =>
    have hfirst := hround hpass hlevels
    rw [hoperand] at hfirst
    -- the loop goes on with what the operand leaves
    have hle : openings rest ≤ openings (t :: others) :=
      openings_le_of_suffix (hfirst.suffix.trans (advance_suffix _))
    exact hfirst.followed (ih hfirst.passable (by omega)) (advance_suffix _) (.round ht)
  | case3 left t others ht right rest hoperand hshort =>
    have hfirst := hround hpass hlevels
    rw [hoperand, advance_of_operand (by omega) ht hoperand] at hfirst
    have hlength : rest.length ≤ others.length := hfirst.suffix.length_le
    omega
  | case4 left t others ht stop rest hoperand =>
    have hfirst := hround hpass hlevels
    rw [hoperand] at hfirst
    exact hfirst.passed (advance_suffix _) (.roundStops ht)
  | case5 left t others ht =>
    exact ⟨⟨0, Nat.zero_le _, .leaves ht⟩, .inl ⟨left, rfl⟩, List.suffix_rfl, hpass⟩

/-- **A chain comes to an end** if its operands do. -/
theorem Settles.chain (h : Settles (c.operand.rule (primaryWithin levels)) c.operand.call levels) :
    Settles (c.phrase.rule (primaryWithin levels)) (.chain c) levels := by
  intro ahead hpass hlevels
  have hfirst := h hpass hlevels
  rw [c.rule_eq]
  generalize c.operand.rule (primaryWithin levels) ahead = first at *
  obtain ⟨result, rest⟩ := first
  cases result with
  | ok f =>
    have hle : openings rest ≤ openings ahead := openings_le_of_suffix hfirst.suffix
    exact hfirst.followed (h.loop f hfirst.passable (by omega)) List.suffix_rfl .chain
  | error stop => exact hfirst.passed List.suffix_rfl .chainStops

/-- What stands behind an opening parenthesis is closed, or there is the complaint that it is not.
The parenthesis counts as one level. -/
theorem Settled.closing (h : Settled (.chain .or) others o) (ht : t.kind = .leftParen)
    (hadvance : advance (t :: others) = others) : Settled .primary (t :: others) (closing o) := by
  obtain ⟨⟨depth, hdepth, hreturns⟩, hdecided, hrest, hpassable⟩ := h
  have hbehind := hrest.trans (List.suffix_cons t others)
  have hdeeper : ∃ depth ≤ openings (t :: others) + 1,
      Returns .primary (t :: others) (Grammar.closing o) depth := by
    refine ⟨depth + 1, ?_, .parens ht (by rwa [hadvance])⟩
    rw [openings_cons, if_pos ht]
    omega
  obtain ⟨result, rest⟩ := o
  rcases hdecided with ⟨f, rfl⟩ | ⟨fault, rfl⟩
  · obtain ⟨u, rest, rfl⟩ := List.exists_cons_of_ne_nil hpassable.ne_nil
    by_cases hu : u.kind = .rightParen
    · have hclosed : Grammar.closing (.ok f, u :: rest) = (.ok f, advance (u :: rest)) := by
        simp [Grammar.closing, Outcome.andThen, require, hu, Outcome.map, Except.map]
      rw [hclosed] at hdeeper ⊢
      exact ⟨hdeeper, .inl ⟨f, rfl⟩, (advance_suffix _).trans hbehind, hpassable.advance⟩
    · have hopen : Grammar.closing (.ok f, u :: rest) =
          .fault (.wanted .rightParen unclosed) u (u :: rest) := by
        simp [Grammar.closing, Outcome.andThen, require, hu, Outcome.fault, Outcome.map, Except.map]
      rw [hopen] at hdeeper ⊢
      exact ⟨hdeeper, .inr ⟨_, rfl⟩, hbehind, hpassable⟩
  · exact ⟨hdeeper, .inr ⟨fault, rfl⟩, hbehind, hpassable⟩

/-- All rules come to an end if that for operands does. -/
theorem Settles.rule (h : Settles (primaryWithin levels) .primary levels) (p : Phrase) :
    Settles (p.rule (primaryWithin levels)) p.call levels := by
  have hconjunction : Settles (Phrase.conjunction.rule (primaryWithin levels)) (.chain .and)
      levels := Settles.chain (c := .and) h.negation
  cases p with
  | primary => exact h
  | negation => exact h.negation
  | conjunction => exact hconjunction
  | disjunction => exact Settles.chain (c := .or) hconjunction

/-- **A primary comes to an end**, by induction on the levels it may open. The parenthesis that
opens one has been passed, so that there is one less ahead. -/
theorem settles_primary (levels : Nat) : Settles (primaryWithin levels) .primary levels := by
  induction levels with
  | zero =>
    intro ahead _ hlevels
    exact absurd hlevels (Nat.not_lt_zero _)
  | succ levels ih =>
    intro ahead hpass hlevels
    obtain ⟨t, others, rfl⟩ := List.exists_cons_of_ne_nil hpass.ne_nil
    rw [primaryWithin]
    split
    · next ht =>
      obtain ⟨hadvance, hothers⟩ := hpass.tail (.inr ht)
      rw [openings_cons, if_pos ht] at hlevels
      rw [hadvance]
      exact (ih.rule .disjunction hothers (by omega)).closing ht hadvance
    · next ht =>
      have hone : 1 ≤ openings (t :: others) + 1 := Nat.le_add_left _ _
      exact ⟨⟨1, hone, .identifier ht⟩, .inl ⟨_, rfl⟩, advance_suffix _, hpass.advance⟩
    -- no other token begins an operand
    all_goals
      next ht =>
      have hone : 1 ≤ openings (t :: others) + 1 := Nat.le_add_left _ _
      exact ⟨⟨1, hone, .noOperand (by simp [ht]) (by simp [ht])⟩, .inr ⟨_, rfl⟩,
        List.suffix_rfl, hpass⟩

end

/-! ### The rules -/

/-- The rule for a phrase. -/
def Phrase.read : Phrase → Rule Filter
  | disjunction => Grammar.disjunction
  | conjunction => Grammar.conjunction
  | negation => Grammar.negation
  | primary => Grammar.primary

/-- A rule has as many levels as the tokens ahead can ask for. -/
theorem Phrase.read_eq (p : Phrase) (ahead : List Token) :
    p.read ahead = p.rule (primaryWithin (Grammar.levels ahead)) ahead := by
  cases p <;> rfl

/-- **Every rule comes to an end**, in front of all tokens the last of which it can stand at. -/
theorem Phrase.read_settled (p : Phrase) (hpass : Passable ahead) :
    Settled p.call ahead (p.read ahead) := by
  rw [p.read_eq]
  exact (settles_primary _).rule p hpass (Nat.lt_succ_self _)

end Grammar

namespace Filter

open Grammar

variable {ts : List Token}

theorem Closed.passable (h : Closed ts) : Passable ts := by
  obtain ⟨body, last, rfl, -, hlast⟩ := h
  exact ⟨last, by simp, by simp [hlast], by simp [hlast]⟩

/-- **Every list of tokens has one of three outcomes**, and the rules come to an end on the way
there. A list that is not closed is refused for that, and only such a list is. Every other one is
read as a filter, or it is refused with a fault. Started at any token of any list, closed or not,
whose last token it can stand at, a rule returns with a filter or a fault; its recursion goes one
way, and no deeper than one level and one for every opening parenthesis still ahead. -/
theorem ofTokens_outcome (ts : List Token) :
    ((ofTokens ts = .error .unfinished ∨ ofTokens ts = .error .endInside) ↔
        ts = [] ∨ (∃ last, ts.getLast? = some last ∧ last.kind ≠ .eof) ∨
          ∃ i t, i + 1 < ts.length ∧ ts[i]? = some t ∧ t.kind = .eof) ∧
      (ofTokens ts = .error .unfinished ∨ ofTokens ts = .error .endInside ∨
        (∃ f, ofTokens ts = .ok f) ∨ ∃ fault, ofTokens ts = .error (.stopped (.fault fault))) ∧
      (Passable ts → ∀ i < ts.length, ∀ p : Phrase,
        ((∃ f, (p.read (ts.drop i)).1 = .ok f) ∨
          ∃ fault, (p.read (ts.drop i)).1 = .error (.fault fault)) ∧
        (∃ depth, Returns p.call (ts.drop i) (p.read (ts.drop i)) depth) ∧
        ∀ o depth, Returns p.call (ts.drop i) o depth →
          o = p.read (ts.drop i) ∧ depth ≤ 1 + (ts.drop i).countP (·.kind = .leftParen)) := by
  refine ⟨?_, ?_, fun hpass i hi p => ?_⟩
  · rw [← not_closed_iff]
    refine ⟨fun h hclosed => ?_, ofTokens_of_not_closed⟩
    obtain ⟨body, last, rfl, hbody, hlast⟩ := hclosed
    rcases ofTokens_decided hbody hlast with ⟨f, hf, -⟩ | ⟨fault, hfault, -⟩
    · simp [hf] at h
    · simp [hfault] at h
  · by_cases hclosed : Closed ts
    · obtain ⟨body, last, rfl, hbody, hlast⟩ := hclosed
      rcases ofTokens_decided hbody hlast with ⟨f, hf, -⟩ | ⟨fault, hfault, -⟩
      · exact .inr (.inr (.inl ⟨f, hf⟩))
      · exact .inr (.inr (.inr ⟨fault, hfault⟩))
    · rcases ofTokens_of_not_closed hclosed with h | h
      · exact .inl h
      · exact .inr (.inl h)
  · have hne : ts.drop i ≠ [] := by simpa using hi
    have hsettled := p.read_settled (hpass.of_suffix (List.drop_suffix i ts) hne)
    obtain ⟨depth, hdepth, hreturns⟩ := hsettled.returns
    refine ⟨hsettled.decided, ⟨depth, hreturns⟩, fun o depth' h => ?_⟩
    obtain ⟨rfl, rfl⟩ := h.unique hreturns
    exact ⟨rfl, by rw [Nat.add_comm]; exact hdepth⟩

/-- `((a)`, as tokens and without an end mark: the last parenthesis is never passed, and closes both
that are open. Three calls are nested, as many as there can be. -/
theorem ofTokens_outcome_unpassed :
    let ts : List Token :=
      [⟨.leftParen, "(", 0, 1, 1⟩, ⟨.leftParen, "(", 1, 1, 2⟩, ⟨.identifier, "a", 2, 1, 3⟩,
        ⟨.rightParen, ")", 3, 1, 4⟩]
    Passable ts ∧ 0 < ts.length ∧ ofTokens ts = .error .unfinished ∧
      (Phrase.disjunction.read ts).1 = .ok (.identifier "a") ∧
      ∀ o depth, Returns Phrase.disjunction.call ts o depth →
        o = Phrase.disjunction.read ts ∧ depth ≤ 3 := by
  intro ts
  have hpass : Passable ts := ⟨_, rfl, by decide, by decide⟩
  have hpos : 0 < ts.length := by decide
  obtain ⟨-, -, hdepth⟩ := (ofTokens_outcome ts).2.2 hpass 0 hpos .disjunction
  exact ⟨hpass, hpos, by cbv, by cbv, hdepth⟩

end Filter

end TagFilter
