import TagFilter.Proofs.Grammar.Tally

/-!
# The grammar gives the verdict of the scan

The rules come back to themselves at every parenthesis, and complaints come from three places in
them. The scan knows nothing of this and complains about the same tokens in the same words:

* `Ends`, `Follows` — what a rule comes to if the scan goes along with it;
* `sentence_decided` — a closed list is answered or refused where the scan passes or is stuck;
* `Filter.ofTokens_verdict` — a closed list spells a filter exactly if the scan passes, and
  otherwise it is refused with the report of the scan.

The invariant is `Ends`. Whatever parentheses are open around it, a rule either answers, and then
the scan has passed from an operand due to an operator due with as many open as before; or it stops
at the token at which the scan is stuck. Where a rule stops by itself at a token that does not go on
with it (`Clear`), its caller knows whether a closing parenthesis or the end mark is due, and that
is all in which the reports of the callers differ. The invariant is carried from operands to
negations (`FollowsOperand.negationOf`), from there to the chains (`Follows.chain`), and from one
level of parentheses to the next (`ends_parens`, `followsOperand_primaryWithin`).
-/

namespace TagFilter

namespace Grammar

/-! ### Rules go along with the scan -/

open Tally in
/-- What a rule comes to, if the scan goes along with it from `s` on: an answer in front of a token
of other kinds than `kinds`, with an operator due and as many parentheses open as before, or a
complaint about the token at which the scan is stuck. -/
inductive Ends (s : Tally) (kinds : List Token.Kind) (ts : List Token) : Outcome Filter → Prop where
  | answer {front rest : List Token} {f : Filter} (hts : ts = front ++ rest)
    (hpass : Passes s front ⟨s.depth, .operator⟩) (hended : Ended rest)
    (hclear : Clear kinds rest) : Ends s kinds ts (.ok f, rest)
  | stop {front rest : List Token} {t : Token} {u : Tally} (hts : ts = front ++ t :: rest)
    (hpass : Passes s front u) (hstuck : Stuck u t) :
    Ends s kinds ts (.error (.fault ⟨u.cause, t⟩), t :: rest)

/-- With an operand due, the scan goes along with the rule, whatever is open around it. -/
def Follows (r : Rule Filter) (levels : Nat) (kinds : List Token.Kind) : Prop :=
  ∀ ⦃depth : Nat⦄ ⦃ts : List Token⦄, Ended ts → openings ts < levels →
    Ends ⟨depth, .operand⟩ kinds ts (r ts)

/-- The same of a rule for operands. It never sees a `NOT`, since negations pass all of them; the
scan would pass one, and the rule would not. -/
def FollowsOperand (r : Rule Filter) (levels : Nat) : Prop :=
  ∀ ⦃depth : Nat⦄ ⦃ts : List Token⦄, Ended ts → Clear [.not] ts → openings ts < levels →
    Ends ⟨depth, .operand⟩ [] ts (r ts)

section

variable {s u : Tally} {kinds others : List Token.Kind} {front ts : List Token}
  {o : Outcome Filter}

/-- The scan may have passed some tokens before the rule begins, if no parenthesis stays open. -/
theorem Ends.behind (h : Ends u kinds ts o) (hfront : Tally.Passes s front u)
    (hdepth : u.depth = s.depth) : Ends s kinds (front ++ ts) o := by
  cases h with
  | answer hts hpass hended hclear =>
    rw [hdepth] at hpass
    exact .answer (by rw [hts, List.append_assoc]) (hfront.append hpass) hended hclear
  | stop hts hpass hstuck =>
    exact .stop (by rw [hts, List.append_assoc]) (hfront.append hpass) hstuck

theorem Ends.map (h : Ends s kinds ts o) (g : Filter → Filter) : Ends s kinds ts (o.map g) := by
  cases h with
  | answer hts hpass hended hclear => exact .answer hts hpass hended hclear
  | stop hts hpass hstuck => exact .stop hts hpass hstuck

/-- What comes behind an answer goes along with the scan from an operator due on. -/
theorem Ends.andThen {next : Filter → Rule Filter} (h : Ends s kinds ts o)
    (hnext : ∀ f rest, Ended rest → Clear kinds rest → openings rest ≤ openings ts →
      Ends ⟨s.depth, .operator⟩ others rest (next f rest)) :
    Ends s others ts (o.andThen next) := by
  cases h with
  | @answer front rest f hts hpass hended hclear =>
    have hle : openings rest ≤ openings ts := by rw [hts, openings_append]; omega
    rw [hts]
    exact (hnext f rest hended hclear hle).behind hpass rfl
  | stop hts hpass hstuck => exact .stop hts hpass hstuck

end

section

variable {operand : Rule Filter} {levels : Nat} {kinds : List Token.Kind}

/-- **A run of `NOT` keeps an operand due.** -/
theorem FollowsOperand.negationOf (h : FollowsOperand operand levels) :
    Follows (negationOf operand) levels [] := by
  intro depth ts hended hlevels
  induction ts with
  | nil => exact absurd rfl hended.ne_nil
  | cons t ts ih =>
    by_cases ht : t.kind = .not
    · have htail : Ended ts := hended.tail (by simp [ht])
      rw [negationOf_not ht htail.ne_nil]
      rw [openings_cons, if_neg (by simp [ht])] at hlevels
      exact ((ih htail hlevels).map .not).behind (.cons (Tally.step_not ht depth) (.nil _)) rfl
    · rw [negationOf_of_ne_not ht]
      exact h hended (.cons (by simpa using ht) ts) hlevels

/-- Behind an operator of the chain an operand is due, and its rule goes along with the scan. -/
theorem Follows.round {kind : Token.Kind} (h : Follows operand levels kinds)
    (hkind : kind = .and ∨ kind = .or) (depth : Nat) {t : Token} {others : List Token}
    (ht : t.kind = kind) (hended : Ended (t :: others))
    (hlevels : openings (t :: others) < levels) :
    Tally.Passes ⟨depth, .operator⟩ [t] ⟨depth, .operand⟩ ∧ openings others < levels ∧
      Ends ⟨depth, .operand⟩ kinds others (operand (advance (t :: others))) := by
  have hstep := Tally.step_operator (ht ▸ hkind) depth
  have htail : Ended others := hended.tail (by rcases hkind with rfl | rfl <;> simp [ht])
  have hopenings : openings (t :: others) = openings others := by
    rw [openings_cons, if_neg (by rcases hkind with rfl | rfl <;> simp [ht]), Nat.add_zero]
  rw [hopenings] at hlevels
  rw [advance_cons t htail.ne_nil]
  exact ⟨.cons hstep (.nil _), hlevels, h htail hlevels⟩

/-- **The loop of a chain alternates.** Its operator makes an operand due, and the operand an
operator; the loop ends where neither its own operator follows nor one of its operands'. -/
theorem Follows.chain {kind : Token.Kind} {join : Filter → Filter → Filter}
    (h : Follows operand levels kinds) (hkind : kind = .and ∨ kind = .or) {depth : Nat}
    {ahead : List Token} (left : Filter) (hended : Ended ahead) (hclear : Clear kinds ahead)
    (hlevels : openings ahead < levels) :
    Ends ⟨depth, .operator⟩ (kind :: kinds) ahead (chain kind join operand left ahead) := by
  fun_induction Grammar.chain kind join operand left ahead with
  | case1 left => exact absurd rfl hended.ne_nil
  | case2 left t others ht right rest hoperand hshort ih =>
    obtain ⟨hpass, hothers, hends⟩ := h.round hkind depth ht hended hlevels
    rw [hoperand] at hends
    cases hends with
    | @answer front _ _ hts hfront hrest hclear' =>
      -- one round: the operator and its operand leave an operator due
      have hle : openings rest < levels := by rw [hts, openings_append] at hothers; omega
      rw [hts]
      exact (ih hrest hclear' hle).behind (hpass.append hfront) rfl
  | case3 left t others ht right rest hoperand hshort =>
    -- an operand leaves no more than it was given
    obtain ⟨-, -, hends⟩ := h.round hkind depth ht hended hlevels
    rw [hoperand] at hends
    cases hends with
    | answer hts _ _ _ =>
      rw [hts, List.length_append] at hshort
      omega
  | case4 left t others ht stop rest hoperand =>
    obtain ⟨hpass, -, hends⟩ := h.round hkind depth ht hended hlevels
    rw [hoperand] at hends
    cases hends with
    | stop hts hfront hstuck => exact .stop (by rw [hts]; rfl) (hpass.append hfront) hstuck
  | case5 left t others ht =>
    obtain ⟨v, vs, hcons, hv⟩ := hclear
    obtain ⟨rfl, rfl⟩ := List.cons.inj hcons
    exact .answer rfl (.nil _) hended (.cons (by simp [ht, hv]) _)

/-- **A conjunction goes along with the scan** if its operands do. -/
theorem FollowsOperand.conjunctionOf (h : FollowsOperand operand levels) :
    Follows (conjunctionOf operand) levels Phrase.conjunction.goesOn := by
  intro depth ts hended hlevels
  refine (h.negationOf hended hlevels).andThen fun f rest hrest hclear hle => ?_
  exact h.negationOf.chain (.inl rfl) f hrest hclear (by omega)

/-- **A disjunction goes along with the scan** if its operands do. -/
theorem FollowsOperand.disjunctionOf (h : FollowsOperand operand levels) :
    Follows (disjunctionOf operand) levels Phrase.disjunction.goesOn := by
  intro depth ts hended hlevels
  refine (h.conjunctionOf hended hlevels).andThen fun f rest hrest hclear hle => ?_
  exact h.conjunctionOf.chain (.inr rfl) f hrest hclear (by omega)

end

/-- Behind the filter in parentheses the one that was opened is closed, or it is the complaint that
it is not. -/
theorem ends_parens {depth : Nat} {l : Token} {ts : List Token} {o : Outcome Filter}
    (hl : l.kind = .leftParen) (h : Ends ⟨depth + 1, .operand⟩ Phrase.disjunction.goesOn ts o) :
    Ends ⟨depth, .operand⟩ [] (l :: ts)
      (o.andThen fun f rest => (require .rightParen unclosed rest).map fun _ => f) := by
  have hopen := Tally.step_leftParen hl depth
  cases h with
  | stop hts hpass hstuck => exact .stop (by rw [hts]; rfl) (.cons hopen hpass) hstuck
  | @answer front rest f hts hpass hended hclear =>
    obtain ⟨r, rest, rfl, hr⟩ := hclear
    by_cases hclose : r.kind = .rightParen
    · have hrest : Ended rest := hended.tail (by simp [hclose])
      have hclosed := Tally.step_rightParen hclose depth
      simp only [Outcome.andThen, require, if_pos hclose, advance_cons r hrest.ne_nil]
      have hts' : l :: ts = (l :: (front ++ [r])) ++ rest := by simp [hts]
      exact .answer hts' (.cons hopen (hpass.append (.cons hclosed (.nil _)))) hrest
        hrest.clear_nil
    · simp only [Outcome.andThen, require, if_neg hclose]
      have hts' : l :: ts = (l :: front) ++ r :: rest := by simp [hts]
      exact .stop hts' (.cons hopen hpass) (Tally.stuck_unclosed hr hclose depth)

/-- **A primary goes along with the scan**, by induction on the levels it may open. Inside its
parentheses one more is open. -/
theorem followsOperand_primaryWithin (levels : Nat) :
    FollowsOperand (primaryWithin levels) levels := by
  induction levels with
  | zero =>
    intro depth ts _ _ hlevels
    exact absurd hlevels (Nat.not_lt_zero _)
  | succ levels ih =>
    intro depth ts hended hnot hlevels
    obtain ⟨t, ts, rfl, ht⟩ := hnot
    rw [List.mem_singleton] at ht
    rw [primaryWithin]
    split
    · next hl =>
      have htail : Ended ts := hended.tail (by simp [hl])
      rw [openings_cons, if_pos hl] at hlevels
      rw [advance_cons t htail.ne_nil]
      exact ends_parens hl (ih.disjunctionOf htail (by omega))
    · next hid =>
      have hstep := Tally.step_identifier hid depth
      have htail : Ended ts := hended.tail (by simp [hid])
      rw [advance_cons t htail.ne_nil]
      have hts : t :: ts = [t] ++ ts := rfl
      exact .answer hts (.cons hstep (.nil _)) htail htail.clear_nil
    -- no other token begins an operand
    all_goals
      next hk =>
      have hts : t :: ts = [] ++ t :: ts := rfl
      exact .stop hts (.nil _) (Tally.stuck_operand ht (by simp [hk]) (by simp [hk]) depth)

/-! ### The verdict -/

/-- A complaint of the disjunction is one of the sentence. -/
theorem sentence_of_error {t : Token} {ts rest : List Token} {stop : Stop} (ht : t.kind ≠ .eof)
    (h : disjunction (t :: ts) = (.error stop, rest)) :
    sentence (t :: ts) = (.error stop, rest) := by
  rw [sentence, if_neg (by rwa [Token.isEnd_iff]), h]
  rfl

/-- Behind a disjunction the sentence wants the end mark. -/
theorem sentence_of_ok {t u : Token} {ts rest : List Token} {f : Filter} (ht : t.kind ≠ .eof)
    (h : disjunction (t :: ts) = (.ok f, u :: rest)) :
    sentence (t :: ts) =
      if u.isEnd then (.ok f, u :: rest) else Outcome.fault .trailing u (u :: rest) := by
  rw [sentence, if_neg (by rwa [Token.isEnd_iff]), h]
  rfl

/-- **Every closed list is decided where the scan decides it.** The scan passes everything before
the end mark and the grammar answers; or the scan is stuck, and the grammar stops at that token; or
there is nothing but the end mark. -/
theorem sentence_decided {body : List Token} {last : Token} (hbody : ∀ t ∈ body, t.kind ≠ .eof)
    (hlast : last.kind = .eof) :
    (∃ f, sentence (body ++ [last]) = (.ok f, [last]) ∧ body ≠ [] ∧
        Tally.start.Passes body ⟨0, .operator⟩) ∨
      (∃ front t rest u, body ++ [last] = front ++ t :: rest ∧ body ≠ [] ∧
        Tally.start.Passes front u ∧ u.Stuck t ∧
        sentence (body ++ [last]) = (.error (.fault ⟨u.cause, t⟩), t :: rest)) ∨
      (body = [] ∧ sentence [last] = (.error (.fault ⟨.empty, last⟩), [last])) := by
  cases body with
  | nil =>
    refine .inr (.inr ⟨rfl, ?_⟩)
    rw [sentence, if_pos (Token.isEnd_iff.mpr hlast)]
    rfl
  | cons t body =>
    have ht : t.kind ≠ .eof := hbody t (by simp)
    have hended : Ended (t :: body ++ [last]) := ⟨t :: body, last, rfl, hlast⟩
    have hends : Ends Tally.start Phrase.disjunction.goesOn (t :: body ++ [last])
        (disjunction (t :: body ++ [last])) :=
      (followsOperand_primaryWithin _).disjunctionOf hended (Nat.lt_succ_self _)
    generalize hread : disjunction (t :: body ++ [last]) = o at hends
    cases hends with
    | @stop front rest t' u hts hpass hstuck =>
      have hsentence := sentence_of_error ht hread
      exact .inr (.inl ⟨front, t', rest, u, hts, by simp, hpass, hstuck, hsentence⟩)
    | @answer front rest f hts hpass hended' hclear =>
      obtain ⟨u, rest, rfl, hu⟩ := hclear
      have hsentence := sentence_of_ok ht hread
      by_cases hend : u.kind = .eof
      · obtain ⟨rfl, rfl⟩ := Filter.eq_of_append_eof hbody hend hts
        obtain rfl : last = u := by simpa using hts
        rw [if_pos (Token.isEnd_iff.mpr hend)] at hsentence
        exact .inl ⟨f, hsentence, by simp, hpass⟩
      · rw [if_neg (by rwa [Token.isEnd_iff])] at hsentence
        exact .inr (.inl ⟨front, u, rest, ⟨0, .operator⟩, hts, by simp, hpass,
          Tally.stuck_trailing hu hend, hsentence⟩)

end Grammar

namespace Filter

open Grammar

/-- A closed list spells a filter and is scanned to its end, or it is refused with a fault of the
grammar, whose report is the one of the scan. -/
theorem ofTokens_decided {body : List Token} {last : Token} (hbody : ∀ t ∈ body, t.kind ≠ .eof)
    (hlast : last.kind = .eof) :
    (∃ f, ofTokens (body ++ [last]) = .ok f ∧ scan (body ++ [last]) = .ok ()) ∨
      ∃ fault : Fault, ofTokens (body ++ [last]) = .error (.stopped (.fault fault)) ∧
        scan (body ++ [last]) = .error fault.diagnostic := by
  rw [ofTokens_of_closed hbody hlast]
  rcases sentence_decided hbody hlast with
    ⟨f, hsentence, hne, hpass⟩ | ⟨front, t, rest, u, hts, hne, hpass, hstuck, hsentence⟩ |
      ⟨rfl, hsentence⟩
  · exact .inl ⟨f, by rw [hsentence]; rfl, scan_of_passes hbody hne hlast hpass⟩
  · refine .inr ⟨_, by rw [hsentence]; rfl, ?_⟩
    rw [hts]
    refine scan_of_stuck (fun a ha => hbody a ?_) hpass hstuck
    rw [← hts, List.head?_append_of_ne_nil _ hne] at ha
    exact List.mem_of_mem_head? ha
  · refine .inr ⟨_, by rw [List.nil_append, hsentence]; rfl, ?_⟩
    rw [List.nil_append, scan, if_pos hlast]
    rfl

/-- **One scan tells the verdict.** A closed list of tokens spells a filter exactly if the scan
passes, and it is refused with a report exactly if the scan ends with this report. -/
theorem ofTokens_verdict {body : List Token} {last : Token} (hbody : ∀ t ∈ body, t.kind ≠ .eof)
    (hlast : last.kind = .eof) :
    ((∃ f, ofTokens (body ++ [last]) = .ok f) ↔ scan (body ++ [last]) = .ok ()) ∧
      ∀ d, (∃ r, ofTokens (body ++ [last]) = .error r ∧ r.diagnostic? = some d) ↔
        scan (body ++ [last]) = .error d := by
  rcases ofTokens_decided hbody hlast with ⟨f, hf, hscan⟩ | ⟨fault, hfault, hscan⟩
  · rw [hf, hscan]
    simp
  · rw [hfault, hscan]
    simp [Refusal.diagnostic?, Stop.diagnostic?]

/-- `( a b`, as tokens: at `b` the closing parenthesis is due. -/
theorem ofTokens_verdict_unclosed :
    let body : List Token :=
      [⟨.leftParen, "(", 0, 1, 1⟩, ⟨.identifier, "a", 2, 1, 3⟩, ⟨.identifier, "b", 4, 1, 5⟩]
    let last : Token := ⟨.eof, "", 5, 1, 6⟩
    (∀ t ∈ body, t.kind ≠ .eof) ∧ last.kind = .eof ∧
      ∃ r, ofTokens (body ++ [last]) = .error r ∧
        r.diagnostic? = some ⟨.grammar (some "RIGHT_PAREN") (some "b"),
          "Expected ')' after expression", some 4, some 1, some 5⟩ := by
  intro body last
  have hbody : ∀ t ∈ body, t.kind ≠ .eof := by decide
  exact ⟨hbody, rfl, ((ofTokens_verdict hbody rfl).2 _).mpr (by cbv)⟩

end Filter

end TagFilter
