import Mathlib
import TagFilter.Proofs.Grammar.Endless

/-!
# Rules and steps in any order

A reader may drive the grammar itself: it may start any rule anywhere, look at tokens and pass them
in between, and go on after a fault. Whatever it does, the place of the current token never goes
back and never leaves the list, and a fault is about the token that is current then.

* `Step.Ends` — the recursion of a step has an end. A step that has none says so
  (`perform_ends_iff`);
* `Looks` — the steps after which the current token is current still (`perform_looks`);
* `aheadAfter` — the tokens ahead after a sequence of steps. They are a rear part of the list and
  never empty (`aheadAfter_suffix`), which is what `Moves` says of one step;
* `performAll_points` — every step of every sequence, in terms of places in the list.
-/

namespace TagFilter.Grammar

variable {ts ahead rest : List Token} {s : Step} {before : List Step}

/-! ### Steps that come to an end -/

/-- The recursion of the rule comes to an end. -/
def Phrase.Ends (p : Phrase) (ahead : List Token) : Prop := ∃ o depth, Returns p.call ahead o depth

/-- The step comes to an end. A sentence does so at once in front of an end mark. -/
def Step.Ends (ahead : List Token) : Step → Prop
  | sentence => (∃ t ∈ ahead.head?, t.kind = .eof) ∨ Phrase.disjunction.Ends ahead
  | disjunction => Phrase.disjunction.Ends ahead
  | conjunction => Phrase.conjunction.Ends ahead
  | negation => Phrase.negation.Ends ahead
  | primary => Phrase.primary.Ends ahead
  | peek | advance | check _ | accept _ | require _ _ => True

theorem Phrase.ends_iff (p : Phrase) (hne : ahead ≠ []) :
    p.Ends ahead ↔ (p.read ahead).1 ≠ .error .endless := by
  constructor
  · rintro ⟨o, hreturns⟩
    obtain ⟨rfl, hends⟩ := (p.returns_iff hne).mp hreturns
    exact hends
  · intro hends
    exact ⟨p.read ahead, (p.returns_iff hne).mpr ⟨rfl, hends⟩⟩

theorem peek_ends (ahead : List Token) : (peek ahead).1 ≠ .error .endless := by
  cases ahead <;> simp [peek]

theorem check_ends (kind : Token.Kind) (ahead : List Token) :
    (check kind ahead).1 ≠ .error .endless := by
  cases ahead <;> simp [check]

theorem accept_ends (kind : Token.Kind) (ahead : List Token) :
    (accept kind ahead).1 ≠ .error .endless := by
  unfold accept
  split
  · simp
  · split <;> simp

/-- What follows the disjunction in a sentence takes no time. -/
theorem sentence_ends_iff (hne : ahead ≠ []) :
    (sentence ahead).1 ≠ .error .endless ↔ Step.sentence.Ends ahead := by
  obtain ⟨t, others, rfl⟩ := List.exists_cons_of_ne_nil hne
  rw [Step.Ends, Phrase.disjunction.ends_iff hne, sentence]
  by_cases ht : t.isEnd = true
  · simp [ht, Token.isEnd_iff.mp ht, Outcome.fault]
  · have hkind : t.kind ≠ .eof := by rwa [Ne, ← Token.isEnd_iff]
    rw [if_neg ht]
    simp only [List.head?_cons, Option.mem_some_iff, exists_eq_left', hkind, false_or, Phrase.read]
    generalize disjunction (t :: others) = o
    obtain ⟨result, rest⟩ := o
    cases result with
    | error stop => rfl
    | ok f =>
      -- the end mark follows, or another token does, or none
      cases rest with
      | nil => simp [Outcome.andThen]
      | cons u more => by_cases hu : u.isEnd = true <;> simp [Outcome.andThen, Outcome.fault, hu]

/-- **A step that would go on for ever says so**, and no other step does. -/
theorem perform_ends_iff (s : Step) (hne : ahead ≠ []) :
    (perform ahead s).1 ≠ .error .endless ↔ s.Ends ahead := by
  have hmap {α : Type} {r : Rule α} {g : α → Answer} :
      ((r ahead).map g).1 ≠ .error .endless ↔ (r ahead).1 ≠ .error .endless :=
    not_congr Outcome.map_eq_error
  cases s with
  | sentence => exact hmap.trans (sentence_ends_iff hne)
  | disjunction => exact hmap.trans (Phrase.disjunction.ends_iff hne).symm
  | conjunction => exact hmap.trans (Phrase.conjunction.ends_iff hne).symm
  | negation => exact hmap.trans (Phrase.negation.ends_iff hne).symm
  | primary => exact hmap.trans (Phrase.primary.ends_iff hne).symm
  | advance => exact iff_of_true (by simp [perform]) trivial
  -- what looks at one token has no recursion
  | peek => exact hmap.trans (iff_of_true (peek_ends ahead) trivial)
  | check kind => exact hmap.trans (iff_of_true (check_ends kind ahead) trivial)
  | accept kind => exact hmap.trans (iff_of_true (accept_ends kind ahead) trivial)
  | require kind complaint =>
    exact hmap.trans (iff_of_true (require_ends kind complaint ahead) trivial)

/-! ### Steps that only look -/

/-- The step has looked at the current token without passing it: it has asked what the token is, or
demanded another one, in vain. -/
def Looks (s : Step) (answer : Except Stop Answer) : Prop :=
  s = .peek ∨ (∃ kind, s = .check kind) ∨ (∃ kind, s = .accept kind ∧ answer = .ok (.truth false)) ∨
    ∃ kind complaint stop, s = .require kind complaint ∧ answer = .error stop

/-- **To look changes nothing.** -/
theorem perform_looks (h : Looks s (perform ahead s).1) : (perform ahead s).2 = ahead := by
  rcases h with rfl | ⟨kind, rfl⟩ | ⟨kind, rfl, h⟩ | ⟨kind, complaint, stop, rfl, h⟩
  · cases ahead <;> rfl
  · cases ahead <;> rfl
  · cases ahead with
    | nil => rfl
    | cons t others =>
      -- a token of this kind would have been passed, and the answer would be another one
      have hkind : t.kind ≠ kind := fun ht => by
        simp [perform, Grammar.accept, ht, Outcome.map, Except.map] at h
      simp [perform, Grammar.accept, hkind, Outcome.map]
  · cases ahead with
    | nil => rfl
    | cons t others =>
      have hkind : t.kind ≠ kind := fun ht => by
        simp [perform, Grammar.require, ht, Outcome.map, Except.map] at h
      simp [perform, Grammar.require, hkind, Outcome.map, Outcome.fault]

/-! ### Any steps -/

/-- The tokens ahead after a sequence of steps. -/
def aheadAfter (ts : List Token) (before : List Step) : List Token :=
  before.foldl (fun ahead s => (perform ahead s).2) ts

/-- What comes of a step is told by the tokens ahead after all steps in front of it. -/
theorem getElem?_performAll (ts : List Token) (before : List Step) (s : Step) (after : List Step) :
    (performAll ts (before ++ s :: after))[before.length]? =
      some (perform (aheadAfter ts before) s) := by
  induction before generalizing ts with
  | nil => rfl
  | cons first before ih => exact ih (perform ts first).2

/-- **Whatever steps are taken**, some of the tokens are ahead, and no others. -/
theorem aheadAfter_suffix (hne : ts ≠ []) (before : List Step) :
    aheadAfter ts before <:+ ts ∧ aheadAfter ts before ≠ [] := by
  induction before generalizing ts with
  | nil => exact ⟨List.suffix_rfl, hne⟩
  | cons first before ih =>
    have hmoves := perform_moves first hne
    obtain ⟨hsuffix, hrest⟩ := ih hmoves.ne_nil
    exact ⟨hsuffix.trans hmoves.suffix, hrest⟩

/-! ### Places -/

/-- The tokens ahead are those from the place of the current one on. -/
theorem eq_drop_index (h : ahead <:+ ts) : ahead = ts.drop (index ts.length ahead) :=
  List.suffix_iff_eq_drop.mp h

theorem index_lt (h : ahead <:+ ts) (hne : ahead ≠ []) : index ts.length ahead < ts.length := by
  have hpos := List.length_pos_iff.mpr hne
  have hle := h.length_le
  rw [index]
  omega

theorem index_le (h : rest <:+ ahead) (total : Nat) : index total ahead ≤ index total rest :=
  Nat.sub_le_sub_left h.length_le total

/-- **The place of the current token, step by step.** The list is not empty; it need not be closed,
and the steps may be taken in any order and stop for any reason. The place never goes back and is
always one of the list. A step that only looks does not change it. A step stops because its
recursion would have no end, and only then says so, or because of a fault at the token that is
current afterwards: the report on it carries the numbers and the label of this very token. -/
theorem performAll_points (hne : ts ≠ []) (before : List Step) (s : Step) (after : List Step) :
    let ahead := aheadAfter ts before
    let i := index ts.length ahead
    ∃ answer rest, (performAll ts (before ++ s :: after))[before.length]? = some (answer, rest) ∧
      let j := index ts.length rest
      (ahead = ts.drop i ∧ rest = ts.drop j ∧ i ≤ j ∧ j < ts.length) ∧
        (Looks s answer → j = i) ∧
        (answer = .error .endless ↔ ¬ s.Ends ahead) ∧
        ∀ stop, answer = .error stop → s.Ends ahead →
          ∃ fault t, stop = .fault fault ∧ ts[j]? = some t ∧
            fault.diagnostic.position = some t.position ∧ fault.diagnostic.line = some t.line ∧
              fault.diagnostic.column = some t.column ∧
                ∃ expected, fault.diagnostic.topic = .grammar (some expected) (some t.label) := by
  intro ahead i
  obtain ⟨hsuffix, hahead⟩ := aheadAfter_suffix hne before
  have hmoves := perform_moves s hahead
  have hrest := hmoves.suffix.trans hsuffix
  refine ⟨(perform ahead s).1, (perform ahead s).2, getElem?_performAll ts before s after, ?_⟩
  intro j
  have hj : (perform ahead s).2 = ts.drop j := eq_drop_index hrest
  refine ⟨⟨eq_drop_index hsuffix, hj, index_le hmoves.suffix _, index_lt hrest hmoves.ne_nil⟩,
    fun hlooks => ?_, ?_, fun stop hstop hends => ?_⟩
  · exact congrArg (index ts.length) (perform_looks hlooks)
  · rw [← perform_ends_iff s hahead, not_ne_iff]
  · -- the step has an end, so it stops with a fault at the current token
    have hfault := (hmoves.stops stop hstop).resolve_left fun hendless =>
      (perform_ends_iff s hahead).mpr hends (hendless ▸ hstop)
    obtain ⟨fault, rfl, hhead⟩ := hfault
    refine ⟨fault, fault.token, rfl, ?_, rfl, rfl, rfl, _, rfl⟩
    rw [← List.head?_drop, ← hj, hhead]

/-- `a ) not`, as tokens and without an end mark. Behind the first two the last token is current and
cannot be passed. The rule for operands complains about it and leaves it there; the rule for
negations would pass it for ever. -/
theorem performAll_points_unclosed :
    let last : Token := ⟨.not, "not", 4, 1, 5⟩
    let ts : List Token := [⟨.identifier, "a", 0, 1, 1⟩, ⟨.rightParen, ")", 2, 1, 3⟩, last]
    let before : List Step := [.disjunction, .accept .rightParen, .advance]
    ts ≠ [] ∧ ¬ Step.negation.Ends (ts.drop 2) ∧ Step.primary.Ends (ts.drop 2) ∧
      (performAll ts (before ++ [.primary]))[before.length]? =
        some (.error (.fault ⟨.operand, last⟩), ts.drop 2) ∧
      (Fault.diagnostic ⟨.operand, last⟩).position = some last.position := by
  intro last ts before
  have hne : ts ≠ [] := List.cons_ne_nil _ _
  have hends : Step.primary.Ends (ts.drop 2) := ⟨_, _, .noOperand (by decide) (by decide)⟩
  have hahead : aheadAfter ts before = ts.drop 2 := by cbv
  have hnegation : (performAll ts (before ++ [.negation]))[before.length]? =
      some (.error .endless, ts.drop 2) := by cbv
  have hprimary : (performAll ts (before ++ [.primary]))[before.length]? =
      some (.error (.fault ⟨.operand, last⟩), ts.drop 2) := by cbv
  refine ⟨hne, ?_, hends, hprimary, ?_⟩
  · obtain ⟨answer, rest, hget, -, -, hendless, -⟩ := performAll_points hne before .negation []
    obtain ⟨rfl, rfl⟩ := Prod.mk.inj (Option.some.inj (hnegation.symm.trans hget))
    exact hahead ▸ hendless.mp rfl
  · obtain ⟨answer, rest, hget, -, -, -, hstop⟩ := performAll_points hne before .primary []
    obtain ⟨rfl, rfl⟩ := Prod.mk.inj (Option.some.inj (hprimary.symm.trans hget))
    obtain ⟨fault, t, hfault, ht, hposition, -⟩ := hstop _ rfl (hahead ▸ hends)
    obtain rfl := Stop.fault.inj hfault
    obtain rfl : last = t := Option.some.inj ht
    exact hposition

end TagFilter.Grammar
