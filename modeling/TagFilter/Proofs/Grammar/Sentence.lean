import Mathlib
import TagFilter.Filter.Reading
import TagFilter.Proofs.Grammar.Soundness

/-!
# Closed lists of tokens are read by the grammar

A list of tokens is closed if it ends with an end mark and has no other (`Filter.Closed`). All other
lists are refused before the grammar looks at them. A closed list spells a filter if and only if the
tokens before the end mark are derived from a disjunction, and it spells the filter of that
derivation (`Filter.ofTokens_eq_ok_iff`). Since the rules are functions, no list of tokens has two
derivations with different filters (`Grammar.Derives.unique`), although the grammar says nothing
about how its derivations are found.
-/

namespace TagFilter

/-- **Derivations agree on the filter.** No tokens spell two filters as the same phrase. -/
theorem Grammar.Derives.unique {p : Grammar.Phrase} {ts : List Token} {f g : Filter}
    (hf : Grammar.Derives p ts f) (hg : Grammar.Derives p ts g) : f = g := by
  -- in front of an end mark the rule reads both, and it gives one answer
  have hclear : Grammar.Clear p.goesOn [⟨.eof, "", 0, 0, 0⟩] :=
    .cons (by cases p <;> simp [Grammar.Phrase.goesOn]) []
  have hread := hf.read (Nat.lt_succ_self (Grammar.openings ts)) hclear
  rw [hg.read (Nat.lt_succ_self (Grammar.openings ts)) hclear] at hread
  simp only [Prod.mk.injEq, Except.ok.injEq, and_true] at hread
  exact hread.symm

namespace Filter

variable {ts body : List Token} {last : Token} {f : Filter}

/-! ### Closed lists -/

/-- The tokens end with an end mark and have no other. -/
def Closed (ts : List Token) : Prop :=
  ∃ body last, ts = body ++ [last] ∧ (∀ t ∈ body, t.kind ≠ .eof) ∧ last.kind = .eof

theorem closed_concat_iff :
    Closed (body ++ [last]) ↔ (∀ t ∈ body, t.kind ≠ .eof) ∧ last.kind = .eof := by
  constructor
  · rintro ⟨body', last', heq, hbody, hlast⟩
    obtain ⟨rfl, hcons⟩ := List.append_inj' heq rfl
    obtain rfl := List.singleton_inj.mp hcons
    exact ⟨hbody, hlast⟩
  · rintro ⟨hbody, hlast⟩
    exact ⟨body, last, rfl, hbody, hlast⟩

/-- **What keeps tokens from being closed**: there are none, the last one is no end mark, or there
is an end mark before it. -/
theorem not_closed_iff : ¬ Closed ts ↔
    ts = [] ∨ (∃ last, ts.getLast? = some last ∧ last.kind ≠ .eof) ∨
      ∃ i t, i + 1 < ts.length ∧ ts[i]? = some t ∧ t.kind = .eof := by
  rcases List.eq_nil_or_concat' ts with rfl | ⟨body, last, rfl⟩
  · simp [Closed]
  · have hinside : (∃ i t, i + 1 < (body ++ [last]).length ∧ (body ++ [last])[i]? = some t ∧
        t.kind = .eof) ↔ ∃ t ∈ body, t.kind = .eof := by
      constructor
      · rintro ⟨i, t, hi, ht, hkind⟩
        rw [List.getElem?_append_left (by simpa using hi)] at ht
        exact ⟨t, List.mem_of_getElem? ht, hkind⟩
      · rintro ⟨t, ht, hkind⟩
        obtain ⟨i, hi, rfl⟩ := List.mem_iff_getElem.mp ht
        exact ⟨i, body[i], by simpa using hi, by rw [List.getElem?_append_left hi]; simp, hkind⟩
    rw [closed_concat_iff, hinside]
    by_cases hlast : last.kind = .eof <;> simp [hlast]

/-- Tokens that are not closed are refused before the grammar looks at them. -/
theorem ofTokens_of_not_closed (h : ¬ Closed ts) :
    ofTokens ts = .error .unfinished ∨ ofTokens ts = .error .endInside := by
  rw [ofTokens]
  split
  · exact .inl rfl
  next hend =>
    split
    · exact .inr rfl
    next hinside =>
      refine absurd ?_ h
      rcases List.eq_nil_or_concat' ts with rfl | ⟨body, last, rfl⟩
      · simp at hend
      · have hlast : last.kind = .eof := by simpa [Token.isEnd] using hend
        exact closed_concat_iff.mpr ⟨by simpa [Token.isEnd] using hinside, hlast⟩

/-- Only a closed list of tokens spells a filter. -/
theorem closed_of_ok (h : ofTokens ts = .ok f) : Closed ts := by
  by_contra hopen
  rcases ofTokens_of_not_closed hopen with hrefused | hrefused <;> simp [h] at hrefused

/-! ### What they spell -/

/-- A closed list is handed to the grammar. -/
theorem ofTokens_of_closed (hbody : ∀ t ∈ body, t.kind ≠ .eof) (hlast : last.kind = .eof) :
    ofTokens (body ++ [last]) = (Grammar.sentence (body ++ [last])).1.mapError .stopped := by
  have hend : ((body ++ [last]).getLast?.any Token.isEnd) = true := by simp [Token.isEnd, hlast]
  have hinside : ((body ++ [last]).dropLast.any Token.isEnd) = false := by
    simpa [Token.isEnd] using hbody
  rw [ofTokens, hend, hinside]
  rfl

/-- Renaming the reasons of refusals leaves the answers. -/
theorem mapError_eq_ok_iff {ε δ α : Type} {g : ε → δ} {r : Except ε α} {a : α} :
    r.mapError g = .ok a ↔ r = .ok a := by
  cases r <;> simp [Except.mapError]

/-- A sentence that begins with no end mark is a disjunction in front of one. -/
theorem sentence_eq_ok_iff {t : Token} {ts rest : List Token} {f : Filter} (ht : t.kind ≠ .eof) :
    Grammar.sentence (t :: ts) = (.ok f, rest) ↔
      Grammar.disjunction (t :: ts) = (.ok f, rest) ∧
        ∃ u others, rest = u :: others ∧ u.kind = .eof := by
  have hstart : ¬ t.isEnd = true := by rwa [Token.isEnd_iff]
  rw [Grammar.sentence, if_neg hstart]
  constructor
  · intro h
    obtain ⟨g, ahead, hg, hnext⟩ := Grammar.Outcome.andThen_eq_ok h
    cases ahead with
    | nil => simp at hnext
    | cons u others =>
      by_cases hu : u.isEnd = true
      · simp only [hu, if_true, Prod.mk.injEq, Except.ok.injEq] at hnext
        obtain ⟨rfl, rfl⟩ := hnext
        exact ⟨hg, u, others, rfl, Token.isEnd_iff.mp hu⟩
      · simp [hu, Grammar.Outcome.fault] at hnext
  · rintro ⟨h, u, others, rfl, hu⟩
    rw [h]
    simp [Grammar.Outcome.andThen, Token.isEnd_iff.mpr hu]

/-- A closed list has one end mark: where an end mark is found, the list ends. -/
theorem eq_of_append_eof {front others : List Token} {u : Token}
    (hbody : ∀ t ∈ body, t.kind ≠ .eof) (hu : u.kind = .eof)
    (h : body ++ [last] = front ++ u :: others) : body = front ∧ others = [] := by
  cases others with
  | nil => exact ⟨(List.append_inj' h rfl).1, rfl⟩
  | cons v others =>
    have hdrop := congrArg List.dropLast h
    rw [List.dropLast_concat, List.dropLast_append_of_ne_nil (by simp)] at hdrop
    have hmem : u ∈ body := by rw [hdrop]; simp
    exact absurd hu (hbody u hmem)

/-- What a closed list spells is derived, and what is derived is spelled. -/
theorem ofTokens_eq_ok_iff (hbody : ∀ t ∈ body, t.kind ≠ .eof) (hlast : last.kind = .eof)
    (f : Filter) : ofTokens (body ++ [last]) = .ok f ↔ Grammar.Derives .disjunction body f := by
  have hended : Grammar.Ended (body ++ [last]) := ⟨body, last, rfl, hlast⟩
  have hrule : ∀ rest, Grammar.disjunction (body ++ [last]) = (.ok f, rest) ↔
      ∃ front, body ++ [last] = front ++ rest ∧ Grammar.Derives .disjunction front f ∧
        Grammar.Clear Grammar.Phrase.disjunction.goesOn rest := fun rest =>
    Grammar.rule_eq_ok_iff .disjunction hended (Nat.lt_succ_self _)
  rw [ofTokens_of_closed hbody hlast, mapError_eq_ok_iff]
  cases body with
  | nil =>
    -- the end mark comes first, and no derivation is empty
    refine ⟨fun h => ?_, fun h => absurd rfl h.ne_nil⟩
    simp [Grammar.sentence, Token.isEnd, hlast, Grammar.Outcome.fault] at h
  | cons t body =>
    have ht : t.kind ≠ .eof := hbody t (by simp)
    constructor
    · intro h
      -- the disjunction has stopped at an end mark, and there is only one to stop at
      have hsentence : Grammar.sentence (t :: body ++ [last]) =
        (.ok f, (Grammar.sentence (t :: body ++ [last])).2) := Prod.ext h rfl
      obtain ⟨hread, u, others, hu, hkind⟩ := (sentence_eq_ok_iff ht).mp hsentence
      rw [hu] at hread
      obtain ⟨front, hsplit, hfront, -⟩ := (hrule _).mp hread
      obtain ⟨hfront', -⟩ := eq_of_append_eof hbody hkind hsplit
      rwa [hfront']
    · intro h
      have hclear : Grammar.Clear Grammar.Phrase.disjunction.goesOn [last] :=
        .cons (by simp [hlast, Grammar.Phrase.goesOn]) []
      have hread := (hrule [last]).mpr ⟨t :: body, rfl, h, hclear⟩
      have hsentence := (sentence_eq_ok_iff ht).mpr ⟨hread, last, [], rfl, hlast⟩
      exact congrArg Prod.fst hsentence

/-- **A closed list of tokens spells a filter exactly if the grammar derives it.** It then spells
the filter of the derivation, and no list of tokens has derivations of two filters. -/
theorem closed_spells_iff_derives (hbody : ∀ t ∈ body, t.kind ≠ .eof) (hlast : last.kind = .eof) :
    (∀ f, ofTokens (body ++ [last]) = .ok f ↔ Grammar.Derives .disjunction body f) ∧
      (∀ f g, Grammar.Derives .disjunction body f → Grammar.Derives .disjunction body g → f = g) :=
  ⟨ofTokens_eq_ok_iff hbody hlast, fun _ _ hf hg => hf.unique hg⟩

/-- `not (a or b) and c`, as tokens: `NOT` takes the parentheses alone, and they leave no trace. -/
theorem closed_spells_iff_derives_not_parens :
    let body : List Token :=
      [⟨.not, "not", 0, 1, 1⟩, ⟨.leftParen, "(", 4, 1, 5⟩, ⟨.identifier, "a", 5, 1, 6⟩,
        ⟨.or, "or", 7, 1, 8⟩, ⟨.identifier, "b", 10, 1, 11⟩, ⟨.rightParen, ")", 11, 1, 12⟩,
        ⟨.and, "and", 13, 1, 14⟩, ⟨.identifier, "c", 17, 1, 18⟩]
    (∀ t ∈ body, t.kind ≠ .eof) ∧ Grammar.Derives .disjunction body
      (.and (.not (.or (.identifier "a") (.identifier "b"))) (.identifier "c")) := by
  intro body
  have hbody : ∀ t ∈ body, t.kind ≠ .eof := by decide
  have hlast : (⟨.eof, "", 18, 1, 19⟩ : Token).kind = .eof := rfl
  exact ⟨hbody, ((closed_spells_iff_derives hbody hlast).1 _).mp (by cbv)⟩

end Filter

end TagFilter
