import Mathlib
import TagFilter.Proofs.Scanning.Cutting
import TagFilter.Cursor.Steps

/-!
# Reading token by token

A reader may ask for one token at a time, skip blanks in between as often as it likes, and read the
rest at once when it has seen enough. It always sees the tokens of the whole text.

A cursor is known by what is read from it at once, and a step changes this in one of two ways:

* `Cursor.tokens_skip` — to skip blanks changes nothing, since every reading step skips them first;
* `Cursor.next_of_tokens` — to read a token takes it away from the front, unless it is the end mark,
  which stays.

So the invariant is `Cursor.HasRead ts k`: what is left in front of the cursor is what is left of
`ts` when `k` tokens have been read off the list (`leftAfter`). `Cursor.performAll_reads` follows, for
any steps in any order.
-/

namespace TagFilter

/-- What is left of a list of tokens when `k` of them have been read. The last one stays. -/
def leftAfter (ts : List Token) (k : Nat) : List Token := ts.drop (min k (ts.length - 1))

/-- There is always a token: the end mark at least. -/
theorem Scans.ne_nil {start : Nat} {text : List Char} {ts : List Token} (h : Scans start text ts) :
    ts ≠ [] := by
  obtain ⟨body, last, rfl, -⟩ := h.closed
  simp

namespace Cursor

variable {c : Cursor} {t : Token} {ts : List Token} {k : Nat} {before : List Step}

/-! ### Skipping blanks -/

/-- Where no blank is ahead nothing is passed. -/
theorem skipFrom_of_not_blank {rest : List Char} (h : ∀ ch ∈ rest.head?, isBlank ch = false)
    (position line column : Nat) :
    skipFrom rest position line column = ⟨rest, position, line, column⟩ := by
  unfold skipFrom
  split
  case h_6 => rfl
  -- in all other cases a blank is ahead
  all_goals simp [isBlank] at h

theorem skip_skip (c : Cursor) : c.skip.skip = c.skip := by
  have hhead : ∀ ch ∈ c.skip.rest.head?, isBlank ch = false := by
    rw [skip_rest]
    exact head_dropWhile_not isBlank c.rest
  rw [skip, skipFrom_of_not_blank hhead]

theorem next_skip (c : Cursor) : c.skip.next = c.next := by
  rw [next, next, skip_skip]

/-- **Reading one token never fails.** It sees the end mark behind the blanks, and then has passed
nothing else, or another token. -/
theorem next_cases (c : Cursor) : c.next = (.ok (c.skip.tokenHere .eof ""), c.skip) ∨
    ∃ t c', c.next = (.ok t, c') ∧ t.kind ≠ .eof := by
  by_cases hend : c.rest.dropWhile isBlank = []
  · exact .inl (next_of_blank hend)
  · obtain ⟨kind, chs, rest, hsplit, hlexeme⟩ :=
      exists_lexeme hend (head_dropWhile_not isBlank c.rest)
    exact .inr ⟨_, _, next_of_lexeme hsplit hlexeme, hlexeme.kind_ne_eof⟩

/-- **Skipping blanks changes nothing that is read.** -/
theorem tokens_skip (c : Cursor) : c.skip.tokens = c.tokens := by
  rcases c.next_cases with hnext | ⟨t, c', hnext, ht⟩
  · rw [tokens_of_eof hnext rfl, tokens_of_eof (c.next_skip.trans hnext) rfl]
  · rw [tokens_of_ne_eof hnext ht, tokens_of_ne_eof (c.next_skip.trans hnext) ht]

/-! ### Reading a token -/

/-- **The first of the tokens ahead is read**, and the others are ahead then; but the end mark stays
ahead. -/
theorem next_of_tokens (h : c.tokens.1 = .ok (t :: ts)) :
    c.next.1 = .ok t ∧ c.next.2.tokens.1 = .ok (if ts = [] then [t] else ts) := by
  rcases c.next_cases with hnext | ⟨u, c', hnext, hu⟩
  · have hend := h
    rw [tokens_of_eof hnext rfl, Except.ok.injEq, List.cons.injEq] at hend
    obtain ⟨rfl, rfl⟩ := hend
    -- the cursor has only passed blanks, so it reads what it read before
    rw [hnext, tokens_skip, h, if_pos rfl]
    exact ⟨rfl, rfl⟩
  · obtain ⟨us, hus, hscans⟩ := c'.tokens_scans
    rw [tokens_of_ne_eof hnext hu, hus] at h
    obtain ⟨rfl, rfl⟩ := List.cons.inj (Except.ok.inj h)
    -- behind a token there is at least the end mark
    rw [hnext, if_neg hscans.ne_nil]
    exact ⟨rfl, hus⟩

/-! ### Any steps -/

/-- What is ahead of the cursor is what is left when `k` tokens have been read. -/
def HasRead (ts : List Token) (k : Nat) (c : Cursor) : Prop := c.tokens.1 = .ok (leftAfter ts k)

/-- What is left begins with the token whose turn it is, and one token less is left behind it. -/
theorem exists_leftAfter_eq (hne : ts ≠ []) (k : Nat) :
    ∃ t others, ts[min k (ts.length - 1)]? = some t ∧ leftAfter ts k = t :: others ∧
      leftAfter ts (k + 1) = if others = [] then [t] else others := by
  have hpos := List.length_pos_iff.mpr hne
  have hlt : min k (ts.length - 1) < ts.length := by omega
  refine ⟨ts[min k (ts.length - 1)], ts.drop (min k (ts.length - 1) + 1),
    List.getElem?_eq_getElem hlt, List.drop_eq_getElem_cons hlt, ?_⟩
  by_cases hlast : k < ts.length - 1
  · rw [if_neg (by rw [List.drop_eq_nil_iff]; omega), leftAfter]
    congr 1
    omega
  · -- the last token was read before, and is read again
    have hstays : min (k + 1) (ts.length - 1) = min k (ts.length - 1) := by omega
    have hnone : ts.drop (min k (ts.length - 1) + 1) = [] := List.drop_eq_nil_of_le (by omega)
    rw [if_pos hnone, leftAfter, hstays, List.drop_eq_getElem_cons hlt, hnone]

theorem HasRead.skip (h : HasRead ts k c) : HasRead ts k c.skip := by
  rw [HasRead, tokens_skip]
  exact h

theorem HasRead.next (h : HasRead ts k c) (hne : ts ≠ []) :
    (∃ t, ts[min k (ts.length - 1)]? = some t ∧ c.next.1 = .ok t) ∧
      HasRead ts (k + 1) c.next.2 := by
  obtain ⟨t, others, ht, hleft, hleft'⟩ := exists_leftAfter_eq hne k
  rw [HasRead, hleft] at h
  obtain ⟨hnext, hothers⟩ := next_of_tokens h
  exact ⟨⟨t, ht, hnext⟩, by rw [HasRead, hothers, hleft']⟩

/-- The cursor after a sequence of steps. -/
def afterAll (c : Cursor) (steps : List Step) : Cursor :=
  steps.foldl (fun c s => (c.perform s).2) c

/-- What comes of a step is told by the cursor after all steps in front of it. -/
theorem getElem?_performAll (c : Cursor) (before : List Step) (s : Step) (after : List Step) :
    (c.performAll (before ++ s :: after))[before.length]? = some ((c.afterAll before).perform s) := by
  induction before generalizing c with
  | nil => rfl
  | cons first before ih => exact ih (c.perform first).2

/-- **Steps in any order**: each token that is asked for has been read then, and no other. -/
theorem HasRead.afterAll (h : HasRead ts k c) (hne : ts ≠ [])
    (hbefore : ∀ s ∈ before, s = .next ∨ s = .skip) :
    HasRead ts (k + before.count .next) (c.afterAll before) := by
  induction before generalizing c k with
  | nil => exact h
  | cons s before ih =>
    rw [List.forall_mem_cons] at hbefore
    rcases hbefore.1 with rfl | rfl
    · have hall := ih (h.next hne).2 hbefore.2
      rwa [List.count_cons_self, Nat.add_comm _ 1, ← Nat.add_assoc]
    · have hall := ih h.skip hbefore.2
      rwa [List.count_cons_of_ne (by decide)]

/-- **Reading token by token sees the tokens of the text.** When tokens have been asked for one by
one, with blanks skipped anywhere in between, the next token is the one whose turn it is, and once
the end mark has been read it is read again and again. What is read at once is what is left. None of
these steps fails. -/
theorem performAll_reads (text : String) :
    ∃ ts, tokenize text = .ok ts ∧ ts ≠ [] ∧
      ∀ before after : List Step, (∀ s ∈ before, s = .next ∨ s = .skip) →
        let answer (s : Step) :=
          ((start text).performAll (before ++ s :: after))[before.length]?.map Prod.fst
        let read := min (before.count .next) (ts.length - 1)
        (∃ t, ts[read]? = some t ∧ answer .next = some (.ok (.token t))) ∧
          answer .skip = some (.ok .moved) ∧
          answer .tokens = some (.ok (.tokens (ts.drop read))) := by
  obtain ⟨ts, hts, hscans⟩ := (start text).tokens_scans
  have hne := hscans.ne_nil
  refine ⟨ts, hts, hne, fun before after hbefore => ?_⟩
  have hread : HasRead ts 0 (start text) := by
    rw [HasRead, hts, leftAfter, Nat.zero_min, List.drop_zero]
  have hall := hread.afterAll hne hbefore
  rw [Nat.zero_add] at hall
  obtain ⟨⟨t, ht, hnext⟩, -⟩ := hall.next hne
  simp only [getElem?_performAll, Option.map_some]
  refine ⟨⟨t, ht, ?_⟩, rfl, ?_⟩
  · rw [perform, hnext]
    rfl
  · rw [perform, hall]
    rfl

/-- Four tokens of `a\r\n)` are asked for, though it has three, with blanks skipped before, between and
behind them: then the end mark is read once more, and nothing else is left. -/
theorem performAll_reads_past :
    let before : List Step := [.skip, .next, .skip, .skip, .next, .next, .skip, .next]
    let last : Token := ⟨.eof, "", 4, 2, 2⟩
    let answer (s : Step) :=
      ((start "a\r\n)").performAll (before ++ [s]))[before.length]?.map Prod.fst
    (∀ s ∈ before, s = .next ∨ s = .skip) ∧
      answer .next = some (.ok (.token last)) ∧ answer .tokens = some (.ok (.tokens [last])) := by
  intro before last answer
  have hbefore : ∀ s ∈ before, s = .next ∨ s = .skip := by decide
  obtain ⟨ts, hts, -, hread⟩ := performAll_reads "a\r\n)"
  have htokens : tokenize "a\r\n)" =
      .ok [⟨.identifier, "a", 0, 1, 1⟩, ⟨.rightParen, ")", 3, 2, 1⟩, last] := by cbv
  rw [htokens, Except.ok.injEq] at hts
  subst hts
  obtain ⟨⟨t, ht, hnext⟩, -, htokens⟩ := hread before [] hbefore
  obtain rfl : last = t := Option.some.inj ht
  exact ⟨hbefore, hnext, htokens⟩

end Cursor

end TagFilter
