import TagFilter.Proofs.Grammar.Termination

/-!
# Where a rule starts and where it stops

Inside a list that ends with an end mark, each rule can be started at any token, and end marks may
stand before the last one. `Grammar.rule_eq_ok_iff` says what the rules answer in terms of the
tokens ahead; here the same is said in terms of places in the list, for all four phrases:

* `Phrase.read_eq_ok_iff` — the rule has passed tokens that its phrase derives, and the token that
  is current then does not go on with the phrase;
* `exists_place` — the tokens that were passed stand between the two places;
* `Phrase.read_stops_iff` — started at one place, the rule stops at another one with this filter if
  and only if the tokens between them are derived and the token at the second place does not go on.

No derivation is empty and none contains an end mark. So a rule that answers has passed a token, no
end mark among them, and it has left one at least.
-/

namespace TagFilter.Grammar

variable {ts ahead front rest : List Token} {kinds : List Token.Kind} {f : Filter} {i j : Nat}

/-! ### Places in a list of tokens -/

/-- What is ahead at any place still ends with the end mark. -/
theorem Ended.drop (h : Ended ts) (hi : i < ts.length) : Ended (ts.drop i) := by
  obtain ⟨us, e, rfl, he⟩ := h
  have hle : i ≤ us.length := by simpa [Nat.lt_succ_iff] using hi
  exact ⟨us.drop i, e, List.drop_append_of_le_length hle, he⟩

/-- Whether an operator goes on is told by the token at this place, and there has to be one. -/
theorem clear_drop_iff : Clear kinds (ts.drop j) ↔ ∃ t, ts[j]? = some t ∧ t.kind ∉ kinds := by
  constructor
  · rintro ⟨t, others, hdrop, ht⟩
    refine ⟨t, ?_, ht⟩
    rw [← List.head?_drop, hdrop, List.head?_cons]
  · rintro ⟨t, hget, ht⟩
    obtain ⟨hj, rfl⟩ := List.getElem?_eq_some_iff.mp hget
    rw [List.drop_eq_getElem_cons hj]
    exact .cons ht _

/-- **What is passed and what is left** is told by one place further behind: the tokens between the
two were passed, and the tokens ahead at the second one are left. -/
theorem exists_place (hfront : front ≠ []) (hrest : rest ≠ [])
    (hsplit : ts.drop i = front ++ rest) :
    ∃ j, i < j ∧ j < ts.length ∧ front = ts.extract i j ∧ rest = ts.drop j := by
  have hpassed : rest = ts.drop (i + front.length) := by
    rw [← List.drop_drop, hsplit, List.drop_left]
  refine ⟨i + front.length, ?_, ?_, ?_, hpassed⟩
  · have hpos := List.length_pos_iff.mpr hfront
    omega
  · rwa [hpassed, Ne, List.drop_eq_nil_iff, Nat.not_le] at hrest
  · rw [List.extract_eq_take_drop, Nat.add_sub_cancel_left, hsplit, List.take_left]

/-- The tokens ahead at a place are those up to a later place and those ahead there. -/
theorem drop_eq_extract_append (hij : i ≤ j) : ts.drop i = ts.extract i j ++ ts.drop j := by
  have hlater : ts.drop j = (ts.drop i).drop (j - i) := by
    rw [List.drop_drop, Nat.add_sub_cancel' hij]
  rw [List.extract_eq_take_drop, hlater, List.take_append_drop]

/-- A place is known by the tokens ahead there, as long as there are any. -/
theorem place_unique {j' : Nat} (hj : j < ts.length) (h : ts.drop j = ts.drop j') : j = j' := by
  have hlength := congrArg List.length h
  simp only [List.length_drop] at hlength
  omega

/-! ### The rules at a place -/

/-- **When a rule answers, and with what**: it has all the levels it can need. -/
theorem Phrase.read_eq_ok_iff (p : Phrase) (hended : Ended ahead) :
    p.read ahead = (.ok f, rest) ↔
      ∃ front, ahead = front ++ rest ∧ Derives p front f ∧ Clear p.goesOn rest := by
  rw [p.read_eq]
  exact rule_eq_ok_iff p hended (Nat.lt_succ_self _)

/-- Behind the last token there is nothing to read. -/
theorem Phrase.read_nil (p : Phrase) : p.read [] = (.error .noToken, []) := by
  cases p <;> rfl

/-- **An answer was read between two places.** -/
theorem Phrase.exists_place_of_read (p : Phrase) (hended : Ended ts)
    (hread : p.read (ts.drop i) = (.ok f, rest)) :
    ∃ j, i < j ∧ j < ts.length ∧ rest = ts.drop j ∧ Derives p (ts.extract i j) f ∧
      Clear p.goesOn (ts.drop j) := by
  have hi : i < ts.length := by
    by_contra hle
    rw [List.drop_eq_nil_of_le (Nat.le_of_not_lt hle), p.read_nil] at hread
    cases hread
  obtain ⟨front, hsplit, hfront, hclear⟩ := (p.read_eq_ok_iff (hended.drop hi)).mp hread
  obtain ⟨j, hij, hj, rfl, rfl⟩ := exists_place hfront.ne_nil hclear.ne_nil hsplit
  exact ⟨j, hij, hj, rfl, hfront, hclear⟩

/-- **Where a rule stops.** The list ends with an end mark, and the rule is started at any place. It
answers with this filter and has then come to that other place, if and only if its phrase derives
the tokens between the two with this filter and the token at the second place does not go on with
the phrase: behind a disjunction it is no operator of either sort, behind a conjunction no `AND`.
Every answer has such a place, it is behind the first one, and no end mark was passed on the way. -/
theorem Phrase.read_stops_iff (p : Phrase) (hended : Ended ts) (i : Nat) (f : Filter) :
    (∀ j, p.read (ts.drop i) = (.ok f, ts.drop j) ↔
        Derives p (ts.extract i j) f ∧ ∃ t, ts[j]? = some t ∧ t.kind ∉ p.goesOn) ∧
      ∀ rest, p.read (ts.drop i) = (.ok f, rest) →
        ∃ j, i < j ∧ j < ts.length ∧ rest = ts.drop j ∧ ∀ t ∈ ts.extract i j, t.kind ≠ .eof := by
  refine ⟨fun j => ⟨fun hread => ?_, ?_⟩, fun rest hread => ?_⟩
  · obtain ⟨j', -, hj', hplace, hderives, hclear⟩ := p.exists_place_of_read hended hread
    obtain rfl := place_unique hj' hplace.symm
    exact ⟨hderives, clear_drop_iff.mp hclear⟩
  · rintro ⟨hderives, hget⟩
    -- no derivation is empty, so the second place is behind the first one
    have hij : i < j := by
      by_contra hle
      exact hderives.ne_nil (by simp [Nat.sub_eq_zero_of_le (Nat.le_of_not_lt hle)])
    have hclear := clear_drop_iff.mpr hget
    have hj : j < ts.length := by simpa using hclear.ne_nil
    exact (p.read_eq_ok_iff (hended.drop (Nat.lt_trans hij hj))).mpr
      ⟨ts.extract i j, drop_eq_extract_append (Nat.le_of_lt hij), hderives, hclear⟩
  · obtain ⟨j, hij, hj, hrest, hderives, -⟩ := p.exists_place_of_read hended hread
    exact ⟨j, hij, hj, hrest, hderives.ne_eof⟩

/-- `x`, an end mark, `(a or not b) and c or` and another end mark. Started behind the first end
mark, the rule for conjunctions reads `(a or not b) and c` and stops in front of the last `or`,
where the rule for disjunctions never stops. -/
theorem Phrase.read_stops_iff_inside :
    let ts : List Token :=
      [⟨.identifier, "x", 0, 1, 1⟩, ⟨.eof, "", 1, 1, 2⟩, ⟨.leftParen, "(", 2, 1, 3⟩,
        ⟨.identifier, "a", 3, 1, 4⟩, ⟨.or, "or", 5, 1, 6⟩, ⟨.not, "not", 8, 1, 9⟩,
        ⟨.identifier, "b", 12, 1, 13⟩, ⟨.rightParen, ")", 13, 1, 14⟩, ⟨.and, "and", 15, 1, 16⟩,
        ⟨.identifier, "c", 19, 1, 20⟩, ⟨.or, "or", 21, 1, 22⟩, ⟨.eof, "", 23, 1, 24⟩]
    let f : Filter := .and (.or (.identifier "a") (.not (.identifier "b"))) (.identifier "c")
    Ended ts ∧ Phrase.conjunction.read (ts.drop 2) = (.ok f, ts.drop 10) ∧
      Derives .conjunction (ts.extract 2 10) f ∧
      ∀ g, Phrase.disjunction.read (ts.drop 2) ≠ (.ok g, ts.drop 10) := by
  intro ts f
  have hended : Ended ts := ⟨ts.dropLast, _, rfl, rfl⟩
  have hread : Phrase.conjunction.read (ts.drop 2) = (.ok f, ts.drop 10) := by cbv
  refine ⟨hended, hread, ?_, ?_⟩
  · exact (((Phrase.conjunction.read_stops_iff hended 2 f).1 10).mp hread).1
  · intro g hg
    -- a disjunction would go on with the `or` at this place
    obtain ⟨-, t, ht, hkind⟩ := ((Phrase.disjunction.read_stops_iff hended 2 g).1 10).mp hg
    obtain rfl := Option.some.inj ht
    exact hkind (by decide)

end TagFilter.Grammar
