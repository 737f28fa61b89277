import TagFilter.Proofs.Division.Verdict
import TagFilter.Proofs.Grammar.Sites

/-!
# Parentheses that make no difference

A pair of parentheses can always be left out, and the tokens still spell a filter. It is the same
filter if and only if the pair is redundant (`Redundant`), which is told by the operators inside and
by the two tokens next to the pair (`Filter.ofTokens_unwrapped`).

The pair stands at a site (`Derives.found`). Without it the chain inside becomes part of the chains
around it: the operands inside a conjunction become operands of the conjunction outside, and the
first and the last operand of a disjunction grow by what stands beside the pair. So there is a
derivation at another site (`Site.exists_unwrapped`). That the filter is another one unless the pair
is redundant is no matter of luck: a filter that begins with an operand is larger than this operand
(`joinAll_join_ne`), and otherwise the nodes at the root differ.
-/

namespace TagFilter

open Grammar

/-- Between `before` and `after` the parentheses around `inside` make no difference. There is nothing
to be grouped; or there are `AND`s to be grouped, and no `NOT` or `AND` in front takes the first
operand away; or there are `OR`s to be grouped, they begin the disjunction around them, and no `AND`
behind takes the last operand away. -/
def Redundant (before inside after : List Token) : Prop :=
  (outermost .and inside = [] ∧ outermost .or inside = []) ∨
  (outermost .and inside ≠ [] ∧ outermost .or inside = [] ∧
    ∀ t ∈ before.getLast?, t.kind ≠ .not ∧ t.kind ≠ .and) ∨
  (outermost .or inside ≠ [] ∧ (∀ t ∈ before.getLast?, t.kind = .leftParen) ∧
    ∀ t ∈ after.head?, t.kind ≠ .and)

instance (before inside after : List Token) : Decidable (Redundant before inside after) :=
  inferInstanceAs (Decidable ((_ ∧ _) ∨ (_ ∧ _ ∧ _) ∨ (_ ∧ _ ∧ _)))

namespace Grammar

variable {c : Chain} {f f' g g' x y : Filter} {links : List Link} {m m' : Link} {nots : List Token}
  {ts before inside after front back rest : List Token} {l r : Token}

/-! ### Regrouped chains are other filters -/

/-- Where a disjunction spells the filter of a conjunction, the conjunction is that one operand, and
it is in parentheses. -/
theorem Slot.alone_of_fill_eq_or (slot : Slot .and) (h : slot.fill (negated nots g) = .or x y) :
    slot.before = none ∧ slot.behind = [] ∧ nots = [] := by
  have hbehind : slot.behind = [] := by
    by_contra hne
    obtain ⟨x', y', hroot⟩ := @exists_joinAll_eq .and (slot.joined (negated nots g)) _ hne
    cases hroot.symm.trans h
  rw [Slot.fill, hbehind, joinAll_nil, Slot.joined] at h
  split at h
  next hbefore =>
    cases nots with
    | nil => exact ⟨hbefore, hbehind, rfl⟩
    | cons t nots => cases h
  next => cases h

/-- **A conjunction is taken apart** without changing the filter only if nothing stands before its
first operand that would take it away. -/
theorem regroup_and (slot : Slot .and) (hlinks : links ≠ []) :
    joinAll .and (slot.joined (negated nots g)) links =
        slot.joined (negated nots (joinAll .and g links)) ↔
      slot.before = none ∧ nots = [] := by
  simp only [Slot.joined]
  split
  next hbefore =>
    cases nots with
    | nil => simp [negated, hbefore]
    | cons t nots =>
      -- taken apart it is a conjunction, and together it is a negation
      obtain ⟨x, y, hroot⟩ := @exists_joinAll_eq .and (negated (t :: nots) g) _ hlinks
      have hne : joinAll .and (negated (t :: nots) g) links ≠
          negated (t :: nots) (joinAll .and g links) := fun heq => by cases hroot.symm.trans heq
      simpa using hne
  next m hbefore =>
    exact iff_of_false (joinAll_join_ne (c := .and) hlinks) (by simp [hbefore])

/-- **A disjunction is taken apart** without changing the filter only if it is the first operand of
the disjunction around it, and the whole operand. -/
theorem regroup_or (outer : Slot .or) (inner : Slot .and)
    (hm : m'.filter = joinAll .and m.filter inner.behind) {cs : List Link} :
    joinAll .or (outer.joined (joinAll .and (inner.joined (negated nots g)) cs)) (links ++ [m']) =
        outer.joined (inner.fill (negated nots
          (joinAll .or (joinAll .and g cs) (links ++ [m])))) ↔
      outer.before = none ∧ inner.before = none ∧ nots = [] ∧ inner.behind = [] := by
  simp only [Slot.joined.eq_def outer]
  split
  next hbefore =>
    constructor
    · -- taken apart it is a disjunction, so together it must be one as well
      intro heq
      rw [joinAll_concat] at heq
      obtain ⟨hnone, hbehind, hnots⟩ := inner.alone_of_fill_eq_or heq.symm
      exact ⟨hbefore, hnone, hnots, hbehind⟩
    · rintro ⟨-, hnone, rfl, hbehind⟩
      rw [hbehind, joinAll_nil] at hm
      rw [joinAll_concat, hm, Slot.fill, hbehind]
      simp only [Slot.joined, hnone, negated, List.foldr_nil, joinAll_nil, joinAll_concat]
  next m hbefore =>
    exact iff_of_false (joinAll_join_ne (c := .or) (by simp)) (by simp [hbefore])

/-! ### Derivations without the pair -/

/-- The outermost operators of a chain are the operators of its links. -/
theorem outermost_chain (first : Derives c.operand ts f)
    (hlinks : ∀ m ∈ links, m.operator.kind = c.kind ∧ Derives c.operand m.tokens m.filter) :
    outermost c.kind (ts ++ spelling links) = links.map Link.operator := by
  have operators := fun m hm => (hlinks m hm).1
  have operands := fun m hm => (hlinks m hm).2
  cases c with
  | and => exact filter_exposed_chain (.inl rfl) (by decide) first operators operands
  | or => exact filter_exposed_chain (.inr rfl) (by decide) first operators operands

namespace Site

/-- What it means at a site that the parentheses around `inside` are redundant. -/
def Needless (s : Site) (inside : List Token) : Prop :=
  (outermost .and inside = [] ∧ outermost .or inside = []) ∨
  (outermost .and inside ≠ [] ∧ outermost .or inside = [] ∧
    s.inner.before = none ∧ s.nots = []) ∨
  (outermost .or inside ≠ [] ∧ s.outer.before = none ∧ s.inner.before = none ∧ s.nots = [] ∧
    s.inner.behind = [])

theorem needless_of_and (s : Site) (hand : outermost .and inside ≠ [])
    (hor : outermost .or inside = []) :
    s.Needless inside ↔ s.inner.before = none ∧ s.nots = [] := by
  simp [Needless, hand, hor]

theorem needless_of_or (s : Site) (hor : outermost .or inside ≠ []) :
    s.Needless inside ↔ s.outer.before = none ∧ s.inner.before = none ∧ s.nots = [] ∧
      s.inner.behind = [] := by
  simp [Needless, hor]

/-- The site of the first operand of a conjunction that has become part of the one around it. -/
def spread (s : Site) {cs : List Link}
    (hcs : ∀ n ∈ cs, n.operator.kind = .and ∧ Derives .negation n.tokens n.filter) : Site :=
  ⟨s.outer, s.inner.followedBy (cs ++ s.inner.behind)
    (List.forall_mem_append.mpr ⟨hcs, s.inner.behind_derives⟩), s.nots, s.nots_kind⟩

/-- Without the pair a conjunction becomes part of the conjunction around it. -/
theorem exists_unwrapped_conjunction (s : Site) (h : Derives .conjunction inside g) :
    ∃ f, Derives .disjunction (s.ahead ++ (inside ++ s.following)) f ∧
      (f = s.fill g ↔ s.Needless inside) := by
  have hor : outermost .or inside = [] := h.filter_exposed_eq_nil (by decide)
  obtain ⟨ts, a, cs, rfl, rfl, first, hcs⟩ := Chain.exists_links (c := .and) h
  by_cases hnil : cs = []
  · -- a negation stays where it is
    subst hnil
    rw [spelling_nil, List.append_nil] at hor ⊢
    have hand : outermost .and ts = [] := first.filter_exposed_eq_nil (by decide)
    exact ⟨s.fill a, s.derives first, iff_of_true rfl (.inl ⟨hand, hor⟩)⟩
  · have hand : outermost .and (ts ++ spelling cs) ≠ [] := by
      rw [show outermost .and (ts ++ spelling cs) = _ from outermost_chain (c := .and) first hcs]
      simpa using hnil
    have hderives := (s.spread hcs).derives first
    refine ⟨(s.spread hcs).fill a, ?_, ?_⟩
    · simpa [spread, ahead, following, spelling_append] using hderives
    · have hfill : (s.spread hcs).fill a = s.outer.fill (joinAll .and
          (joinAll .and (s.inner.joined (negated s.nots a)) cs) s.inner.behind) := by
        rw [← joinAll_append]
        rfl
      -- the links behind the pair and all that is farther out are the same on both sides
      calc (s.spread hcs).fill a = s.fill (joinAll .and a cs) ↔
          joinAll .and (joinAll .and (s.inner.joined (negated s.nots a)) cs) s.inner.behind =
            s.inner.fill (negated s.nots (joinAll .and a cs)) := by
            rw [hfill]
            exact s.outer.fill_inj
        _ ↔ joinAll .and (s.inner.joined (negated s.nots a)) cs =
            s.inner.joined (negated s.nots (joinAll .and a cs)) := joinAll_inj (c := .and)
        _ ↔ s.inner.before = none ∧ s.nots = [] := regroup_and s.inner hnil
        _ ↔ s.Needless (ts ++ spelling cs) := (s.needless_of_and hand hor).symm

/-- The last operand of a disjunction when the links behind the site are added to it. -/
def lastOperand (s : Site) (m : Link) : Link :=
  ⟨m.operator, m.tokens ++ spelling s.inner.behind, joinAll .and m.filter s.inner.behind⟩

theorem lastOperand_derives (s : Site)
    (hm : m.operator.kind = .or ∧ Derives .conjunction m.tokens m.filter) :
    (s.lastOperand m).operator.kind = .or ∧
      Derives .conjunction (s.lastOperand m).tokens (s.lastOperand m).filter :=
  ⟨hm.1, Chain.derives_append (c := .and) hm.2 s.inner.behind_derives⟩

/-- The site of the first operand of a disjunction that has become part of the one around it. The
links of this operand end at the next `OR`, and the links behind the pair are added to the last
operand. -/
def spreadOut (s : Site) {cs ds : List Link}
    (hcs : ∀ n ∈ cs, n.operator.kind = .and ∧ Derives .negation n.tokens n.filter)
    (hds : ∀ n ∈ ds, n.operator.kind = .or ∧ Derives .conjunction n.tokens n.filter)
    (hm : m.operator.kind = .or ∧ Derives .conjunction m.tokens m.filter) : Site :=
  ⟨s.outer.followedBy (ds ++ s.lastOperand m :: s.outer.behind)
      (List.forall_mem_append.mpr
        ⟨hds, List.forall_mem_cons.mpr ⟨s.lastOperand_derives hm, s.outer.behind_derives⟩⟩),
    s.inner.followedBy cs hcs, s.nots, s.nots_kind⟩

/-- Without the pair the first operand of a disjunction and its last one grow by what stands beside
the pair, and its other operands become operands of the disjunction around it. -/
theorem exists_unwrapped (s : Site) (h : Derives .disjunction inside g) :
    ∃ f, Derives .disjunction (s.ahead ++ (inside ++ s.following)) f ∧
      (f = s.fill g ↔ s.Needless inside) := by
  obtain ⟨us, b, ds, rfl, rfl, hconj, hds⟩ := Chain.exists_links (c := .or) h
  rcases List.eq_nil_or_concat' ds with rfl | ⟨ds, m, rfl⟩
  · -- a conjunction alone
    rw [spelling_nil, List.append_nil]
    exact s.exists_unwrapped_conjunction hconj
  · have hor : outermost .or (us ++ spelling (ds ++ [m])) ≠ [] := by
      rw [show outermost .or _ = _ from outermost_chain (c := .or) hconj hds]
      simp
    obtain ⟨ts, a, cs, rfl, rfl, first, hcs⟩ := Chain.exists_links (c := .and) hconj
    rw [List.forall_mem_append, List.forall_mem_singleton] at hds
    have hderives := (s.spreadOut hcs hds.1 hds.2).derives first
    refine ⟨(s.spreadOut hcs hds.1 hds.2).fill a, ?_, ?_⟩
    · simpa [spreadOut, lastOperand, ahead, following, spelling_append] using hderives
    · have hfill : (s.spreadOut hcs hds.1 hds.2).fill a = joinAll .or (joinAll .or
          (s.outer.joined (joinAll .and (s.inner.joined (negated s.nots a)) cs))
            (ds ++ [s.lastOperand m])) s.outer.behind := by
        rw [← joinAll_append, List.append_assoc]
        rfl
      -- what follows at the outer level is the same on both sides
      calc (s.spreadOut hcs hds.1 hds.2).fill a =
            s.fill (joinAll .or (joinAll .and a cs) (ds ++ [m])) ↔
          joinAll .or (s.outer.joined (joinAll .and (s.inner.joined (negated s.nots a)) cs))
              (ds ++ [s.lastOperand m]) =
            s.outer.joined (s.inner.fill (negated s.nots
              (joinAll .or (joinAll .and a cs) (ds ++ [m])))) := by
            rw [hfill]
            exact joinAll_inj (c := .or)
        _ ↔ s.outer.before = none ∧ s.inner.before = none ∧ s.nots = [] ∧ s.inner.behind = [] :=
          regroup_or s.outer s.inner rfl
        _ ↔ s.Needless (ts ++ spelling cs ++ spelling (ds ++ [m])) := (s.needless_of_or hor).symm

/-! ### The tokens next to the pair -/

/-- The token in front of the pair tells what stands in front of the site. -/
theorem last_cases (s : Site) (hfront : ∀ t ∈ front.getLast?, t.kind = .leftParen) :
    (s.nots ≠ [] ∧ ∃ t, (front ++ s.ahead).getLast? = some t ∧ t.kind = .not) ∨
    (s.nots = [] ∧ s.inner.before ≠ none ∧
      ∃ t, (front ++ s.ahead).getLast? = some t ∧ t.kind = .and) ∨
    (s.nots = [] ∧ s.inner.before = none ∧ s.outer.before ≠ none ∧
      ∃ t, (front ++ s.ahead).getLast? = some t ∧ t.kind = .or) ∨
    (s.nots = [] ∧ s.inner.before = none ∧ s.outer.before = none ∧
      ∀ t ∈ (front ++ s.ahead).getLast?, t.kind = .leftParen) := by
  obtain ⟨⟨outer, _, houter, _⟩, ⟨inner, _, hinner, _⟩, nots, hnots⟩ := s
  rcases List.eq_nil_or_concat' nots with rfl | ⟨nots, t, rfl⟩
  · cases inner with
    | some m => exact .inr (.inl ⟨rfl, by simp, m.operator, by simp [ahead, Slot.ahead],
        (hinner m rfl).1⟩)
    | none =>
      cases outer with
      | some m => exact .inr (.inr (.inl ⟨rfl, rfl, by simp, m.operator,
          by simp [ahead, Slot.ahead], (houter m rfl).1⟩))
      | none => exact .inr (.inr (.inr ⟨rfl, rfl, rfl, by simpa [ahead, Slot.ahead] using hfront⟩))
  · refine .inl ⟨by simp, t, ?_, hnots t (by simp)⟩
    simp [ahead, ← List.append_assoc]

/-- The token behind the pair tells whether links of the conjunction follow. -/
theorem head_following (s : Site) (hback : ∀ t ∈ back.head?, t.kind ≠ .and) :
    (∀ t ∈ (s.following ++ back).head?, t.kind ≠ .and) ↔ s.inner.behind = [] := by
  obtain ⟨⟨_, outer, _, houter⟩, ⟨_, inner, _, hinner⟩, _, _⟩ := s
  cases inner with
  | cons m inner =>
    have hkind := (hinner m List.mem_cons_self).1
    simpa [following, Chain.kind] using hkind
  | nil =>
    cases outer with
    | cons m outer =>
      have hkind := (houter m List.mem_cons_self).1
      simp [following, hkind, Chain.kind]
    | nil => simpa [following] using hback

/-- **The tokens next to the pair tell whether it is redundant**, since beyond the site there is
nothing or a parenthesis. -/
theorem redundant_iff (s : Site) (hfront : ∀ t ∈ front.getLast?, t.kind = .leftParen)
    (hback : ∀ t ∈ back.head?, t.kind ≠ .and) :
    Redundant (front ++ s.ahead) inside (s.following ++ back) ↔ s.Needless inside := by
  rw [Redundant, Needless, s.head_following hback]
  rcases s.last_cases hfront with ⟨hnots, t, ht, hkind⟩ | ⟨hnots, hinner, t, ht, hkind⟩ |
    ⟨hnots, hinner, houter, t, ht, hkind⟩ | ⟨hnots, hinner, houter, hlast⟩
  · simp [hnots, ht, hkind]
  · simp [hnots, hinner, ht, hkind]
  · simp [hnots, hinner, houter, ht, hkind]
  · have hneither : ∀ t ∈ (front ++ s.ahead).getLast?, t.kind ≠ .not ∧ t.kind ≠ .and := by
      intro t ht
      rw [hlast t ht]
      decide
    simp only [hnots, hinner, houter, true_and, and_true, eq_true hneither, eq_true hlast]

end Site

/-- **A pair can be left out of a derivation**, and the filter stays the same if and only if the
pair is redundant. -/
theorem Derives.exists_unwrapped (h : Derives .disjunction (before ++ l :: (inside ++ r :: after)) f)
    (hl : l.kind = .leftParen) (hr : r.kind = .rightParen) (hinside : Nested inside)
    (hrest : ∀ t ∈ rest.head?, t.kind ≠ .and) :
    ∃ f', Derives .disjunction (before ++ (inside ++ after)) f' ∧
      (f' = f ↔ Redundant before inside (after ++ rest)) := by
  obtain ⟨g, hg, hstands⟩ := h.found hl hr rfl hinside
  cases hstands with
  | site s _ =>
    -- beyond the site there is nothing in front, and `rest` behind
    obtain ⟨f', hf', hiff⟩ := s.exists_unwrapped hg
    have hredundant := @Site.redundant_iff inside [] rest s (by simp) hrest
    exact ⟨f', hf', hiff.trans hredundant.symm⟩
  | framed frame s =>
    -- beyond the site there are the parentheses of the frame
    obtain ⟨f', hf', hiff⟩ := s.exists_unwrapped hg
    refine ⟨frame.fill f', by simpa using frame.derives hf', ?_⟩
    have hredundant := @Site.redundant_iff inside (frame.front ++ [frame.opening])
      (frame.closing :: (frame.back ++ rest)) s (by simp [frame.opening_kind])
      (by simp [frame.closing_kind])
    rw [frame.fill_inj, hiff, ← hredundant]
    simp

end Grammar

namespace Filter

variable {f : Filter} {ts before inside after : List Token} {l r : Token}

/-- **Every pair of parentheses can be left out**, and what it was for can be told from the tokens. If
a list of tokens spells a filter, and `l` and `r` are partners in it, then the list without these two
spells a filter as well. It is the same filter if the pair is redundant, and another one if not. -/
theorem ofTokens_unwrapped (hl : l.kind = .leftParen) (hr : r.kind = .rightParen)
    (hinside : Nested inside)
    (h : ofTokens (before ++ l :: (inside ++ r :: after)) = .ok f) :
    ∃ f', ofTokens (before ++ (inside ++ after)) = .ok f' ∧
      (f' = f ↔ Redundant before inside after) := by
  obtain ⟨body, last, hts, hbody, hlast⟩ := closed_of_ok h
  rcases List.eq_nil_or_concat' after with rfl | ⟨after, t, rfl⟩
  · -- the list does not end with a parenthesis
    have hconcat : (before ++ l :: inside) ++ [r] = body ++ [last] := by simpa using hts
    obtain rfl : r = last := by simpa using (List.append_inj' hconcat rfl).2
    rw [hr] at hlast
    cases hlast
  · have hconcat : (before ++ l :: (inside ++ r :: after)) ++ [t] = body ++ [last] := by
      simpa using hts
    obtain ⟨rfl, hend⟩ := List.append_inj' hconcat rfl
    obtain rfl : t = last := by simpa using hend
    rw [hts, ofTokens_eq_ok_iff hbody hlast] at h
    have hrest : ∀ u ∈ [t].head?, u.kind ≠ .and := by simp [hlast]
    obtain ⟨f', hf', hiff⟩ := h.exists_unwrapped hl hr hinside hrest
    refine ⟨f', ?_, hiff⟩
    have hread := (ofTokens_eq_ok_iff hf'.ne_eof hlast f').mpr hf'
    simpa using hread

/-- `(a and b) and c` is a chain from the left without its parentheses as well; `a and (b and c)` is
none. -/
theorem ofTokens_unwrapped_chain :
    let a : Token := ⟨.identifier, "a", 0, 1, 1⟩
    let b : Token := ⟨.identifier, "b", 0, 1, 1⟩
    let c : Token := ⟨.identifier, "c", 0, 1, 1⟩
    let both : Token := ⟨.and, "and", 0, 1, 1⟩
    let l : Token := ⟨.leftParen, "(", 0, 1, 1⟩
    let r : Token := ⟨.rightParen, ")", 0, 1, 1⟩
    let last : Token := ⟨.eof, "", 0, 1, 1⟩
    ofTokens [a, both, b, both, c, last] = ofTokens [l, a, both, b, r, both, c, last] ∧
      ofTokens [a, both, b, both, c, last] ≠ ofTokens [a, both, l, b, both, c, r, last] := by
  intro a b c both l r last
  have hpair (t u : Token) (ht : t.kind = .identifier) (hu : u.kind = .identifier) :
      Nested [t, both, u] :=
    ((Nested.singleton (by simp [hu]) (by simp [hu])).cons (by decide) (by decide)).cons
      (by simp [ht]) (by simp [ht])
  constructor
  · have hwrapped : ofTokens ([] ++ l :: ([a, both, b] ++ r :: [both, c, last])) =
        .ok (.and (.and (.identifier "a") (.identifier "b")) (.identifier "c")) := by cbv
    obtain ⟨f', hf', hiff⟩ := ofTokens_unwrapped rfl rfl (hpair a b rfl rfl) hwrapped
    obtain rfl := hiff.mpr (by decide)
    exact hf'.trans hwrapped.symm
  · have hwrapped : ofTokens ([a, both] ++ l :: ([b, both, c] ++ r :: [last])) =
        .ok (.and (.identifier "a") (.and (.identifier "b") (.identifier "c"))) := by cbv
    obtain ⟨f', hf', hiff⟩ := ofTokens_unwrapped rfl rfl (hpair b c rfl rfl) hwrapped
    intro heq
    have hne : f' ≠ _ := fun h => absurd (hiff.mp h) (by decide)
    exact hne (Except.ok.inj (hf'.symm.trans (heq.trans hwrapped)))

end Filter

end TagFilter
