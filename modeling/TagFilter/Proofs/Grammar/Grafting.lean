import TagFilter.Proofs.Filter.Leaves
import TagFilter.Proofs.Grammar.Sentence

/-!
# Putting tokens in the place of a pattern

The leaves of a derived filter are the patterns among its tokens, in the same order
(`Derives.leaves_eq`). If the token of one pattern is replaced by the tokens of any primary, the
filter of the primary is grafted in the place of that leaf, and nothing else changes
(`Derives.graft`).

The second is an induction on the derivation. A pattern stands in one operand of a chain, since the
operators of a chain are no patterns; `exists_link_of_mem` finds the operand, and `Grafts.chain`
puts the chain together again.
-/

namespace TagFilter

/-- The texts of the patterns among tokens. -/
def patterns (ts : List Token) : List String :=
  (ts.filter (·.kind = .identifier)).map Token.value

@[simp] theorem patterns_append (ts us : List Token) :
    patterns (ts ++ us) = patterns ts ++ patterns us := by simp [patterns]

theorem patterns_cons_of_identifier {t : Token} (ht : t.kind = .identifier) (ts : List Token) :
    patterns (t :: ts) = t.value :: patterns ts := by simp [patterns, ht]

theorem patterns_cons_of_ne {t : Token} (ht : t.kind ≠ .identifier) (ts : List Token) :
    patterns (t :: ts) = patterns ts := by simp [patterns, ht]

/-- A token of two lists stands in one of them. -/
theorem append_eq_append_cons_cases {α : Type} {xs ys before after : List α} {t : α}
    (h : xs ++ ys = before ++ t :: after) :
    (∃ back, xs = before ++ t :: back ∧ after = back ++ ys) ∨
      ∃ front, before = xs ++ front ∧ ys = front ++ t :: after := by
  rcases List.append_eq_append_iff.mp h with ⟨front, hbefore, hys⟩ | ⟨back, hxs, hback⟩
  · exact .inr ⟨front, hbefore, hys⟩
  · rcases List.cons_eq_append_iff.mp hback with ⟨rfl, hys⟩ | ⟨back, rfl, hafter⟩
    · exact .inr ⟨[], by simpa using hxs.symm, by simpa using hys⟩
    · exact .inl ⟨back, hxs, hafter⟩

/-- What holds of all items of a list holds if one of them is replaced by another. -/
theorem forall_mem_replaced {α : Type} {P : α → Prop} {front back : List α} {x y : α}
    (h : ∀ a ∈ front ++ x :: back, P a) (hy : P y) : ∀ a ∈ front ++ y :: back, P a := by
  rw [List.forall_mem_append, List.forall_mem_cons] at h ⊢
  exact ⟨h.1, hy, h.2.2⟩

namespace Grammar

open TagFilter.Filter (Joins joins_and joins_or)

variable {kind : Token.Kind} {join : Filter → Filter → Filter} {f g : Filter} {links : List Link}

/-! ### The leaves of a derivation -/

theorem leaves_joinAll (hjoin : Joins join) (f : Filter) (links : List Link) :
    (joinAll join f links).leaves = f.leaves ++ links.flatMap (·.filter.leaves) := by
  induction links generalizing f with
  | nil => simp
  | cons l links ih => simp [ih, hjoin.leaves_eq]

/-- The patterns among the links of a chain are the leaves of their operands. -/
theorem patterns_spelling (operators : ∀ l ∈ links, l.operator.kind ≠ .identifier)
    (operands : ∀ l ∈ links, l.filter.leaves = patterns l.tokens) :
    patterns (spelling links) = links.flatMap (·.filter.leaves) := by
  induction links with
  | nil => rfl
  | cons l links ih =>
    rw [List.forall_mem_cons] at operators operands
    rw [spelling_cons, patterns_cons_of_ne operators.1, patterns_append,
      ih operators.2 operands.2, List.flatMap_cons, operands.1]

/-- **The leaves are the patterns among the tokens**, in the same order. -/
theorem Derives.leaves_eq {p : Phrase} {ts : List Token} (h : Derives p ts f) :
    f.leaves = patterns ts := by
  induction h with
  | identifier ht => rw [patterns_cons_of_identifier ht]; rfl
  | parens hl _ hr ih =>
    rw [patterns_cons_of_ne (by simp [hl]), patterns_append, patterns_cons_of_ne (by simp [hr]), ih]
    exact (List.append_nil _).symm
  | operand _ ih => exact ih
  | not ht _ ih => rw [patterns_cons_of_ne (by simp [ht])]; exact ih
  | conjunction _ operators _ ih ihs =>
    rw [leaves_joinAll joins_and, patterns_append, ih,
      patterns_spelling (fun l hl => by simp [operators l hl]) ihs]
  | disjunction _ operators _ ih ihs =>
    rw [leaves_joinAll joins_or, patterns_append, ih,
      patterns_spelling (fun l hl => by simp [operators l hl]) ihs]

/-! ### Grafting in chains -/

/-- A leaf of the first operand of a chain is replaced there. -/
theorem graft_joinAll_first (hjoin : Joins join) {k : Nat} (hk : k < f.leaves.length) :
    (joinAll join f links).graft k g = joinAll join (f.graft k g) links := by
  induction links generalizing f with
  | nil => rfl
  | cons l links ih =>
    have hk' : k < (join f l.filter).leaves.length := by
      rw [hjoin.leaves_eq, List.length_append]
      omega
    rw [joinAll_cons, ih hk', hjoin.graft_left hk, joinAll_cons]

/-- A leaf of a link is replaced in that link. -/
theorem graft_joinAll_link (hjoin : Joins join) {front back : List Link} {l m : Link} {k : Nat}
    (hk : k < l.filter.leaves.length) (hm : m.filter = l.filter.graft k g) :
    (joinAll join f (front ++ l :: back)).graft ((joinAll join f front).leaves.length + k) g =
      joinAll join f (front ++ m :: back) := by
  have happend : ∀ n : Link, joinAll join f (front ++ n :: back) =
      joinAll join (join (joinAll join f front) n.filter) back := by
    intro n
    rw [joinAll, List.foldl_append]
    rfl
  have hk' : (joinAll join f front).leaves.length + k <
      (join (joinAll join f front) l.filter).leaves.length := by
    rw [hjoin.leaves_eq, List.length_append]
    omega
  rw [happend, happend, graft_joinAll_first hjoin hk', hjoin.graft_right, hm]

/-- A token that is no operator of the links stands in the operand of one of them. -/
theorem exists_link_of_mem {before after : List Token} {t : Token}
    (operators : ∀ l ∈ links, l.operator ≠ t) (h : spelling links = before ++ t :: after) :
    ∃ front l back before' after', links = front ++ l :: back ∧
      l.tokens = before' ++ t :: after' ∧ before = spelling front ++ l.operator :: before' ∧
      after = after' ++ spelling back := by
  induction links generalizing before with
  | nil => simp at h
  | cons l links ih =>
    rw [List.forall_mem_cons] at operators
    rw [spelling_cons] at h
    cases before with
    | nil => exact absurd (List.cons.inj h).1 operators.1
    | cons a before =>
      obtain ⟨rfl, hrest⟩ := List.cons.inj h
      rcases append_eq_append_cons_cases hrest with
        ⟨back, htokens, hafter⟩ | ⟨front, hbefore, hothers⟩
      · exact ⟨[], l, links, before, back, rfl, htokens, rfl, hafter⟩
      · obtain ⟨front', m, back, before', after', rfl, htokens, rfl, hafter⟩ :=
          ih operators.2 hothers
        exact ⟨l :: front', m, back, before', after', rfl, htokens, by simp [hbefore], hafter⟩

/-! ### Grafting in derivations -/

/-- Where `t` stands among the tokens of the phrase, the tokens `ds` may stand too, and `g` is then
in the place of the leaf that `t` spelled. -/
def Grafts (t : Token) (ds : List Token) (g : Filter) (p : Phrase) (ts : List Token) (f : Filter) :
    Prop :=
  ∀ ⦃before after : List Token⦄, ts = before ++ t :: after →
    Derives p (before ++ (ds ++ after)) (f.graft (patterns before).length g)

section

variable {p : Phrase} {t : Token} {ts ds before after : List Token}

/-- A pattern has as many leaves before its own as there are patterns before it. -/
theorem Derives.patterns_lt_leaves (h : Derives p (before ++ t :: after) f)
    (ht : t.kind = .identifier) : (patterns before).length < f.leaves.length := by
  rw [h.leaves_eq, patterns_append, patterns_cons_of_identifier ht]
  simp

/-- The patterns before a token of a link: those of the chain up to the link, and those before it in
the link. -/
theorem length_patterns_chain (hjoin : Joins join) {front : List Link} {operator : Token}
    (hkind : kind ≠ .identifier) (first : Derives p ts f)
    (operators : ∀ l ∈ front, l.operator.kind = kind)
    (operands : ∀ l ∈ front, Derives p l.tokens l.filter) (hoperator : operator.kind = kind) :
    (patterns (ts ++ (spelling front ++ operator :: before))).length =
      (joinAll join f front).leaves.length + (patterns before).length := by
  have hfront : patterns (spelling front) = front.flatMap (·.filter.leaves) :=
    patterns_spelling (fun l hl => by rw [operators l hl]; exact hkind)
      fun l hl => (operands l hl).leaves_eq
  rw [patterns_append, patterns_append, patterns_cons_of_ne (by rwa [hoperator]),
    leaves_joinAll hjoin, hfront, first.leaves_eq]
  simp [Nat.add_assoc]

namespace Grafts

theorem parens {l r : Token} (ht : t.kind = .identifier) (hl : l.kind = .leftParen)
    (h : Grafts t ds g .disjunction ts f) (hr : r.kind = .rightParen) :
    Grafts t ds g .primary (l :: (ts ++ [r])) f := by
  intro before after hts
  cases before with
  | nil =>
    obtain ⟨rfl, -⟩ := List.cons.inj hts
    simp [ht] at hl
  | cons a before =>
    obtain ⟨rfl, hinside⟩ := List.cons.inj hts
    rcases append_eq_append_cons_cases hinside with ⟨back, hback, rfl⟩ | ⟨front, -, hlast⟩
    · rw [patterns_cons_of_ne (by simp [hl]), List.cons_append, ← List.append_assoc ds,
        ← List.append_assoc before]
      exact .parens hl (h hback) hr
    · -- the pattern is not the closing parenthesis
      have hmem : t ∈ [r] := by simp [hlast]
      rw [List.mem_singleton.mp hmem, hr] at ht
      cases ht

theorem not {a : Token} (ht : t.kind = .identifier) (ha : a.kind = .not)
    (h : Grafts t ds g .negation ts f) : Grafts t ds g .negation (a :: ts) (.not f) := by
  intro before after hts
  cases before with
  | nil =>
    obtain ⟨rfl, -⟩ := List.cons.inj hts
    simp [ht] at ha
  | cons b before =>
    obtain ⟨rfl, hinner⟩ := List.cons.inj hts
    rw [patterns_cons_of_ne (by simp [ha])]
    exact .not ha (h hinner)

/-- A pattern of a chain is replaced in the operand it stands in. The operators stay, and so do the
other operands. -/
theorem chain (hjoin : Joins join) (hkind : kind ≠ .identifier) (ht : t.kind = .identifier)
    (first : Derives p ts f) (operators : ∀ l ∈ links, l.operator.kind = kind)
    (operands : ∀ l ∈ links, Derives p l.tokens l.filter) (hfirst : Grafts t ds g p ts f)
    (hoperands : ∀ l ∈ links, Grafts t ds g p l.tokens l.filter)
    (h : ts ++ spelling links = before ++ t :: after) :
    ∃ (us : List Token) (f' : Filter) (others : List Link),
      before ++ (ds ++ after) = us ++ spelling others ∧ Derives p us f' ∧
      (∀ l ∈ others, l.operator.kind = kind) ∧ (∀ l ∈ others, Derives p l.tokens l.filter) ∧
      joinAll join f' others = (joinAll join f links).graft (patterns before).length g := by
  rcases append_eq_append_cons_cases h with ⟨back, rfl, rfl⟩ | ⟨front, rfl, hlinks⟩
  · refine ⟨_, _, links, by simp, hfirst rfl, operators, operands, ?_⟩
    exact (graft_joinAll_first hjoin (first.patterns_lt_leaves ht)).symm
  · have hne : ∀ l ∈ links, l.operator ≠ t := by
      rintro l hl rfl
      exact hkind ((operators l hl).symm.trans ht)
    obtain ⟨front, l, behind, before, back, rfl, htokens, rfl, rfl⟩ :=
      exists_link_of_mem hne hlinks
    have hl : l ∈ front ++ l :: behind := by simp
    have hfront : ∀ n ∈ front, n ∈ front ++ l :: behind := fun n hn => by simp [hn]
    -- the link keeps its operator, and all other links are kept
    let m : Link := ⟨l.operator, before ++ (ds ++ back), l.filter.graft (patterns before).length g⟩
    refine ⟨ts, f, front ++ m :: behind, by simp [spelling, m], first,
      forall_mem_replaced operators (operators l hl),
      forall_mem_replaced operands (hoperands l hl htokens), ?_⟩
    have hplace : (patterns before).length < l.filter.leaves.length :=
      (htokens ▸ operands l hl).patterns_lt_leaves ht
    rw [length_patterns_chain hjoin hkind first (fun n hn => operators n (hfront n hn))
      (fun n hn => operands n (hfront n hn)) (operators l hl)]
    exact (graft_joinAll_link hjoin hplace rfl).symm

end Grafts

/-- **Tokens of a primary may stand for a pattern.** The filter of the primary is then grafted in
the place of the leaf that the pattern spelled. -/
theorem Derives.graft (h : Derives p ts f) (ht : t.kind = .identifier)
    (hds : Derives .primary ds g) : Grafts t ds g p ts f := by
  induction h with
  | @identifier a _ =>
    intro before after hts
    obtain ⟨rfl, -, rfl⟩ : before = [] ∧ t = a ∧ after = [] := by
      simpa [List.singleton_eq_append_iff] using hts
    simpa [patterns, Filter.graft] using hds
  | parens hl _ hr ih => exact ih.parens ht hl hr
  | operand _ ih => exact fun _ _ hts => .operand (ih hts)
  | not hk _ ih => exact ih.not ht hk
  | conjunction first operators operands ih ihs =>
    intro before after hts
    obtain ⟨us, f', others, hus, hfirst, hkinds, hothers, hjoin⟩ :=
      Grafts.chain joins_and (by simp) ht first operators operands ih ihs hts
    rw [hus, ← hjoin]
    exact .conjunction hfirst hkinds hothers
  | disjunction first operators operands ih ihs =>
    intro before after hts
    obtain ⟨us, f', others, hus, hfirst, hkinds, hothers, hjoin⟩ :=
      Grafts.chain joins_or (by simp) ht first operators operands ih ihs hts
    rw [hus, ← hjoin]
    exact .disjunction hfirst hkinds hothers

end

end Grammar

end TagFilter
