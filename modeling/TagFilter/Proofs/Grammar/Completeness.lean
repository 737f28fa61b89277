import TagFilter.Grammar.Rules
import TagFilter.Proofs.Grammar.Derivation

/-!
# The rules read every derivation

If tokens can be derived from a phrase, the rule for that phrase reads exactly these tokens and
answers with the filter of the derivation, whatever comes after them (`Derives.read`). Two things
have to be said about what surrounds them:

* the current token after the derivation must not be an operator with which the phrase would go on
  (`Clear`). This is the whole of what a rule demands of its caller, and each caller grants it: a
  chain sees to it for its operands because the operators of the other chain bind less closely, and
  a closing parenthesis continues nothing;
* the rule needs as many levels as the tokens have opening parentheses, and one more (`openings`).

`chain_spelling` is the lemma about the loop that both chains share.
-/

namespace TagFilter.Grammar

/-- The rule that reads a phrase, given the rule for its innermost operands. -/
def Phrase.rule (operand : Rule Filter) : Phrase → Rule Filter
  | disjunction => disjunctionOf operand
  | conjunction => conjunctionOf operand
  | negation => negationOf operand
  | primary => operand

/-- There is a current token, and it is of none of the given kinds. -/
def Clear (kinds : List Token.Kind) (ahead : List Token) : Prop :=
  ∃ t rest, ahead = t :: rest ∧ t.kind ∉ kinds

/-- The number of opening parentheses. -/
def openings (ts : List Token) : Nat := ts.countP (·.kind = .leftParen)

@[simp] theorem openings_nil : openings [] = 0 := rfl

@[simp] theorem openings_append (ts us : List Token) :
    openings (ts ++ us) = openings ts + openings us := List.countP_append

@[simp] theorem openings_cons (t : Token) (ts : List Token) :
    openings (t :: ts) = openings ts + if t.kind = .leftParen then 1 else 0 := by
  simp [openings, List.countP_cons]

/-- Levels that are enough for a chain are enough for each of its operands. -/
theorem openings_lt_of_chain {ts : List Token} {links : List Link} {levels : Nat}
    (h : openings (ts ++ spelling links) < levels) :
    openings ts < levels ∧ ∀ l ∈ links, openings l.tokens < levels := by
  rw [openings_append] at h
  refine ⟨by omega, ?_⟩
  induction links with
  | nil => simp
  | cons l links ih =>
    rw [spelling_cons, openings_cons, openings_append] at h
    rw [List.forall_mem_cons]
    exact ⟨by omega, ih (by omega)⟩

/-! ### What is clear -/

theorem Clear.cons {kinds : List Token.Kind} {t : Token} (ht : t.kind ∉ kinds)
    (rest : List Token) : Clear kinds (t :: rest) := ⟨t, rest, rfl, ht⟩

theorem Clear.ne_nil {kinds : List Token.Kind} {ahead : List Token} (h : Clear kinds ahead) :
    ahead ≠ [] := by
  obtain ⟨t, rest, rfl, -⟩ := h
  simp

theorem Clear.mono {kinds others : List Token.Kind} {ahead : List Token}
    (h : Clear kinds ahead) (hsub : ∀ k ∈ others, k ∈ kinds) : Clear others ahead := by
  obtain ⟨t, rest, rfl, ht⟩ := h
  exact .cons (fun hk => ht (hsub _ hk)) rest

/-- In front of the links of a chain an operand ends, and so it does in front of what comes after
the chain. -/
theorem Clear.spelling_append {kinds : List Token.Kind} {kind : Token.Kind} {links : List Link}
    {rest : List Token} (hkind : kind ∉ kinds) (operators : ∀ l ∈ links, l.operator.kind = kind)
    (hrest : Clear kinds rest) : Clear kinds (spelling links ++ rest) := by
  cases links with
  | nil => simpa using hrest
  | cons l links =>
    rw [spelling_cons, List.cons_append]
    exact .cons (by rwa [operators l (by simp)]) _

/-! ### Steps with a token ahead -/

/-- If a token follows, the current one is passed. -/
theorem advance_cons (t : Token) {ahead : List Token} (h : ahead ≠ []) :
    advance (t :: ahead) = ahead := by
  cases ahead with
  | nil => exact absurd rfl h
  | cons u ahead => rfl

theorem negationOf_not {operand : Rule Filter} {t : Token} {ahead : List Token}
    (ht : t.kind = .not) (h : ahead ≠ []) :
    negationOf operand (t :: ahead) = (negationOf operand ahead).map .not := by
  cases ahead with
  | nil => exact absurd rfl h
  | cons u ahead => simp [negationOf, ht]

theorem negationOf_of_ne_not {operand : Rule Filter} {t : Token} {ahead : List Token}
    (ht : t.kind ≠ .not) : negationOf operand (t :: ahead) = operand (t :: ahead) := by
  cases ahead <;> simp [negationOf, ht]

/-- A chain ends in front of a token that is not its operator. -/
theorem chain_of_clear {kind : Token.Kind} {join : Filter → Filter → Filter}
    {operand : Rule Filter} {left : Filter} {ahead : List Token} (h : Clear [kind] ahead) :
    chain kind join operand left ahead = (.ok left, ahead) := by
  obtain ⟨t, rest, rfl, ht⟩ := h
  rw [chain, if_neg (by simpa using ht)]

/-- One round of a chain: behind the operator an operand is read, and the chain goes on with what
that leaves. -/
theorem chain_step {kind : Token.Kind} {join : Filter → Filter → Filter} {operand : Rule Filter}
    {left right : Filter} {t : Token} {ahead rest : List Token} (ht : t.kind = kind)
    (hahead : ahead ≠ []) (hread : operand ahead = (.ok right, rest))
    (hrest : rest.length ≤ ahead.length) :
    chain kind join operand left (t :: ahead) =
      chain kind join operand (join left right) rest := by
  rw [chain, if_pos ht, advance_cons t hahead, hread]
  simp only
  rw [if_pos (by omega)]

/-- **A chain reads its links.** If every operand is read in front of what its chain may put
there, the loop joins all of them to the filter it starts with. -/
theorem chain_spelling {kind : Token.Kind} {join : Filter → Filter → Filter}
    {operand : Rule Filter} {kinds : List Token.Kind} (hkind : kind ∉ kinds) {links : List Link}
    (operators : ∀ l ∈ links, l.operator.kind = kind)
    (operands : ∀ l ∈ links, ∀ rest, Clear kinds rest →
      operand (l.tokens ++ rest) = (.ok l.filter, rest))
    {rest : List Token} (hrest : Clear (kind :: kinds) rest) (left : Filter) :
    chain kind join operand left (spelling links ++ rest) = (.ok (joinAll join left links), rest) := by
  have hclear : Clear kinds rest := hrest.mono fun k hk => List.mem_cons_of_mem _ hk
  induction links generalizing left with
  | nil => simpa using chain_of_clear (hrest.mono (by simp))
  | cons l links ih =>
    have hnext : Clear kinds (spelling links ++ rest) :=
      hclear.spelling_append hkind fun k hk => operators k (List.mem_cons_of_mem _ hk)
    have hread := operands l (by simp) _ hnext
    rw [spelling_cons, List.cons_append, List.append_assoc, joinAll_cons,
      chain_step (operators l (by simp)) (by simp [hnext.ne_nil]) hread (by simp)]
    exact ih (fun k hk => operators k (List.mem_cons_of_mem _ hk))
      (fun k hk => operands k (List.mem_cons_of_mem _ hk)) (join left l.filter)

/-- A first operand and a chain behind it are read as a whole, if every operand is read in front of
what the chain may put there. -/
theorem andThen_chain {kind : Token.Kind} {join : Filter → Filter → Filter}
    {operand : Rule Filter} {kinds : List Token.Kind} (hkind : kind ∉ kinds) {ts : List Token}
    {f : Filter} {links : List Link}
    (first : ∀ rest, Clear kinds rest → operand (ts ++ rest) = (.ok f, rest))
    (operators : ∀ l ∈ links, l.operator.kind = kind)
    (operands : ∀ l ∈ links, ∀ rest, Clear kinds rest →
      operand (l.tokens ++ rest) = (.ok l.filter, rest))
    {rest : List Token} (hrest : Clear (kind :: kinds) rest) :
    (operand (ts ++ spelling links ++ rest)).andThen (chain kind join operand) =
      (.ok (joinAll join f links), rest) := by
  have hclear : Clear kinds rest := hrest.mono fun k hk => List.mem_cons_of_mem _ hk
  rw [List.append_assoc, first _ (hclear.spelling_append hkind operators)]
  exact chain_spelling hkind operators operands hrest f

/-! ### Reading derivations -/

/-- **Every derivation is read.** In front of a token that does not go on with the phrase, its rule
takes the derived tokens, leaves the others and answers with the filter of the derivation. -/
theorem Derives.read {p : Phrase} {ts : List Token} {f : Filter} (h : Derives p ts f) :
    ∀ {levels : Nat} {rest : List Token}, openings ts < levels → Clear p.goesOn rest →
      p.rule (primaryWithin levels) (ts ++ rest) = (.ok f, rest) := by
  induction h with
  | identifier ht =>
    intro levels rest hlevels hrest
    obtain ⟨levels, rfl⟩ : ∃ n, levels = n + 1 := ⟨levels - 1, by omega⟩
    simp [Phrase.rule, primaryWithin, ht, advance_cons _ hrest.ne_nil]
  | @parens l r ts f hl _ hr ih =>
    intro levels rest hlevels hrest
    obtain ⟨levels, rfl⟩ : ∃ n, levels = n + 1 := ⟨levels - 1, by omega⟩
    have hopen : openings ts < levels := by simp [hl, hr] at hlevels; omega
    -- the closing parenthesis is what the inner disjunction has to end in front of
    have hread := ih hopen (Clear.cons (t := r) (by simp [hr, Phrase.goesOn]) rest)
    simp only [Phrase.rule] at hread
    simp [Phrase.rule, primaryWithin, hl, advance_cons, hread, Outcome.andThen, require, hr,
      hrest.ne_nil, Outcome.map, Except.map]
  | operand inner ih =>
    intro levels rest hlevels hrest
    obtain ⟨t, us, rfl, ht⟩ := inner.head_of_primary
    have hnot : t.kind ≠ .not := by rcases ht with h | h <;> simp [h]
    have hread := ih hlevels hrest
    simp only [Phrase.rule, List.cons_append] at hread ⊢
    rw [negationOf_of_ne_not hnot, hread]
  | @not t ts f ht _ ih =>
    intro levels rest hlevels hrest
    have hopen : openings ts < levels := by simp [ht] at hlevels; exact hlevels
    have hread := ih hopen hrest
    simp only [Phrase.rule, List.cons_append] at hread ⊢
    rw [negationOf_not ht (by simp [hrest.ne_nil]), hread]
    rfl
  | @conjunction ts f links _ operators _ ih ihs =>
    intro levels rest hlevels hrest
    obtain ⟨hfirst, hopen⟩ := openings_lt_of_chain hlevels
    exact andThen_chain (by simp [Phrase.goesOn]) (fun _ => ih hfirst) operators
      (fun l hl _ => ihs l hl (hopen l hl)) hrest
  | @disjunction ts f links _ operators _ ih ihs =>
    intro levels rest hlevels hrest
    obtain ⟨hfirst, hopen⟩ := openings_lt_of_chain hlevels
    exact andThen_chain (by simp [Phrase.goesOn]) (fun _ => ih hfirst) operators
      (fun l hl _ => ihs l hl (hopen l hl)) hrest

end TagFilter.Grammar
