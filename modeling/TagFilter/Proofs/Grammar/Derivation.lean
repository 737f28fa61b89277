import TagFilter.Filter.Basic
import TagFilter.Token

/-!
# Derivations of the grammar

The grammar as a relation between phrases, tokens and filters, without any notion of reading:

* `Grammar.Phrase` — the four phrases, with the operators each of them would go on with
  (`Phrase.goesOn`);
* `Grammar.Link` — one more operand of a chain, with the operator in front of it;
* `Grammar.Derives` — the phrase can be rewritten into exactly these tokens, and the derivation
  spells this filter.

A repetition `( OR conjunction )*` is a list of links of any length. The filter of a chain is the
left fold over its links (`joinAll`), so the derivation itself fixes the tree, and precedence shows
only in which phrase may stand for an operand.

The lemmas say which tokens can stand in a derivation at all (`Derives.ne_eof`), how one begins
(`Derives.head_of_primary`) and that it never is empty (`Derives.ne_nil`).
-/

namespace TagFilter.Grammar

/-- The phrases of the grammar. -/
inductive Phrase where
  | disjunction
  | conjunction
  | negation
  | primary
  deriving DecidableEq, Repr

/-- The operators with which a phrase would go on instead of ending in front of them. -/
def Phrase.goesOn : Phrase → List Token.Kind
  | disjunction => [.or, .and]
  | conjunction => [.and]
  | negation => []
  | primary => []

/-- One more operand of a chain: the operator in front of it, the tokens of the operand and its
filter. -/
structure Link where
  operator : Token
  tokens : List Token
  filter : Filter

/-- The tokens that links add to a chain. -/
def spelling (links : List Link) : List Token := links.flatMap fun l => l.operator :: l.tokens

/-- The filter of a chain: every link joins its operand to all that stands before it. -/
def joinAll (join : Filter → Filter → Filter) (first : Filter) (links : List Link) : Filter :=
  links.foldl (fun left l => join left l.filter) first

/-- `Derives p ts f`: the phrase `p` derives the tokens `ts`, and this derivation spells `f`.

```
disjunction ::= conjunction ( OR conjunction )*
conjunction ::= negation ( AND negation )*
negation    ::= NOT negation | primary
primary     ::= IDENTIFIER | "(" disjunction ")"
```
-/
inductive Derives : Phrase → List Token → Filter → Prop where
  | identifier {t : Token} (ht : t.kind = .identifier) :
    Derives .primary [t] (.identifier t.value)
  /-- The parentheses leave no trace in the filter. -/
  | parens {l r : Token} {ts : List Token} {f : Filter} (hl : l.kind = .leftParen)
    (inner : Derives .disjunction ts f) (hr : r.kind = .rightParen) :
    Derives .primary (l :: (ts ++ [r])) f
  | operand {ts : List Token} {f : Filter} (inner : Derives .primary ts f) :
    Derives .negation ts f
  | not {t : Token} {ts : List Token} {f : Filter} (ht : t.kind = .not)
    (inner : Derives .negation ts f) : Derives .negation (t :: ts) (.not f)
  | conjunction {ts : List Token} {f : Filter} {links : List Link}
    (first : Derives .negation ts f) (operators : ∀ l ∈ links, l.operator.kind = .and)
    (operands : ∀ l ∈ links, Derives .negation l.tokens l.filter) :
    Derives .conjunction (ts ++ spelling links) (joinAll .and f links)
  | disjunction {ts : List Token} {f : Filter} {links : List Link}
    (first : Derives .conjunction ts f) (operators : ∀ l ∈ links, l.operator.kind = .or)
    (operands : ∀ l ∈ links, Derives .conjunction l.tokens l.filter) :
    Derives .disjunction (ts ++ spelling links) (joinAll .or f links)

/-! ### Chains -/

@[simp] theorem spelling_nil : spelling [] = [] := rfl

@[simp] theorem spelling_cons (l : Link) (links : List Link) :
    spelling (l :: links) = l.operator :: (l.tokens ++ spelling links) := by
  simp [spelling]

@[simp] theorem joinAll_nil (join : Filter → Filter → Filter) (first : Filter) :
    joinAll join first [] = first := rfl

@[simp] theorem joinAll_cons (join : Filter → Filter → Filter) (first : Filter) (l : Link)
    (links : List Link) :
    joinAll join first (l :: links) = joinAll join (join first l.filter) links := rfl

/-- What holds of the first operand of a chain and of all its links holds of all its tokens. -/
theorem forall_mem_chain {P : Token → Prop} {ts : List Token} {links : List Link}
    (first : ∀ t ∈ ts, P t) (operators : ∀ l ∈ links, P l.operator)
    (operands : ∀ l ∈ links, ∀ t ∈ l.tokens, P t) : ∀ t ∈ ts ++ spelling links, P t := by
  intro t ht
  rcases List.mem_append.mp ht with ht | ht
  · exact first t ht
  · obtain ⟨l, hl, ht⟩ := List.mem_flatMap.mp ht
    rcases List.mem_cons.mp ht with rfl | ht
    · exact operators l hl
    · exact operands l hl t ht

/-- A conjunction of one operand is that operand. -/
theorem Derives.conjunction_of_negation {ts : List Token} {f : Filter}
    (h : Derives .negation ts f) : Derives .conjunction ts f := by
  simpa using @Derives.conjunction ts f [] h (by simp) (by simp)

/-- A disjunction of one operand is that operand. -/
theorem Derives.disjunction_of_conjunction {ts : List Token} {f : Filter}
    (h : Derives .conjunction ts f) : Derives .disjunction ts f := by
  simpa using @Derives.disjunction ts f [] h (by simp) (by simp)

/-! ### Which tokens a derivation has -/

/-- **No derivation contains an end mark.** -/
theorem Derives.ne_eof {p : Phrase} {ts : List Token} {f : Filter} (h : Derives p ts f) :
    ∀ t ∈ ts, t.kind ≠ .eof := by
  induction h with
  | identifier ht => simp [ht]
  | parens hl _ hr ih =>
    intro t ht
    simp only [List.mem_cons, List.mem_append, List.not_mem_nil, or_false] at ht
    rcases ht with rfl | ht | rfl
    · simp [hl]
    · exact ih t ht
    · simp [hr]
  | operand _ ih => exact ih
  | not hk _ ih =>
    intro t ht
    rcases List.mem_cons.mp ht with rfl | ht
    · simp [hk]
    · exact ih t ht
  | conjunction _ hk _ ih ihs =>
    exact forall_mem_chain ih (fun l hl => by simp [hk l hl]) ihs
  | disjunction _ hk _ ih ihs =>
    exact forall_mem_chain ih (fun l hl => by simp [hk l hl]) ihs

/-- A primary begins with a pattern or with an opening parenthesis. -/
theorem Derives.head_of_primary {ts : List Token} {f : Filter} (h : Derives .primary ts f) :
    ∃ t us, ts = t :: us ∧ (t.kind = .identifier ∨ t.kind = .leftParen) := by
  cases h with
  | identifier ht => exact ⟨_, [], rfl, .inl ht⟩
  | parens hl _ _ => exact ⟨_, _, rfl, .inr hl⟩

/-- **No derivation is empty.** -/
theorem Derives.ne_nil {p : Phrase} {ts : List Token} {f : Filter} (h : Derives p ts f) :
    ts ≠ [] := by
  induction h with
  | identifier _ => simp
  | parens _ _ _ _ => simp
  | operand _ ih => exact ih
  | not _ _ _ => simp
  | conjunction _ _ _ ih _ => simp [ih]
  | disjunction _ _ _ ih _ => simp [ih]

end TagFilter.Grammar
