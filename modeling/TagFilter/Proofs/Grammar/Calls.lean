import TagFilter.Proofs.Grammar.Chains

/-!
# Calls of the rules

The rules call one another, and nothing but the tokens ahead brings this to an end. `Returns`
follows the calls as they are made, with no bound on how many of them there are: a call that goes on
for ever has no derivation. It also tells how many calls of the rule for operands were nested in one
another at most, which is how deep the recursion went.

* `Call` — a rule, or the loop of a chain with what it has joined so far;
* `Returns` — what a call comes to, and how deep it went;
* `Returns.unique` — a call comes to one outcome only, and goes one way;
* `not_returns_last` — the calls that go on for ever. The last token is never passed, so that a
  `NOT` in the last place is looked at again and again, and so is an opening parenthesis.
-/

namespace TagFilter.Grammar

/-- What can be called. -/
inductive Call where
  | primary
  | negation
  | chain (c : Chain)
  /-- The loop of a chain, with the filter that it has joined so far. -/
  | loop (c : Chain) (left : Filter)

/-- The call of the rule for a phrase. -/
def Phrase.call : Phrase → Call
  | disjunction => .chain .or
  | conjunction => .chain .and
  | negation => .negation
  | primary => .primary

/-- What stands in parentheses is followed by the closing one. -/
def closing (inner : Outcome Filter) : Outcome Filter :=
  inner.andThen fun f rest => (require .rightParen unclosed rest).map fun _ => f

/-- `Returns call ahead o depth`: made in front of the tokens `ahead`, the call comes to the outcome
`o`. At most `depth` calls of the rule for operands were nested in one another on the way, and so
many were. -/
inductive Returns : Call → List Token → Outcome Filter → Nat → Prop where
  | identifier {t : Token} {others : List Token} (ht : t.kind = .identifier) :
    Returns .primary (t :: others) (.ok (.identifier t.value), advance (t :: others)) 1
  | parens {t : Token} {others : List Token} {o : Outcome Filter} {depth : Nat}
    (ht : t.kind = .leftParen)
    (inner : Returns (.chain .or) (advance (t :: others)) o depth) :
    Returns .primary (t :: others) (closing o) (depth + 1)
  | noOperand {t : Token} {others : List Token} (hword : t.kind ≠ .identifier)
    (hparen : t.kind ≠ .leftParen) :
    Returns .primary (t :: others) (.fault .operand t (t :: others)) 1
  | not {t : Token} {others : List Token} {o : Outcome Filter} {depth : Nat} (ht : t.kind = .not)
    (inner : Returns .negation (advance (t :: others)) o depth) :
    Returns .negation (t :: others) (o.map .not) depth
  | operand {t : Token} {others : List Token} {o : Outcome Filter} {depth : Nat}
    (ht : t.kind ≠ .not) (inner : Returns .primary (t :: others) o depth) :
    Returns .negation (t :: others) o depth
  | chain {c : Chain} {ahead rest : List Token} {f : Filter} {o : Outcome Filter}
    {depth depth' : Nat} (first : Returns c.operand.call ahead (.ok f, rest) depth)
    (loop : Returns (.loop c f) rest o depth') : Returns (.chain c) ahead o (max depth depth')
  | chainStops {c : Chain} {ahead rest : List Token} {stop : Stop} {depth : Nat}
    (first : Returns c.operand.call ahead (.error stop, rest) depth) :
    Returns (.chain c) ahead (.error stop, rest) depth
  | round {c : Chain} {left right : Filter} {t : Token} {others rest : List Token}
    {o : Outcome Filter} {depth depth' : Nat} (ht : t.kind = c.kind)
    (operand : Returns c.operand.call (advance (t :: others)) (.ok right, rest) depth)
    (loop : Returns (.loop c (c.join left right)) rest o depth') :
    Returns (.loop c left) (t :: others) o (max depth depth')
  | roundStops {c : Chain} {left : Filter} {t : Token} {others rest : List Token} {stop : Stop}
    {depth : Nat} (ht : t.kind = c.kind)
    (operand : Returns c.operand.call (advance (t :: others)) (.error stop, rest) depth) :
    Returns (.loop c left) (t :: others) (.error stop, rest) depth
  /-- The loop ends in front of a token that is not its operator. -/
  | leaves {c : Chain} {left : Filter} {t : Token} {others : List Token} (ht : t.kind ≠ c.kind) :
    Returns (.loop c left) (t :: others) (.ok left, t :: others) 0

/-- **A call comes to one outcome**, and it goes one way. -/
theorem Returns.unique {call : Call} {ahead : List Token} {o o' : Outcome Filter}
    {depth depth' : Nat} (h : Returns call ahead o depth) (h' : Returns call ahead o' depth') :
    o = o' ∧ depth = depth' := by
  -- what token is current, and whether the operand was found, leave one way to go on
  induction h generalizing o' depth' with
  | identifier ht =>
    cases h' with
    | identifier => exact ⟨rfl, rfl⟩
    | parens ht' _ => simp [ht] at ht'
    | noOperand hword _ => exact absurd ht hword
  | parens ht _ ih =>
    cases h' with
    | identifier ht' => simp [ht] at ht'
    | parens _ inner =>
      obtain ⟨rfl, rfl⟩ := ih inner
      exact ⟨rfl, rfl⟩
    | noOperand _ hparen => exact absurd ht hparen
  | noOperand hword hparen =>
    cases h' with
    | identifier ht => exact absurd ht hword
    | parens ht _ => exact absurd ht hparen
    | noOperand _ _ => exact ⟨rfl, rfl⟩
  | not ht _ ih =>
    cases h' with
    | not _ inner =>
      obtain ⟨rfl, rfl⟩ := ih inner
      exact ⟨rfl, rfl⟩
    | operand ht' _ => exact absurd ht ht'
  | operand ht _ ih =>
    cases h' with
    | not ht' _ => exact absurd ht' ht
    | operand _ inner => exact ih inner
  | chain _ _ ihfirst ihloop =>
    cases h' with
    | chain first loop =>
      obtain ⟨hfirst, rfl⟩ := ihfirst first
      cases hfirst
      obtain ⟨rfl, rfl⟩ := ihloop loop
      exact ⟨rfl, rfl⟩
    | chainStops first => cases (ihfirst first).1
  | chainStops _ ih =>
    cases h' with
    | chain first _ => cases (ih first).1
    | chainStops first => exact ih first
  | round ht _ _ ihoperand ihloop =>
    cases h' with
    | round _ operand loop =>
      obtain ⟨hoperand, rfl⟩ := ihoperand operand
      cases hoperand
      obtain ⟨rfl, rfl⟩ := ihloop loop
      exact ⟨rfl, rfl⟩
    | roundStops _ operand => cases (ihoperand operand).1
    | leaves ht' => exact absurd ht ht'
  | roundStops ht _ ih =>
    cases h' with
    | round _ operand _ => cases (ih operand).1
    | roundStops _ operand => exact ih operand
    | leaves ht' => exact absurd ht ht'
  | leaves ht =>
    cases h' with
    | round ht' _ _ => exact absurd ht' ht
    | roundStops ht' _ => exact absurd ht' ht
    | leaves _ => exact ⟨rfl, rfl⟩

/-! ### Calls that do not return -/

/-- The calls that go round in a circle in front of a `NOT` or an opening parenthesis that is the
last token. The rule for operands does so only in front of the parenthesis. -/
def Call.Circles (t : Token) : Call → Prop
  | primary => t.kind = .leftParen
  | negation => True
  | chain _ => True
  | loop _ _ => False

/-- Each call that goes round in a circle makes another one that does. -/
theorem Call.Circles.not_returns {t : Token} (ht : t.kind = .not ∨ t.kind = .leftParen)
    {call : Call} (hcall : call.Circles t) {o : Outcome Filter} {depth : Nat} :
    ¬ Returns call [t] o depth := by
  intro h
  generalize hahead : [t] = ahead at h
  induction h with
  | identifier hword =>
    obtain ⟨rfl, -⟩ := List.cons.inj hahead
    rw [hcall] at hword
    cases hword
  | noOperand _ hparen =>
    obtain ⟨rfl, -⟩ := List.cons.inj hahead
    exact hparen hcall
  | parens _ _ ih | not _ _ ih =>
    obtain ⟨rfl, rfl⟩ := List.cons.inj hahead
    exact ih trivial rfl
  | operand hnot _ ih =>
    obtain ⟨rfl, rfl⟩ := List.cons.inj hahead
    exact ih (ht.resolve_left hnot) rfl
  | @chain c _ _ _ _ _ _ _ _ ih _ | @chainStops c _ _ _ _ _ ih =>
    exact ih (by cases c <;> exact trivial) hahead
  | round _ _ _ _ _ | roundStops _ _ _ | leaves _ => exact hcall

/-- **A `NOT` or an opening parenthesis in the last place is looked at for ever.** The call does not
return, and the rule says so. -/
theorem not_returns_last {t : Token} (ht : t.kind = .not ∨ t.kind = .leftParen) :
    negation [t] = (.error .endless, [t]) ∧ ∀ o depth, ¬ Returns .negation [t] o depth := by
  have hcircles : Call.negation.Circles t := trivial
  refine ⟨?_, fun o depth => hcircles.not_returns ht⟩
  rcases ht with ht | ht
  · simp [negation, negationOf, ht]
  · simp [negation, levels, negationOf, primaryWithin, disjunctionOf, conjunctionOf, advance,
      Outcome.andThen, ht]

end TagFilter.Grammar
