import TagFilter.Proofs.Division.Exposure
import TagFilter.Proofs.Document.RoundTrip
import TagFilter.Proofs.Grammar.Chains
import TagFilter.Proofs.Grammar.Invariance
import TagFilter.Proofs.Scanning.Words

/-!
# Depth and the number of operators

A filter that is read from a text is at most one level deeper than the text has operators, and
exactly that deep if the text is a plain chain: no parentheses, and one operator throughout. Texts
with up to 99 operators can therefore always be written out as documents, and longer plain chains
never can (`Filter.depth_of_operatorWords`).

* `Filter.operators`, `Filter.height_le` — every level of a filter but the last one takes an
  operator;
* `Grammar.Derives.operators_eq` — the operators of a filter are those among its tokens;
* `Grammar.Derives.height_eq` — with one operator and no parentheses none is wasted: a chain grows by
  one level with every operator, since its operands are leaves, and so does a run of `NOT`s.
-/

namespace TagFilter

open Grammar

namespace Filter

/-- The number of operators. -/
def operators : Filter → Nat
  | identifier _ => 0
  | and left right => left.operators + right.operators + 1
  | or left right => left.operators + right.operators + 1
  | not operand => operand.operators + 1

/-- **Every level but the last one takes an operator.** -/
theorem height_le (f : Filter) : f.height ≤ f.operators + 1 := by
  induction f with
  | identifier pattern => exact Nat.le_refl _
  | and left right ihl ihr | or left right ihl ihr =>
    simp only [height, operators]
    omega
  | not operand ih =>
    simp only [height, operators]
    omega

theorem height_pos (f : Filter) : 0 < f.height := by
  cases f <;> simp [height]

/-- A filter without operators is a leaf. -/
theorem height_of_operators_eq_zero {f : Filter} (h : f.operators = 0) : f.height = 1 := by
  have hle := f.height_le
  have hpos := f.height_pos
  omega

end Filter

namespace Grammar

variable {c : Chain} {f : Filter} {links : List Link} {ts : List Token}

/-- An operator stands one level above the deeper operand. -/
theorem Chain.height_join (c : Chain) (f g : Filter) :
    (c.join f g).height = max f.height g.height + 1 := by cases c <;> rfl

theorem Chain.operators_join (c : Chain) (f g : Filter) :
    (c.join f g).operators = f.operators + g.operators + 1 := by cases c <;> rfl

theorem Chain.isOperator_kind (c : Chain) : c.kind.isOperator = true := by cases c <;> rfl

/-- The number of operators among tokens. -/
def operatorTokens (ts : List Token) : Nat := ts.countP fun t => t.kind.isOperator

theorem operatorTokens_append (ts us : List Token) :
    operatorTokens (ts ++ us) = operatorTokens ts + operatorTokens us := List.countP_append

theorem operatorTokens_cons (t : Token) (ts : List Token) :
    operatorTokens (t :: ts) = operatorTokens ts + if t.kind.isOperator then 1 else 0 := by
  simp [operatorTokens, List.countP_cons]

/-- The tokens of an operand are tokens of its chain. -/
theorem mem_spelling {l : Link} {t : Token} (hl : l ∈ links) (ht : t ∈ l.tokens) :
    t ∈ spelling links := List.mem_flatMap.mpr ⟨l, hl, List.mem_cons_of_mem _ ht⟩

/-! ### Operators of derived filters -/

/-- The operators of a chain are those of its operands and those between them. -/
theorem operators_joinAll (operators : ∀ l ∈ links, l.operator.kind = c.kind)
    (operands : ∀ l ∈ links, l.filter.operators = operatorTokens l.tokens) :
    (joinAll c.join f links).operators = f.operators + operatorTokens (spelling links) := by
  induction links generalizing f with
  | nil => rfl
  | cons l links ih =>
    rw [List.forall_mem_cons] at operators operands
    have hoperator : l.operator.kind.isOperator = true := by
      rw [operators.1, c.isOperator_kind]
    rw [joinAll_cons, ih operators.2 operands.2, c.operators_join, spelling_cons,
      operatorTokens_cons, operatorTokens_append, if_pos hoperator, operands.1]
    omega

/-- **The operators of a filter are those among its tokens.** -/
theorem Derives.operators_eq {p : Phrase} (h : Derives p ts f) :
    f.operators = operatorTokens ts := by
  induction h with
  | identifier ht => simp [Filter.operators, operatorTokens, Token.Kind.isOperator, ht]
  | parens hl _ hr ih =>
    rw [operatorTokens_cons, operatorTokens_append, operatorTokens_cons, ih]
    simp [operatorTokens, Token.Kind.isOperator, hl, hr]
  | operand _ ih => exact ih
  | not ht _ ih =>
    rw [operatorTokens_cons, Filter.operators, ih]
    simp [Token.Kind.isOperator, ht]
  | conjunction _ operators _ ih ihs =>
    rw [operatorTokens_append, ← ih]
    exact operators_joinAll (c := .and) operators ihs
  | disjunction _ operators _ ih ihs =>
    rw [operatorTokens_append, ← ih]
    exact operators_joinAll (c := .or) operators ihs

/-! ### Plain chains -/

/-- A chain stays as deep as it has operators if its operands have none. -/
theorem height_joinAll (hf : f.height = f.operators + 1)
    (operands : ∀ l ∈ links, l.filter.operators = 0) :
    (joinAll c.join f links).height = (joinAll c.join f links).operators + 1 := by
  induction links generalizing f with
  | nil => exact hf
  | cons l links ih =>
    rw [List.forall_mem_cons] at operands
    refine ih ?_ operands.2
    rw [c.height_join, c.operators_join, operands.1,
      Filter.height_of_operators_eq_zero operands.1]
    omega

/-- A chain has no links if none of its tokens is an operator of it. -/
theorem links_eq_nil {kind other : Token.Kind} (operators : ∀ l ∈ links, l.operator.kind = kind)
    (hne : kind ≠ .identifier ∧ kind ≠ other)
    (h : ∀ t ∈ ts ++ spelling links, t.kind = .identifier ∨ t.kind = other) : links = [] := by
  cases links with
  | nil => rfl
  | cons l links =>
    have hl := operators l (by simp)
    rcases h l.operator (by simp) with hk | hk
    · exact absurd (hl.symm.trans hk) hne.1
    · exact absurd (hl.symm.trans hk) hne.2

/-- **With one operator and no parentheses no operator is wasted**: each one makes the filter deeper
by one level. The second half carries the induction: operands of a chain have no operators at all,
since they would need parentheses to have the operator of the chain. -/
theorem Derives.height_eq {p : Phrase} {kind : Token.Kind} (h : Derives p ts f)
    (hkind : kind.isOperator = true) (hplain : ∀ t ∈ ts, t.kind = .identifier ∨ t.kind = kind) :
    f.height = f.operators + 1 ∧ (kind ∈ p.hides → f.operators = 0) := by
  induction h with
  | identifier _ => exact ⟨rfl, fun _ => rfl⟩
  | parens hl _ _ _ =>
    -- a parenthesis is neither a pattern nor an operator
    rcases hplain _ List.mem_cons_self with hk | hk
    · simp [hl] at hk
    · rw [← hk, hl] at hkind
      cases hkind
  | operand _ ih => exact ih hplain
  | not ht _ ih =>
    rw [List.forall_mem_cons] at hplain
    obtain rfl : kind = .not := by simpa [ht, eq_comm] using hplain.1
    refine ⟨?_, by simp [Phrase.hides]⟩
    rw [Filter.height, Filter.operators, (ih hplain.2).1]
  | @conjunction ts f links _ operators _ ih ihs =>
    rw [List.forall_mem_append] at hplain
    have hfirst := ih hplain.1
    by_cases hand : kind = .and
    · subst hand
      have hoperands : ∀ l ∈ links, l.filter.operators = 0 := fun l hl =>
        (ihs l hl fun t ht => hplain.2 t (mem_spelling hl ht)).2 (by simp [Phrase.hides])
      exact ⟨height_joinAll (c := .and) hfirst.1 hoperands, by simp [Phrase.hides]⟩
    · obtain rfl : links = [] :=
        links_eq_nil operators ⟨by simp, Ne.symm hand⟩ (List.forall_mem_append.mpr hplain)
      refine ⟨hfirst.1, fun hhides => hfirst.2 ?_⟩
      simp_all [Phrase.hides]
  | @disjunction ts f links _ operators _ ih ihs =>
    rw [List.forall_mem_append] at hplain
    have hfirst := ih hplain.1
    refine ⟨?_, by simp [Phrase.hides]⟩
    by_cases hor : kind = .or
    · subst hor
      have hoperands : ∀ l ∈ links, l.filter.operators = 0 := fun l hl =>
        (ihs l hl fun t ht => hplain.2 t (mem_spelling hl ht)).2 (by simp [Phrase.hides])
      exact height_joinAll (c := .or) hfirst.1 hoperands
    · obtain rfl : links = [] :=
        links_eq_nil operators ⟨by simp, Ne.symm hor⟩ (List.forall_mem_append.mpr hplain)
      exact hfirst.1

end Grammar

/-! ### Texts -/

/-- The text has no parentheses, and all its operators are the same one. -/
structure PlainChain (lower : LowerCasing) (chs : List Char) : Prop where
  no_parens : ∀ c ∈ chs, isParen c = false
  one_operator : ∃ operator ∈ ["and", "or", "not"], ∀ word ∈ wordsOf chs,
    lower.isOperator word = true → lower.small (String.ofList word) = operator

/-- The tokens of a plain chain are patterns and one operator. -/
theorem PlainChain.exists_kind {lower : LowerCasing} {start : Nat} {chs : List Char}
    {ts : List Token} (h : PlainChain lower chs) (hscans : Scans start chs ts) :
    ∃ kind : Token.Kind, kind.isOperator = true ∧
      ∀ t ∈ ts, t.kind ≠ .eof → t.kind = .identifier ∨ t.kind = kind := by
  obtain ⟨operator, hoperator, hall⟩ := h.one_operator
  -- what is no pattern is an operator, and its small form is the one of all operators
  have hsmall : ∀ t ∈ ts, t.kind ≠ .eof → t.kind ≠ .identifier →
      WordKind lower t.value t.kind ∧ lower.small t.value = operator := by
    intro t ht heof hidentifier
    have hword := hscans.isWord_of_no_parens h.no_parens t ht heof
    have hkind := hscans.kind_of_isWord t ht hword
    have hmem : t.value.toList ∈ wordsOf chs := by
      rw [hscans.wordsOf_eq]
      exact List.mem_map_of_mem (List.mem_filter.mpr ⟨ht, hword⟩)
    have hisOperator : lower.isOperator t.value.toList = true := by
      rw [isOperator_iff, ← hkind]
      simpa [Token.isWord, hidentifier] using hword
    have heq := hall _ hmem hisOperator
    rw [String.ofList_toList] at heq
    exact ⟨(wordKind_iff ..).mpr hkind, heq⟩
  have hkind : ∃ kind : Token.Kind, kind.isOperator = true ∧
      ∀ (word : String) (k : Token.Kind), WordKind lower word k → lower.small word = operator →
        k = kind := by
    simp only [List.mem_cons, List.not_mem_nil, or_false] at hoperator
    rcases hoperator with rfl | rfl | rfl
    · exact ⟨.and, rfl, fun _ _ hk heq => hk.and_iff.mpr heq⟩
    · exact ⟨.or, rfl, fun _ _ hk heq => hk.or_iff.mpr heq⟩
    · exact ⟨.not, rfl, fun _ _ hk heq => hk.not_iff.mpr heq⟩
  obtain ⟨kind, hisOperator, hsame⟩ := hkind
  refine ⟨kind, hisOperator, fun t ht heof => or_iff_not_imp_left.mpr fun hidentifier => ?_⟩
  obtain ⟨hword, heq⟩ := hsmall t ht heof hidentifier
  exact hsame _ _ hword heq

namespace Filter

/-- The operators of a filter are those of its text. -/
theorem operators_of_parse {text : String} {f : Filter} (h : parse text = .ok f)
    (lower : LowerCasing) : f.operators = operatorWords lower text.toList := by
  obtain ⟨body, last, -, hlast, hscans, hderives⟩ := exists_of_parse h
  have hend : operatorTokens [last] = 0 := by
    simp [operatorTokens, Token.Kind.isOperator, hlast]
  calc f.operators = operatorTokens body := hderives.operators_eq
    _ = operatorTokens (body ++ [last]) := by rw [operatorTokens_append, hend, Nat.add_zero]
    _ = operatorWords lower text.toList := (hscans.operatorWords_eq lower).symm

/-- In a plain chain every operator is one more level. -/
theorem depth_of_plainChain {text : String} {f : Filter} {lower : LowerCasing}
    (h : parse text = .ok f) (hplain : PlainChain lower text.toList) :
    f.depth = operatorWords lower text.toList + 1 := by
  obtain ⟨body, last, -, -, hscans, hderives⟩ := exists_of_parse h
  obtain ⟨kind, hkind, htokens⟩ := hplain.exists_kind hscans
  have hbody : ∀ t ∈ body, t.kind = .identifier ∨ t.kind = kind := fun t ht =>
    htokens t (List.mem_append_left _ ht) (hderives.ne_eof t ht)
  rw [depth_eq_height, (hderives.height_eq hkind hbody).1, operators_of_parse h lower]

/-- **A filter is at most one level deeper than its text has operators**, and exactly that deep if
the text is a plain chain. Up to 99 operators it can therefore be written out in every layout, and
is read back; and every longer plain chain is refused as too deep. -/
theorem depth_of_operatorWords (lower : LowerCasing) {text : String} {f : Filter}
    (h : parse text = .ok f) :
    f.depth ≤ operatorWords lower text.toList + 1 ∧
      (PlainChain lower text.toList → f.depth = operatorWords lower text.toList + 1) ∧
      (operatorWords lower text.toList ≤ 99 → ∀ layout, ∃ document,
        f.write layout = .ok document ∧ ofText document = .ok f) ∧
      (PlainChain lower text.toList → 99 < operatorWords lower text.toList →
        ∀ layout, f.write layout = .error ⟨operatorWords lower text.toList + 1⟩) := by
  have hdepth : f.depth ≤ operatorWords lower text.toList + 1 := by
    rw [depth_eq_height, ← operators_of_parse h lower]
    exact f.height_le
  refine ⟨hdepth, depth_of_plainChain h, fun hfew layout => ?_, fun hplain hmany layout => ?_⟩
  · have hlimit : f.depth ≤ depthLimit := by
      rw [depthLimit]
      omega
    exact ⟨_, write_eq_ok hlimit, ofText_of_depth_le hlimit⟩
  · have heq := depth_of_plainChain h hplain
    have hlimit : depthLimit < f.depth := by
      rw [depthLimit]
      omega
    rw [write_eq_error hlimit, heq]

/-- A text with a hundred operators: `not not … a`. -/
def hundredNots : List Char := (List.replicate 100 ['n', 'o', 't', ' ']).flatten ++ ['a']

/-- A hundred operators are one too many. -/
theorem depth_of_operatorWords_hundred :
    ∃ f, parse (String.ofList hundredNots) = .ok f ∧
      PlainChain .latin (String.ofList hundredNots).toList ∧
      operatorWords .latin (String.ofList hundredNots).toList = 100 ∧
      f.depth = 101 ∧ ∀ layout, f.write layout = .error ⟨101⟩ := by
  have hparse : (parse (String.ofList hundredNots)).toOption =
      some (Nat.repeat not 100 (identifier "a")) := by
    rw [parse, tokenize, Cursor.start, String.toList_ofList]
    decide +kernel
  obtain ⟨f, hf⟩ : ∃ f, parse (String.ofList hundredNots) = .ok f := by
    cases h : parse (String.ofList hundredNots) with
    | ok f => exact ⟨f, rfl⟩
    | error r =>
      rw [h] at hparse
      cases hparse
  have hplain : PlainChain .latin (String.ofList hundredNots).toList := by
    rw [String.toList_ofList]
    have hparens : ∀ c ∈ hundredNots, isParen c = false := by
      intro c hc
      rcases List.mem_append.mp hc with hc | hc
      · obtain ⟨word, hword, hc⟩ := List.mem_flatten.mp hc
        rw [List.eq_of_mem_replicate hword] at hc
        simp only [List.mem_cons, List.not_mem_nil, or_false] at hc
        rcases hc with rfl | rfl | rfl | rfl <;> rfl
      · rw [List.mem_singleton.mp hc]
        rfl
    exact ⟨hparens, "not", by decide, by decide +kernel⟩
  have hcount : operatorWords .latin (String.ofList hundredNots).toList = 100 := by
    rw [String.toList_ofList]
    decide +kernel
  obtain ⟨-, hdepth, -, hrefused⟩ := depth_of_operatorWords .latin hf
  refine ⟨f, hf, hplain, hcount, ?_, fun layout => ?_⟩
  · rw [hdepth hplain, hcount]
  · rw [hrefused hplain (by rw [hcount]; decide) layout, hcount]

end Filter

end TagFilter
