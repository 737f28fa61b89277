import TagFilter.Proofs.Grammar.Sentence

/-!
# One scan that counts parentheses

A verdict on tokens that needs no recursion: one scan from left to right remembers how many
parentheses are open and whether an operand or an operator is due.

* `Tally`, `Tally.step` — what the scan remembers, and what one token does to it, or the report that
  the token deserves;
* `scan` — the whole scan. An end mark in the first place has a report of its own;
* `Tally.Passes`, `Tally.Stuck` — the scan passes tokens, and it is stuck at one. Every token is
  passed or the scan is stuck at it (`Tally.step_or_stuck`), and it is stuck at one place only
  (`Tally.Stuck.unique`).

What the report of a stuck scan says is written out in `Tally.step`. It is the report on what the
grammar finds wrong (`Tally.cause`), which depends on the tally alone: an operand is wanted, or the
closing parenthesis, or nothing at all.
-/

namespace TagFilter

namespace Grammar

/-- What has to come next. -/
inductive Due where
  | operand
  | operator
  deriving DecidableEq, Repr

/-- What the scan remembers. -/
structure Tally where
  /-- The number of open parentheses. -/
  depth : Nat
  due : Due
  deriving DecidableEq, Repr

/-- A report at a token: the message, what was wanted, what was found there, and where. -/
def refuse {α : Type} (message wanted : String) (t : Token) : Except Diagnostic α :=
  .error ⟨.grammar (some wanted) (some t.label), message, some t.position, some t.line,
    some t.column⟩

namespace Tally

/-- One token. -/
def step (s : Tally) (t : Token) : Except Diagnostic Tally :=
  match s.due, t.kind with
  | .operand, .not => .ok s
  | .operand, .leftParen => .ok ⟨s.depth + 1, .operand⟩
  | .operand, .identifier => .ok ⟨s.depth, .operator⟩
  | .operand, .and | .operand, .or =>
    refuse ("Unexpected '" ++ t.value ++ "': missing left operand") "identifier or \"(\"" t
  | .operand, .rightParen =>
    refuse "Unexpected ')': missing opening parenthesis or expression" "identifier or \"(\"" t
  | .operand, .eof =>
    refuse "Unexpected end of input: expected identifier or \"(\"" "identifier or \"(\"" t
  | .operator, .and | .operator, .or => .ok ⟨s.depth, .operand⟩
  | .operator, kind =>
    match s.depth with
    | 0 =>
      if kind = .eof then .ok s
      else refuse ("Unexpected token '" ++ t.value ++ "'") "end of expression" t
    | depth + 1 =>
      if kind = .rightParen then .ok ⟨depth, .operator⟩
      else refuse "Expected ')' after expression" "RIGHT_PAREN" t

/-- Nothing is open, and an operand is due. -/
def start : Tally := ⟨0, .operand⟩

end Tally

/-- The scan of a list of tokens: it passes, or it ends with a report. -/
def scan (ts : List Token) : Except Diagnostic Unit :=
  match ts with
  | [] => .ok ()
  | t :: _ =>
    if t.kind = .eof then refuse "Unexpected end of input: expected expression" "expression" t
    else (ts.foldlM Tally.step Tally.start).map fun _ => ()

/-! ### Passing tokens -/

namespace Tally

/-- The scan passes the tokens and comes from one tally to another. -/
def Passes (s : Tally) (ts : List Token) (u : Tally) : Prop := ts.foldlM step s = .ok u

/-- What the grammar finds wrong where the scan is stuck: an operand is wanted, or the closing
parenthesis, or nothing at all. -/
def cause (s : Tally) : Cause :=
  match s.due with
  | .operand => .operand
  | .operator => if s.depth = 0 then .trailing else .wanted .rightParen unclosed

/-- The scan cannot pass this token; its report is the one of the grammar. -/
def Stuck (s : Tally) (t : Token) : Prop := s.step t = .error (Fault.mk s.cause t).diagnostic

variable {s u v : Tally} {t : Token} {ts us : List Token}

theorem Passes.nil (s : Tally) : Passes s [] s := rfl

theorem passes_cons_iff : Passes s (t :: ts) u ↔ ∃ v, s.step t = .ok v ∧ Passes v ts u := by
  rw [Passes, List.foldlM_cons]
  cases h : s.step t with
  | error d => simp [bind, Except.bind]
  | ok v => simp [bind, Except.bind, Passes]

theorem Passes.cons (h : s.step t = .ok v) (hts : Passes v ts u) : Passes s (t :: ts) u :=
  passes_cons_iff.mpr ⟨v, h, hts⟩

theorem passes_append_iff : Passes s (ts ++ us) u ↔ ∃ v, Passes s ts v ∧ Passes v us u := by
  induction ts generalizing s with
  | nil => simp [Passes, pure, Except.pure]
  | cons t ts ih =>
    rw [List.cons_append, passes_cons_iff]
    constructor
    · rintro ⟨w, hw, h⟩
      obtain ⟨v, hv, hus⟩ := ih.mp h
      exact ⟨v, .cons hw hv, hus⟩
    · rintro ⟨v, h, hus⟩
      obtain ⟨w, hw, hv⟩ := passes_cons_iff.mp h
      exact ⟨w, hw, ih.mpr ⟨v, hv, hus⟩⟩

theorem Passes.append (h : Passes s ts v) (h' : Passes v us u) : Passes s (ts ++ us) u :=
  passes_append_iff.mpr ⟨v, h, h'⟩

/-- The scan is a function of the tokens passed. -/
theorem Passes.unique (h : Passes s ts u) (h' : Passes s ts v) : u = v :=
  Except.ok.inj (h.symm.trans h')

/-- **Every token is passed or the scan is stuck at it**, and where it is stuck the report is the
one of the grammar. -/
theorem step_or_stuck (s : Tally) (t : Token) : (∃ u, s.step t = .ok u) ∨ Stuck s t := by
  obtain ⟨depth, due⟩ := s
  obtain ⟨kind, value, position, line, column⟩ := t
  cases due with
  | operand =>
    cases kind with
    | identifier | not | leftParen => exact .inl ⟨_, rfl⟩
    | and | or | rightParen | eof => exact .inr rfl
  | operator =>
    cases depth with
    | zero =>
      cases kind with
      | and | or | eof => exact .inl ⟨_, rfl⟩
      | identifier | not | leftParen | rightParen => exact .inr rfl
    | succ depth =>
      cases kind with
      | and | or | rightParen => exact .inl ⟨_, rfl⟩
      | identifier | not | leftParen | eof => exact .inr rfl

/-- A token that is passed is none at which the scan is stuck. -/
theorem Stuck.not_step (h : Stuck s t) : s.step t ≠ .ok u := by
  rw [h]
  simp

theorem stuck_of_step_ne (h : ∀ u, s.step t ≠ .ok u) : Stuck s t := by
  refine (step_or_stuck s t).resolve_left ?_
  rintro ⟨u, hu⟩
  exact h u hu

/-- A run that passes more tokens has passed the first ones without being stuck. -/
theorem Stuck.not_passes {rest : List Token} (h : Passes s ts u) (ht : Stuck u t) :
    ¬ Passes s (ts ++ t :: rest) v := by
  intro hall
  obtain ⟨w, hts, hrest⟩ := passes_append_iff.mp hall
  obtain rfl := hts.unique h
  obtain ⟨w', hstep, -⟩ := passes_cons_iff.mp hrest
  exact ht.not_step hstep

/-- **The scan is stuck at one place.** Two runs over the same tokens end at the same token. -/
theorem Stuck.unique {front front' rest rest' : List Token} {t' : Token} {u' : Tally}
    (h : Passes s front u) (ht : Stuck u t) (h' : Passes s front' u') (ht' : Stuck u' t')
    (hts : front ++ t :: rest = front' ++ t' :: rest') : front = front' ∧ t = t' ∧ u = u' := by
  rcases List.append_eq_append_iff.mp hts with ⟨more, rfl, hmore⟩ | ⟨more, rfl, hmore⟩
  · cases more with
    | nil =>
      rw [List.append_nil] at h'
      exact ⟨by simp, (List.cons.inj hmore).1, h.unique h'⟩
    | cons a more =>
      obtain ⟨rfl, -⟩ := List.cons.inj hmore
      exact absurd h' (ht.not_passes h)
  · cases more with
    | nil =>
      rw [List.append_nil] at h
      exact ⟨by simp, (List.cons.inj hmore).1.symm, h.unique h'⟩
    | cons a more =>
      obtain ⟨rfl, -⟩ := List.cons.inj hmore
      exact absurd h (ht'.not_passes h')

end Tally

/-! ### What is passed, and what is not -/

namespace Tally

variable {t : Token}

theorem step_not (ht : t.kind = .not) (depth : Nat) :
    step ⟨depth, .operand⟩ t = .ok ⟨depth, .operand⟩ := by simp [step, ht]

theorem step_leftParen (ht : t.kind = .leftParen) (depth : Nat) :
    step ⟨depth, .operand⟩ t = .ok ⟨depth + 1, .operand⟩ := by simp [step, ht]

theorem step_identifier (ht : t.kind = .identifier) (depth : Nat) :
    step ⟨depth, .operand⟩ t = .ok ⟨depth, .operator⟩ := by simp [step, ht]

theorem step_operator (ht : t.kind = .and ∨ t.kind = .or) (depth : Nat) :
    step ⟨depth, .operator⟩ t = .ok ⟨depth, .operand⟩ := by
  rcases ht with ht | ht <;> simp [step, ht]

theorem step_rightParen (ht : t.kind = .rightParen) (depth : Nat) :
    step ⟨depth + 1, .operator⟩ t = .ok ⟨depth, .operator⟩ := by simp [step, ht]

theorem step_eof (ht : t.kind = .eof) : step ⟨0, .operator⟩ t = .ok ⟨0, .operator⟩ := by
  simp [step, ht]

/-- With an operand due, the scan is stuck at what neither begins one nor negates it. -/
theorem stuck_operand (hnot : t.kind ≠ .not) (hleft : t.kind ≠ .leftParen)
    (ht : t.kind ≠ .identifier) (depth : Nat) : Stuck ⟨depth, .operand⟩ t := by
  refine stuck_of_step_ne fun u => ?_
  cases hk : t.kind <;> simp_all [step, refuse]

/-- With parentheses open, it is stuck at what is no operator and does not close one. -/
theorem stuck_unclosed (hclear : t.kind ∉ Phrase.disjunction.goesOn) (ht : t.kind ≠ .rightParen)
    (depth : Nat) : Stuck ⟨depth + 1, .operator⟩ t := by
  refine stuck_of_step_ne fun u => ?_
  cases hk : t.kind <;> simp_all [Phrase.goesOn, step, refuse]

/-- With nothing open, it is stuck at what is no operator and does not end the list. -/
theorem stuck_trailing (hclear : t.kind ∉ Phrase.disjunction.goesOn) (ht : t.kind ≠ .eof) :
    Stuck ⟨0, .operator⟩ t := by
  refine stuck_of_step_ne fun u => ?_
  cases hk : t.kind <;> simp_all [Phrase.goesOn, step, refuse]

end Tally

/-! ### The scan as a whole -/

/-- A scan that passes everything before the end mark, and then this with nothing open, passes. -/
theorem scan_of_passes {body : List Token} {last : Token} (hbody : ∀ t ∈ body, t.kind ≠ .eof)
    (hne : body ≠ []) (hlast : last.kind = .eof) (h : Tally.start.Passes body ⟨0, .operator⟩) :
    scan (body ++ [last]) = .ok () := by
  have hall : Tally.start.Passes (body ++ [last]) ⟨0, .operator⟩ :=
    h.append (.cons (Tally.step_eof hlast) (.nil _))
  obtain ⟨t, body, rfl⟩ := List.exists_cons_of_ne_nil hne
  rw [Tally.Passes, List.cons_append] at hall
  rw [List.cons_append, scan, if_neg (hbody t (by simp)), hall]
  rfl

/-- A scan that is stuck ends with the report of the grammar. -/
theorem scan_of_stuck {front rest : List Token} {t : Token} {u : Tally}
    (hhead : ∀ a ∈ (front ++ t :: rest).head?, a.kind ≠ .eof) (h : Tally.start.Passes front u)
    (ht : u.Stuck t) :
    scan (front ++ t :: rest) = .error (Fault.mk u.cause t).diagnostic := by
  have hall : (front ++ t :: rest).foldlM Tally.step Tally.start =
      .error (Fault.mk u.cause t).diagnostic := by
    rw [Tally.Passes] at h
    rw [List.foldlM_append, h]
    change (t :: rest).foldlM Tally.step u = _
    rw [List.foldlM_cons, ht]
    rfl
  obtain ⟨a, ts, hts⟩ := List.exists_cons_of_ne_nil (l := front ++ t :: rest) (by simp)
  rw [hts] at hhead hall ⊢
  rw [scan, if_neg (hhead a rfl), hall]
  rfl

end Grammar

end TagFilter
