import TagFilter.Proofs.Grammar.Chains
import TagFilter.Proofs.Grammar.Partners

/-!
# Where a parenthesis stands

Around a pair of parentheses there are the operands and operators of the same level, and beyond the
next parentheses around it everything else. The first is what decides whether the pair is needed:

* `Slot` — the place of an operand in a chain of `AND`s or of `OR`s;
* `Site` — the place of a primary in a disjunction, with no parentheses around it: `NOT`s in front of
  it, a place in a chain of `AND`s, and one in a chain of `OR`s;
* `Frame` — the place of a disjunction in parentheses, at any depth;
* `Derives.found` — every pair of parentheses in a derivation stands at a site, which is the whole
  phrase or stands in a frame.

The last one is an induction on the derivation. A pair stands within one operand of a chain, because
the tokens of an operand are nested (`exists_slot`).
-/

namespace TagFilter.Grammar

variable {f g : Filter} {links : List Link} {ts us before inside after : List Token} {l r : Token}

/-! ### Places in a chain -/

/-- The place of an operand in a chain. -/
structure Slot (c : Chain) where
  /-- The operands before it, if there are any, with the operator behind them. -/
  before : Option Link
  /-- The operands behind it. -/
  behind : List Link
  before_derives : ∀ m ∈ before, m.operator.kind = c.kind ∧ Derives c.phrase m.tokens m.filter
  behind_derives : ∀ m ∈ behind, m.operator.kind = c.kind ∧ Derives c.operand m.tokens m.filter

namespace Slot

variable {c : Chain}

/-- The tokens before the place. -/
def ahead (slot : Slot c) : List Token :=
  match slot.before with
  | none => []
  | some m => m.tokens ++ [m.operator]

/-- The operand, joined to the operands before it. -/
def joined (slot : Slot c) (f : Filter) : Filter :=
  match slot.before with
  | none => f
  | some m => c.join m.filter f

/-- The filter of the chain, with this operand at the place. -/
def fill (slot : Slot c) (f : Filter) : Filter := joinAll c.join (slot.joined f) slot.behind

/-- The place of an operand that is the whole chain. -/
def alone (c : Chain) : Slot c := ⟨none, [], by simp, by simp⟩

@[simp] theorem alone_ahead (c : Chain) : (alone c).ahead = [] := rfl

@[simp] theorem alone_behind (c : Chain) : (alone c).behind = [] := rfl

@[simp] theorem alone_fill (c : Chain) (f : Filter) : (alone c).fill f = f := rfl

/-- The same place, with other operands behind it. -/
def followedBy (slot : Slot c) (links : List Link)
    (hlinks : ∀ m ∈ links, m.operator.kind = c.kind ∧ Derives c.operand m.tokens m.filter) : Slot c :=
  ⟨slot.before, links, slot.before_derives, hlinks⟩

@[simp] theorem followedBy_ahead (slot : Slot c)
    (hlinks : ∀ m ∈ links, m.operator.kind = c.kind ∧ Derives c.operand m.tokens m.filter) :
    (slot.followedBy links hlinks).ahead = slot.ahead := rfl

@[simp] theorem followedBy_behind (slot : Slot c)
    (hlinks : ∀ m ∈ links, m.operator.kind = c.kind ∧ Derives c.operand m.tokens m.filter) :
    (slot.followedBy links hlinks).behind = links := rfl

theorem joined_inj (slot : Slot c) : slot.joined f = slot.joined g ↔ f = g := by
  unfold joined
  split
  · exact Iff.rfl
  · rw [Chain.join_inj]
    exact and_iff_right rfl

/-- Different operands at a place make different chains. -/
theorem fill_inj (slot : Slot c) : slot.fill f = slot.fill g ↔ f = g :=
  joinAll_inj.trans slot.joined_inj

end Slot

/-- **An operand at the place makes a chain.** -/
theorem Slot.derives {c : Chain} (slot : Slot c) (h : Derives c.operand us f) :
    Derives c.phrase (slot.ahead ++ (us ++ spelling slot.behind)) (slot.fill f) := by
  obtain ⟨before, behind, hbefore, hbehind⟩ := slot
  cases before with
  | none => exact Chain.derives_links h hbehind
  | some m =>
    -- the chain before the place is lengthened by the operand and by the links behind it
    obtain ⟨hkind, hchain⟩ := hbefore m rfl
    have hlonger : Derives c.phrase (m.tokens ++ spelling (⟨m.operator, us, f⟩ :: behind)) _ :=
      Chain.derives_append hchain (List.forall_mem_cons.mpr ⟨⟨hkind, h⟩, hbehind⟩)
    simpa [ahead, fill, joined] using hlonger

/-- **A pair of parentheses stands within one operand of a chain.** What holds of all operands holds
of that one. -/
theorem exists_slot {c : Chain} {Q : List Token → Filter → Prop}
    (hl : l.kind = .leftParen) (hinside : Nested inside) (first : Derives c.operand ts f)
    (hlinks : ∀ m ∈ links, m.operator.kind = c.kind ∧ Derives c.operand m.tokens m.filter)
    (hfirst : Q ts f) (hothers : ∀ m ∈ links, Q m.tokens m.filter)
    (h : ts ++ spelling links = before ++ l :: (inside ++ r :: after)) :
    ∃ (slot : Slot c) (front back : List Token) (g : Filter),
      Q (front ++ l :: (inside ++ r :: back)) g ∧ before = slot.ahead ++ front ∧
      after = back ++ spelling slot.behind ∧ joinAll c.join f links = slot.fill g := by
  rcases append_eq_append_cons_cases h with ⟨back, rfl, hback⟩ | ⟨front, rfl, hspelling⟩
  · obtain ⟨behind, rfl, rfl⟩ := first.nested.exists_partner hl hinside hback.symm
    exact ⟨⟨none, links, by simp, hlinks⟩, before, behind, f, hfirst, rfl, rfl, rfl⟩
  · have hne : ∀ m ∈ links, m.operator ≠ l := by
      rintro m hm rfl
      exact c.kind_ne_leftParen ((hlinks m hm).1.symm.trans hl)
    obtain ⟨links, m, others, front, back, rfl, htokens, rfl, hback⟩ :=
      exists_link_of_mem hne hspelling
    have hm : m ∈ links ++ m :: others := by simp
    have hnested := (hlinks m hm).2.nested
    rw [htokens] at hnested
    obtain ⟨behind, rfl, rfl⟩ := hnested.exists_partner hl hinside hback.symm
    -- the operands before the place are a chain of their own
    rw [List.forall_mem_append, List.forall_mem_cons] at hlinks
    have hchain := Chain.derives_links first hlinks.1
    refine ⟨⟨some ⟨m.operator, ts ++ spelling links, joinAll c.join f links⟩, others,
      by simp [hlinks.2.1.1, hchain], hlinks.2.2⟩, front, behind, m.filter, htokens ▸ hothers m hm,
      by simp [Slot.ahead], rfl, ?_⟩
    rw [joinAll_append, joinAll_cons]
    rfl

/-! ### Places of primaries -/

/-- The filter behind `NOT`s. -/
def negated (nots : List Token) (f : Filter) : Filter := nots.foldr (fun _ => .not) f

theorem Derives.negated {nots : List Token} (hnots : ∀ t ∈ nots, t.kind = .not)
    (h : Derives .negation ts f) : Derives .negation (nots ++ ts) (negated nots f) := by
  induction nots with
  | nil => exact h
  | cons t nots ih =>
    rw [List.forall_mem_cons] at hnots
    exact .not hnots.1 (ih hnots.2)

/-- The place of a primary in a disjunction, outside of all parentheses. -/
structure Site where
  outer : Slot .or
  inner : Slot .and
  nots : List Token
  nots_kind : ∀ t ∈ nots, t.kind = .not

namespace Site

/-- The tokens before the place. -/
def ahead (s : Site) : List Token := s.outer.ahead ++ (s.inner.ahead ++ s.nots)

/-- The tokens behind it. -/
def following (s : Site) : List Token := spelling s.inner.behind ++ spelling s.outer.behind

/-- The filter of the disjunction, with this filter at the place. -/
def fill (s : Site) (f : Filter) : Filter := s.outer.fill (s.inner.fill (negated s.nots f))

/-- The place of a primary that is the whole disjunction. -/
def alone : Site := ⟨.alone .or, .alone .and, [], by simp⟩

/-- Is the place one in this phrase? -/
def Fits (s : Site) : Phrase → Prop
  | .disjunction => True
  | .conjunction => s.outer = .alone .or
  | .negation => s.outer = .alone .or ∧ s.inner = .alone .and
  | .primary => s = alone

/-- **A negation at the place makes a disjunction.** -/
theorem derives (s : Site) (h : Derives .negation us f) :
    Derives .disjunction (s.ahead ++ (us ++ s.following)) (s.fill f) := by
  have hinner : Derives .conjunction _ _ := s.inner.derives (h.negated s.nots_kind)
  have houter : Derives .disjunction _ _ := s.outer.derives hinner
  simpa [ahead, following, fill] using houter

end Site

/-! ### Places of disjunctions in parentheses -/

/-- The place of a disjunction in a phrase, between parentheses. -/
structure Frame (p : Phrase) where
  front : List Token
  opening : Token
  closing : Token
  back : List Token
  /-- The filter of the phrase, with this filter at the place. -/
  fill : Filter → Filter
  opening_kind : opening.kind = .leftParen
  closing_kind : closing.kind = .rightParen
  derives {us : List Token} {f : Filter} (h : Derives .disjunction us f) :
    Derives p (front ++ opening :: (us ++ closing :: back)) (fill f)
  fill_inj {f g : Filter} : fill f = fill g ↔ f = g

namespace Frame

/-- Right between the parentheses of a primary. -/
def enclosed (hl : l.kind = .leftParen) (hr : r.kind = .rightParen) : Frame .primary where
  front := []
  opening := l
  closing := r
  back := []
  fill := id
  opening_kind := hl
  closing_kind := hr
  derives h := .parens hl h hr
  fill_inj := Iff.rfl

/-- Somewhere between the parentheses of a primary. -/
def parens (frame : Frame .disjunction) (hl : l.kind = .leftParen) (hr : r.kind = .rightParen) :
    Frame .primary :=
  { frame with
    front := l :: frame.front
    back := frame.back ++ [r]
    derives := fun h => by simpa using Derives.parens hl (frame.derives h) hr }

/-- In a negation that is a primary. -/
def operand (frame : Frame .primary) : Frame .negation :=
  { frame with derives := fun h => .operand (frame.derives h) }

/-- Behind a `NOT`. -/
def not (frame : Frame .negation) {t : Token} (ht : t.kind = .not) : Frame .negation :=
  { frame with
    front := t :: frame.front
    fill := fun f => .not (frame.fill f)
    derives := fun h => .not ht (frame.derives h)
    fill_inj := by simp [frame.fill_inj] }

/-- In an operand of a chain. -/
def slot {c : Chain} (frame : Frame c.operand) (slot : Slot c) : Frame c.phrase :=
  { frame with
    front := slot.ahead ++ frame.front
    back := frame.back ++ spelling slot.behind
    fill := fun f => slot.fill (frame.fill f)
    derives := fun h => by simpa using slot.derives (frame.derives h)
    fill_inj := slot.fill_inj.trans frame.fill_inj }

end Frame

/-! ### Every pair of parentheses has a place -/

/-- Between these tokens a phrase has a primary that spells `g`; the phrase spells `f`. -/
inductive Stands (p : Phrase) (g : Filter) : (before after : List Token) → (f : Filter) → Prop where
  /-- There are no parentheses around it. -/
  | site (s : Site) (fits : s.Fits p) : Stands p g s.ahead s.following (s.fill g)
  | framed (frame : Frame p) (s : Site) :
    Stands p g (frame.front ++ frame.opening :: s.ahead) (s.following ++ frame.closing :: frame.back)
      (frame.fill (s.fill g))

namespace Stands

theorem parens (h : Stands .disjunction g before after f) (hl : l.kind = .leftParen)
    (hr : r.kind = .rightParen) : Stands .primary g (l :: before) (after ++ [r]) f := by
  cases h with
  | site s _ => exact .framed (.enclosed hl hr) s
  | framed frame s => simpa [Frame.parens] using Stands.framed (frame.parens hl hr) s

theorem operand (h : Stands .primary g before after f) : Stands .negation g before after f := by
  cases h with
  | site s fits => exact .site s ⟨by rw [fits]; rfl, by rw [fits]; rfl⟩
  | framed frame s => exact .framed frame.operand s

theorem not {t : Token} (h : Stands .negation g before after f) (ht : t.kind = .not) :
    Stands .negation g (t :: before) after (.not f) := by
  cases h with
  | site s fits =>
    obtain ⟨outer, inner, nots, hnots⟩ := s
    obtain ⟨rfl, rfl⟩ : outer = .alone .or ∧ inner = .alone .and := fits
    have hall : ∀ u ∈ t :: nots, u.kind = .not := by
      rw [List.forall_mem_cons]
      exact ⟨ht, hnots⟩
    exact @Stands.site .negation g ⟨.alone .or, .alone .and, t :: nots, hall⟩ ⟨rfl, rfl⟩
  | framed frame s => exact .framed (frame.not ht) s

theorem slot {c : Chain} (h : Stands c.operand g before after f) (slot : Slot c) :
    Stands c.phrase g (slot.ahead ++ before) (after ++ spelling slot.behind) (slot.fill f) := by
  cases h with
  | framed frame s => simpa [Frame.slot] using Stands.framed (frame.slot slot) s
  | site s fits =>
    -- the place in this chain is the one that the site did not have yet
    obtain ⟨outer, inner, nots, hnots⟩ := s
    cases c with
    | and =>
      obtain ⟨rfl, rfl⟩ : outer = .alone .or ∧ inner = .alone .and := fits
      have hsite := @Stands.site .conjunction g ⟨.alone .or, slot, nots, hnots⟩ rfl
      simpa [Chain.phrase, Site.ahead, Site.following, Site.fill] using hsite
    | or =>
      obtain rfl : outer = .alone .or := fits
      have hsite := @Stands.site .disjunction g ⟨slot, inner, nots, hnots⟩ trivial
      simpa [Chain.phrase, Site.ahead, Site.following, Site.fill] using hsite

end Stands

/-- Wherever `l` and `r` are partners among the tokens, they enclose a disjunction and have a place
in the phrase. -/
def Found (l r : Token) (p : Phrase) (ts : List Token) (f : Filter) : Prop :=
  ∀ ⦃before inside after : List Token⦄, ts = before ++ l :: (inside ++ r :: after) →
    Nested inside → ∃ g, Derives .disjunction inside g ∧ Stands p g before after f

theorem Found.parens {a b : Token} (hl : l.kind = .leftParen) (hr : r.kind = .rightParen)
    (ha : a.kind = .leftParen) (inner : Derives .disjunction ts f) (hb : b.kind = .rightParen)
    (h : Found l r .disjunction ts f) : Found l r .primary (a :: (ts ++ [b])) f := by
  intro before inside after hts hinside
  cases before with
  | nil =>
    -- the outer parentheses themselves
    obtain ⟨-, hrest⟩ := List.cons.inj hts
    obtain ⟨rfl, rfl⟩ := inner.nested.eq_of_partner hinside hr hrest
    exact ⟨f, inner, @Stands.site .primary f .alone rfl⟩
  | cons t before =>
    obtain ⟨rfl, hrest⟩ := List.cons.inj hts
    rcases append_eq_append_cons_cases hrest with ⟨back, rfl, hback⟩ | ⟨front, -, hlast⟩
    · obtain ⟨behind, rfl, rfl⟩ := inner.nested.exists_partner hl hinside hback.symm
      obtain ⟨g, hg, hstands⟩ := h rfl hinside
      exact ⟨g, hg, hstands.parens ha hb⟩
    · -- the opening parenthesis is not the closing one
      have hmem : l ∈ [b] := by simp [hlast]
      rw [List.mem_singleton.mp hmem, hb] at hl
      cases hl

theorem Found.not {t : Token} (hl : l.kind = .leftParen) (ht : t.kind = .not)
    (h : Found l r .negation ts f) : Found l r .negation (t :: ts) (.not f) := by
  intro before inside after hts hinside
  cases before with
  | nil =>
    obtain ⟨rfl, -⟩ := List.cons.inj hts
    simp [ht] at hl
  | cons u before =>
    obtain ⟨rfl, hrest⟩ := List.cons.inj hts
    obtain ⟨g, hg, hstands⟩ := h hrest hinside
    exact ⟨g, hg, hstands.not ht⟩

theorem Found.chain {c : Chain} (hl : l.kind = .leftParen) (first : Derives c.operand ts f)
    (hlinks : ∀ m ∈ links, m.operator.kind = c.kind ∧ Derives c.operand m.tokens m.filter)
    (hfirst : Found l r c.operand ts f)
    (hothers : ∀ m ∈ links, Found l r c.operand m.tokens m.filter) :
    Found l r c.phrase (ts ++ spelling links) (joinAll c.join f links) := by
  intro before inside after hts hinside
  obtain ⟨slot, front, back, f', hfound, rfl, rfl, hfill⟩ :=
    exists_slot hl hinside first hlinks hfirst hothers hts
  obtain ⟨g, hg, hstands⟩ := hfound rfl hinside
  rw [hfill]
  exact ⟨g, hg, hstands.slot slot⟩

/-- **Every pair of parentheses in a derivation has a place**, and encloses a disjunction. -/
theorem Derives.found {p : Phrase} (h : Derives p ts f) (hl : l.kind = .leftParen)
    (hr : r.kind = .rightParen) : Found l r p ts f := by
  induction h with
  | @identifier t ht =>
    intro before inside after hts _
    have hmem : l ∈ [t] := by simp [hts]
    rw [List.mem_singleton.mp hmem, ht] at hl
    cases hl
  | parens ha inner hb ih => exact ih.parens hl hr ha inner hb
  | operand _ ih =>
    intro before inside after hts hinside
    obtain ⟨g, hg, hstands⟩ := ih hts hinside
    exact ⟨g, hg, hstands.operand⟩
  | not ht _ ih => exact ih.not hl ht
  | conjunction first operators operands ih ihs =>
    exact Found.chain (c := .and) hl first (fun m hm => ⟨operators m hm, operands m hm⟩) ih ihs
  | disjunction first operators operands ih ihs =>
    exact Found.chain (c := .or) hl first (fun m hm => ⟨operators m hm, operands m hm⟩) ih ihs

end TagFilter.Grammar
