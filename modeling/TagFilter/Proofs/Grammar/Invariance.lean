import TagFilter.Proofs.Grammar.Sentence
import TagFilter.Proofs.Scanning.Cutting

/-!
# What the grammar looks at

A derivation looks at nothing but the kinds of the tokens and the texts of the patterns
(`Token.gist`); places, and how an operator is spelled, do not matter (`Derives.congr`). As the
tokens of a text have the same gist wherever the text stands, a piece of a text spells the filter
that its tokens were derived with in the whole (`Filter.parse_of_scans`). Conversely the tokens of
every text that spells a filter have a derivation (`Filter.exists_of_parse`).
-/

namespace TagFilter

/-- What the grammar sees of a token: its kind, and the text of a pattern. -/
def Token.gist (t : Token) : Token.Kind × String :=
  (t.kind, if t.kind = .identifier then t.value else "")

theorem Token.kind_eq_of_gist {t u : Token} (h : t.gist = u.gist) : t.kind = u.kind :=
  congrArg Prod.fst h

theorem Token.value_eq_of_gist {t u : Token} (h : t.gist = u.gist) (hu : u.kind = .identifier) :
    t.value = u.value := by
  have hvalue := congrArg Prod.snd h
  simpa [gist, kind_eq_of_gist h, hu] using hvalue

namespace Grammar

/-- Tokens with the gist of links are links, if operands may be exchanged for operands of the same
gist. -/
theorem exists_links {kind : Token.Kind} {D : List Token → Filter → Prop} {links : List Link}
    {us : List Token} (operators : ∀ l ∈ links, l.operator.kind = kind)
    (operands : ∀ l ∈ links, ∀ {ts : List Token}, ts.map Token.gist = l.tokens.map Token.gist →
      D ts l.filter)
    (h : us.map Token.gist = (spelling links).map Token.gist) :
    ∃ others : List Link, us = spelling others ∧ (∀ l ∈ others, l.operator.kind = kind) ∧
      (∀ l ∈ others, D l.tokens l.filter) ∧
      ∀ join f, joinAll join f others = joinAll join f links := by
  induction links generalizing us with
  | nil =>
    obtain rfl : us = [] := by simpa using h
    exact ⟨[], rfl, by simp, by simp, fun _ _ => rfl⟩
  | cons l links ih =>
    rw [List.forall_mem_cons] at operators operands
    rw [spelling_cons, List.map_cons, List.map_append] at h
    obtain ⟨op, us, rfl, hop, h⟩ := List.map_eq_cons_iff.mp h
    obtain ⟨tokens, us, rfl, htokens, h⟩ := List.map_eq_append_iff.mp h
    obtain ⟨others, rfl, hkinds, hothers, hjoin⟩ := ih operators.2 operands.2 h
    -- the new link keeps the filter of the old one
    refine ⟨⟨op, tokens, l.filter⟩ :: others, by simp, ?_, ?_, fun join f => hjoin join _⟩
    · rw [List.forall_mem_cons]
      exact ⟨(Token.kind_eq_of_gist hop).trans operators.1, hkinds⟩
    · rw [List.forall_mem_cons]
      exact ⟨operands.1 htokens, hothers⟩

/-- The same for a whole chain, its first operand included. -/
theorem exists_chain {kind : Token.Kind} {join : Filter → Filter → Filter}
    {D : List Token → Filter → Prop} {ts us : List Token} {f : Filter} {links : List Link}
    (first : ∀ {us : List Token}, us.map Token.gist = ts.map Token.gist → D us f)
    (operators : ∀ l ∈ links, l.operator.kind = kind)
    (operands : ∀ l ∈ links, ∀ {ts : List Token}, ts.map Token.gist = l.tokens.map Token.gist →
      D ts l.filter)
    (h : us.map Token.gist = (ts ++ spelling links).map Token.gist) :
    ∃ front others, us = front ++ spelling others ∧ D front f ∧
      (∀ l ∈ others, l.operator.kind = kind) ∧ (∀ l ∈ others, D l.tokens l.filter) ∧
      joinAll join f others = joinAll join f links := by
  rw [List.map_append] at h
  obtain ⟨front, us, rfl, hfront, h⟩ := List.map_eq_append_iff.mp h
  obtain ⟨others, rfl, hkinds, hothers, hjoin⟩ := exists_links operators operands h
  exact ⟨front, others, rfl, first hfront, hkinds, hothers, hjoin join f⟩

/-- **Derivations depend on the gist of the tokens alone.** -/
theorem Derives.congr {p : Phrase} {ts : List Token} {f : Filter} (h : Derives p ts f) :
    ∀ {us : List Token}, us.map Token.gist = ts.map Token.gist → Derives p us f := by
  induction h with
  | @identifier t ht =>
    intro us hus
    obtain ⟨u, rfl, hu⟩ := List.map_eq_singleton_iff.mp hus
    rw [← Token.value_eq_of_gist hu ht]
    exact .identifier (by rw [Token.kind_eq_of_gist hu, ht])
  | parens hl _ hr ih =>
    intro us hus
    rw [List.map_cons, List.map_append] at hus
    obtain ⟨l, us, rfl, hl', hus⟩ := List.map_eq_cons_iff.mp hus
    obtain ⟨inner, us, rfl, hinner, hus⟩ := List.map_eq_append_iff.mp hus
    obtain ⟨r, rfl, hr'⟩ := List.map_eq_singleton_iff.mp hus
    exact .parens (by rw [Token.kind_eq_of_gist hl', hl]) (ih hinner)
      (by rw [Token.kind_eq_of_gist hr', hr])
  | operand _ ih =>
    intro us hus
    exact .operand (ih hus)
  | not ht _ ih =>
    intro us hus
    obtain ⟨t, us, rfl, ht', hus⟩ := List.map_eq_cons_iff.mp hus
    exact .not (by rw [Token.kind_eq_of_gist ht', ht]) (ih hus)
  | conjunction _ operators _ ih ihs =>
    intro us hus
    obtain ⟨front, others, rfl, hfront, hkinds, hothers, hjoin⟩ := exists_chain ih operators ihs hus
    rw [← hjoin]
    exact .conjunction hfront hkinds hothers
  | disjunction _ operators _ ih ihs =>
    intro us hus
    obtain ⟨front, others, rfl, hfront, hkinds, hothers, hjoin⟩ := exists_chain ih operators ihs hus
    rw [← hjoin]
    exact .disjunction hfront hkinds hothers

end Grammar

/-! ### Reading texts -/

/-- Tokens at corresponding places have the same gist. -/
theorem Token.map_gist_of_placedFrom {a b : Nat} {us ts : List Token}
    (h : us.map (placedFrom a) = ts.map (placedFrom b)) : us.map gist = ts.map gist := by
  let seen (x : Token.Kind × String × Int) : Token.Kind × String :=
    (x.1, if x.1 = .identifier then x.2.1 else "")
  calc us.map gist = (us.map (placedFrom a)).map seen := by rw [List.map_map]; rfl
    _ = (ts.map (placedFrom b)).map seen := by rw [h]
    _ = ts.map gist := by rw [List.map_map]; rfl

/-- **A piece of a text spells what its tokens are derived with**, wherever it stands. -/
theorem Filter.parse_of_scans {start : Nat} {text : String} {ts : List Token} {e : Token}
    {f : Filter} (h : Scans start text.toList (ts ++ [e])) (he : e.kind = .eof)
    (hf : Grammar.Derives .disjunction ts f) : Filter.parse text = .ok f := by
  obtain ⟨us, hus, hplaces⟩ := Cursor.tokens_of_scans h (c := Cursor.start text) rfl
  have hgist := Token.map_gist_of_placedFrom hplaces
  rw [List.map_append] at hgist
  obtain ⟨body, us, rfl, hbody, hend⟩ := List.map_eq_append_iff.mp hgist
  obtain ⟨last, rfl, hlast⟩ := List.map_eq_singleton_iff.mp hend
  have hf' := hf.congr hbody
  rw [parse, tokenize, hus]
  -- derived tokens hold no end mark, so the list is closed
  exact (ofTokens_eq_ok_iff hf'.ne_eof (by rw [Token.kind_eq_of_gist hlast, he]) f).mpr hf'

/-- A text that spells a filter has the tokens of a derivation. -/
theorem Filter.exists_of_parse {text : String} {f : Filter} (h : Filter.parse text = .ok f) :
    ∃ body last, tokenize text = .ok (body ++ [last]) ∧ last.kind = .eof ∧
      Scans 0 text.toList (body ++ [last]) ∧ Grammar.Derives .disjunction body f := by
  obtain ⟨ts, hts, hscans⟩ := (Cursor.start text).tokens_scans
  obtain ⟨body, last, rfl, hlast, hbody⟩ := hscans.closed
  rw [parse, tokenize, hts] at h
  exact ⟨body, last, hts, hlast, hscans, (ofTokens_eq_ok_iff hbody hlast f).mp h⟩

end TagFilter
