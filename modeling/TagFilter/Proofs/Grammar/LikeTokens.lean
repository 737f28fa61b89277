import TagFilter.Proofs.Grammar.EarliestFault
import TagFilter.Proofs.Grammar.Invariance

/-!
# Tokens between which the grammar sees no difference

* `Token.Alike` — tokens of the same kind, and with the same text if they are patterns;
* `Filter.SameVerdict` — two lists spell the same filter, or both are refused at the same place,
  where the same thing is wanted;
* `Filter.sameVerdict_of_alike` — closed lists of alike tokens have the same verdict.

A filter is told by a derivation, and derivations depend on the gist of the tokens alone. For a
refusal there is no derivation to compare, and two runs of the rules would have to be followed side
by side; but the place of a refusal is the one at which the scan is stuck, and the scan takes one
step for every token (`Tally.step_alike`).
-/

namespace TagFilter

open Grammar

/-- Tokens of the same kind, and with the same text if they are patterns. Their places may differ,
and so may the way in which an operator is written. -/
structure Token.Alike (t u : Token) : Prop where
  kind : u.kind = t.kind
  value (ht : t.kind = .identifier) : u.value = t.value

/-- Alike tokens are those of the same gist. -/
theorem Token.alike_iff {t u : Token} : t.Alike u ↔ u.gist = t.gist := by
  constructor
  · intro h
    by_cases ht : t.kind = .identifier
    · simp [gist, h.kind, h.value ht]
    · simp [gist, h.kind, ht]
  · intro h
    exact ⟨Token.kind_eq_of_gist h, Token.value_eq_of_gist h⟩

/-- Lists of alike tokens are those of the same gists. -/
theorem Token.forall₂_alike_iff {ts us : List Token} :
    List.Forall₂ Token.Alike ts us ↔ us.map Token.gist = ts.map Token.gist := by
  induction ts generalizing us with
  | nil => simp
  | cons t ts ih => cases us <;> simp [Token.alike_iff, ih]

namespace Grammar.Tally

variable {s v : Tally} {t u : Token} {ts us : List Token}

/-- **One step of the scan depends on the kind of the token alone**, as long as it passes. -/
theorem step_congr (h : u.gist = t.gist) : s.step u = .ok v ↔ s.step t = .ok v := by
  obtain ⟨depth, due⟩ := s
  have hkind := Token.kind_eq_of_gist h
  cases ht : t.kind <;> rw [ht] at hkind <;> cases due <;> cases depth <;>
    simp [step, refuse, ht, hkind]

/-- Tokens of the same gist are passed alike. -/
theorem Passes.congr (hpass : Passes s ts v) (h : us.map Token.gist = ts.map Token.gist) :
    Passes s us v := by
  induction ts generalizing s us with
  | nil =>
    obtain rfl : us = [] := by simpa using h
    exact hpass
  | cons t ts ih =>
    rw [List.map_cons] at h
    obtain ⟨u, us, rfl, hu, hus⟩ := List.map_eq_cons_iff.mp h
    obtain ⟨w, hstep, hrest⟩ := passes_cons_iff.mp hpass
    exact .cons ((step_congr hu).mpr hstep) (ih hrest hus)

/-- Where the scan is stuck at a token, it is stuck at every one of the same gist. -/
theorem Stuck.congr (hstuck : Stuck s t) (h : u.gist = t.gist) : Stuck s u :=
  stuck_of_step_ne fun _ hstep => hstuck.not_step ((step_congr h).mp hstep)

end Grammar.Tally

namespace Filter

/-- The list is refused at its token number `i`, where `wanted` was wanted: this is the token that
the grammar complains about, and the one it stops at. -/
def RefusedAt (ts : List Token) (i : Nat) (wanted : String) : Prop :=
  ∃ (cause : Cause) (t : Token), ts[i]? = some t ∧ cause.expected = wanted ∧
    ofTokens ts = .error (.stopped (.fault ⟨cause, t⟩)) ∧
    sentence ts = (.error (.fault ⟨cause, t⟩), ts.drop i)

/-- Both lists spell the same filter, or both are refused at the same place, where the same thing is
wanted. -/
def SameVerdict (ts us : List Token) : Prop :=
  (∃ f, ofTokens ts = .ok f ∧ ofTokens us = .ok f) ∨
    ∃ i wanted, RefusedAt ts i wanted ∧ RefusedAt us i wanted

variable {body front rest : List Token} {last t : Token}

/-- A closed list whose grammar stops behind `front` is refused there. -/
theorem refusedAt_of_sentence {cause : Cause} (hbody : ∀ a ∈ body, a.kind ≠ .eof)
    (hlast : last.kind = .eof) (hts : body ++ [last] = front ++ t :: rest)
    (h : sentence (body ++ [last]) = (.error (.fault ⟨cause, t⟩), t :: rest)) :
    RefusedAt (body ++ [last]) front.length cause.expected := by
  refine ⟨cause, t, by simp [hts], rfl, ?_, ?_⟩
  · rw [ofTokens_of_closed hbody hlast, h]
    rfl
  · rw [h, hts, List.drop_left]

/-- What the gist of tokens says about their kinds. -/
theorem kind_ne_of_gist {kind : Token.Kind} {ts us : List Token}
    (h : us.map Token.gist = ts.map Token.gist) (hts : ∀ t ∈ ts, t.kind ≠ kind) :
    ∀ u ∈ us, u.kind ≠ kind := by
  intro u hu
  have hmem : u.gist ∈ ts.map Token.gist := h ▸ List.mem_map_of_mem hu
  obtain ⟨t, ht, hgist⟩ := List.mem_map.mp hmem
  rw [← Token.kind_eq_of_gist hgist]
  exact hts t ht

/-- **Closed lists of alike tokens have the same verdict.** -/
theorem sameVerdict_of_alike {us : List Token} (hbody : ∀ a ∈ body, a.kind ≠ .eof)
    (hlast : last.kind = .eof) (h : List.Forall₂ Token.Alike (body ++ [last]) us) :
    SameVerdict (body ++ [last]) us := by
  rw [Token.forall₂_alike_iff] at h
  -- the other list is closed as well
  obtain ⟨body', last', rfl, hbodies, hlasts⟩ : ∃ body' last', us = body' ++ [last'] ∧
      body'.map Token.gist = body.map Token.gist ∧ last'.gist = last.gist := by
    rw [List.map_append] at h
    obtain ⟨body', us, rfl, hbodies, hends⟩ := List.map_eq_append_iff.mp h
    obtain ⟨last', rfl, hlasts⟩ := List.map_eq_singleton_iff.mp hends
    exact ⟨body', last', rfl, hbodies, hlasts⟩
  have hbody' := kind_ne_of_gist hbodies hbody
  have hlast' : last'.kind = .eof := (Token.kind_eq_of_gist hlasts).trans hlast
  rcases sentence_decided hbody hlast with
    ⟨f, hsentence, -⟩ | ⟨front, t, rest, u, hts, hne, hpass, hstuck, hsentence⟩ |
      ⟨rfl, hsentence⟩
  · -- one derivation serves both
    have hf : ofTokens (body ++ [last]) = .ok f := by
      rw [ofTokens_of_closed hbody hlast, hsentence]
      rfl
    have hderives := (ofTokens_eq_ok_iff hbody hlast f).mp hf
    exact .inl ⟨f, hf, (ofTokens_eq_ok_iff hbody' hlast' f).mpr (hderives.congr hbodies)⟩
  · -- the scan is stuck at the same place, and that is where the grammar stops
    have hgists : (body' ++ [last']).map Token.gist =
        front.map Token.gist ++ (t :: rest).map Token.gist := by rw [h, hts, List.map_append]
    obtain ⟨front', us, hts', hfront, hus⟩ := List.map_eq_append_iff.mp hgists
    obtain ⟨t', rest', rfl, ht', -⟩ := List.map_eq_cons_iff.mp hus
    have hne' : body' ≠ [] := by
      rintro rfl
      exact hne (by simpa using hbodies.symm)
    have hsentence' := sentence_of_stuck hbody' hlast' hne' hts' (hpass.congr hfront)
      (hstuck.congr ht')
    have hlength : front'.length = front.length := by simpa using congrArg List.length hfront
    have hrefused := refusedAt_of_sentence hbody' hlast' hts' hsentence'
    rw [hlength] at hrefused
    exact .inr ⟨_, _, refusedAt_of_sentence hbody hlast hts hsentence, hrefused⟩
  · obtain rfl : body' = [] := by simpa using hbodies
    have hsentence' : sentence [last'] = (.error (.fault ⟨.empty, last'⟩), [last']) := by
      rw [sentence, if_pos (Token.isEnd_iff.mpr hlast')]
      rfl
    exact .inr ⟨_, _, @refusedAt_of_sentence [] [] [] last last _ hbody hlast rfl hsentence,
      @refusedAt_of_sentence [] [] [] last' last' _ hbody' hlast' rfl hsentence'⟩

end Filter

end TagFilter
