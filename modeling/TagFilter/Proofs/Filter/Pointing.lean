import TagFilter.Proofs.Grammar.OneScan
import TagFilter.Proofs.Scanning.Lines

/-!
# Complaints point at the text

A text that spells no filter is refused for one sort of reason only: the grammar stops at one of its
tokens. The complaint therefore names a place of the text, what the text has there, and the line and
the column of this place (`Filter.parse_error_points`).

Three facts are put together. The grammar complains about a token of the list it was given
(`exists_fault_of_error`); every token of a text is a piece of it, or the end mark behind all of it
(`liesIn_or_end`); and every token has the line and the column of its place
(`standsIn_of_tokenize`).
-/

namespace TagFilter

open Grammar

/-- The tokens of a text lie in it, up to the end mark, which stands at its end. -/
theorem liesIn_or_end {text : String} {body : List Token} {last t : Token}
    (h : Scans 0 text.toList (body ++ [last])) (ht : t ∈ body ++ [last]) :
    t.LiesIn text ∨ (t.kind = .eof ∧ t.value = "" ∧ t.position = ↑text.length) := by
  have hiff := @scans_iff text last body [] text.toList rfl
  rw [List.length_nil] at hiff
  obtain ⟨hlies, -, hlast⟩ := hiff.mp h
  rcases List.mem_append.mp ht with ht | ht
  · exact .inl (hlies t ht)
  · obtain rfl := List.mem_singleton.mp ht
    exact .inr hlast

namespace Filter

/-- A closed list is refused with a fault of the grammar at one of its tokens. -/
theorem exists_fault_of_error {body : List Token} {last : Token} {r : Refusal}
    (hbody : ∀ t ∈ body, t.kind ≠ .eof) (hlast : last.kind = .eof)
    (h : ofTokens (body ++ [last]) = .error r) :
    ∃ fault : Fault, r = .stopped (.fault fault) ∧ fault.token ∈ body ++ [last] := by
  rw [ofTokens_of_closed hbody hlast] at h
  rcases sentence_decided hbody hlast with
    ⟨f, hsentence, -⟩ | ⟨front, t, rest, u, hts, -, -, -, hsentence⟩ | ⟨rfl, hsentence⟩
  · rw [hsentence] at h
    cases h
  · rw [hsentence] at h
    cases h
    exact ⟨_, rfl, by simp [hts]⟩
  · rw [List.nil_append, hsentence] at h
    cases h
    exact ⟨_, rfl, by simp⟩

/-- **A complaint points at the offending text.** If a text spells no filter, the refusal is a fault
of the grammar, and its report names a place: the end of the text, where `EOF` was found; or a place
at which the text goes on with what was found, which is one whole token. Line and column are those
of the place. -/
theorem parse_error_points {text : String} {r : Refusal} (h : parse text = .error r) :
    ∃ (ts : List Token) (fault : Fault) (wanted found : String) (place : Nat),
      tokenize text = .ok ts ∧ r = .stopped (.fault fault) ∧
      r.diagnostic? = some ⟨.grammar (some wanted) (some found), fault.cause.message fault.token,
        some place, some (lineAt text.toList place), some (columnAt text.toList place)⟩ ∧
      ((place = text.length ∧ found = "EOF") ∨
        (place < text.length ∧ found.toList <+: text.toList.drop place ∧
          ∃ t ∈ ts, t.kind ≠ .eof ∧ t.position = place ∧ t.value = found)) := by
  obtain ⟨ts, hts, hscans⟩ := (Cursor.start text).tokens_scans
  obtain ⟨body, last, rfl, hlast, hbody⟩ := hscans.closed
  rw [parse, tokenize, hts] at h
  obtain ⟨fault, rfl, hmem⟩ := exists_fault_of_error hbody hlast h
  have hstands := standsIn_of_tokenize hts fault.token hmem
  refine ⟨_, fault, fault.cause.expected, fault.token.label, fault.token.first, hts, rfl, ?_, ?_⟩
  · rw [← hstands.position, ← hstands.line, ← hstands.column]
    rfl
  · rcases liesIn_or_end hscans hmem with hlies | ⟨hkind, hvalue, hposition⟩
    · refine .inr ?_
      obtain ⟨left, right, htext, hplace, hlexeme⟩ := hlies
      have hfirst : fault.token.first = left.length := by
        rw [Token.first, hplace, Int.toNat_natCast]
      have hne : fault.token.value ≠ "" := fun hnil => hlexeme.ne_nil (by rw [hnil]; rfl)
      -- a token that has a text is called by it
      have hlabel : fault.token.label = fault.token.value := by
        rw [Token.label, if_neg (by simpa using hne)]
      rw [hlabel]
      refine ⟨?_, ?_, _, hmem, hlexeme.kind_ne_eof, hstands.position, rfl⟩
      · have hpos := List.length_pos_iff.mpr hlexeme.ne_nil
        rw [hfirst, ← String.length_toList, htext, List.length_append, List.length_append]
        omega
      · rw [hfirst, htext, List.drop_left]
        exact List.prefix_append _ _
    · refine .inl ⟨?_, ?_⟩
      · rw [Token.first, hposition, Int.toNat_natCast]
      · rw [Token.label, hvalue, hkind]
        rfl

/-- Two line breaks of different sorts stand in front of the parenthesis that has no partner. -/
theorem parse_error_points_paren :
    ∃ r, parse "a\r\nor\r ) b" = .error r ∧
      r.diagnostic? = some ⟨.grammar (some "identifier or \"(\"") (some ")"),
        "Unexpected ')': missing opening parenthesis or expression", some 7, some 3, some 2⟩ ∧
      lineAt "a\r\nor\r ) b".toList 7 = 3 ∧ columnAt "a\r\nor\r ) b".toList 7 = 2 ∧
      ∃ ts, tokenize "a\r\nor\r ) b" = .ok ts ∧
        ∃ t ∈ ts, t.kind ≠ .eof ∧ t.position = 7 ∧ t.value = ")" := by
  let r : Refusal := .stopped (.fault ⟨.operand, ⟨.rightParen, ")", 7, 3, 2⟩⟩)
  have hr : parse "a\r\nor\r ) b" = .error r := by cbv
  obtain ⟨ts, fault, wanted, found, place, hts, hfault, hreport, hwhere⟩ := parse_error_points hr
  have hdiagnostic : r.diagnostic? = some ⟨.grammar (some "identifier or \"(\"") (some ")"),
      "Unexpected ')': missing opening parenthesis or expression", some 7, some 3, some 2⟩ := by cbv
  refine ⟨r, hr, hdiagnostic, by decide, by decide, ts, hts, ?_⟩
  rw [hdiagnostic] at hreport
  simp only [Option.some.injEq, Diagnostic.mk.injEq, Diagnostic.Topic.grammar.injEq] at hreport
  obtain ⟨⟨-, rfl⟩, -, hplace, -, -⟩ := hreport
  obtain ⟨-, hend⟩ | ⟨-, -, t, ht, hkind, hposition, hvalue⟩ := hwhere
  · simp at hend
  · exact ⟨t, ht, hkind, hposition.trans hplace.symm, hvalue⟩

end Filter

end TagFilter
