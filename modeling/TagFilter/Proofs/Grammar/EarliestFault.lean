import TagFilter.Proofs.Grammar.OneScan

/-!
# Faults are found at the first possible token

A list of tokens is refused at the first token that no filter could have there: what stands in front
of it can still be completed to a filter, and with it nothing that follows makes a difference
(`Filter.ofTokens_error_earliest`).

Both halves are read off the scan. Whatever it has passed, it can be brought to its end by an
operand if one is due and by a closing parenthesis for each open one (`Tally.completion`); and a
list that begins with the same tokens is scanned in the same way up to the token at which the scan
is stuck, so that the grammar stops there too (`sentence_of_stuck`).
-/

namespace TagFilter

namespace Grammar

namespace Tally

/-- Tokens with which the scan comes to its end: an operand if one is due, and a closing parenthesis
for each open one. -/
def completion (s : Tally) : List Token :=
  (if s.due = .operand then [⟨.identifier, "tag", 0, 1, 1⟩] else []) ++
    List.replicate s.depth ⟨.rightParen, ")", 0, 1, 1⟩

theorem completion_ne_eof (s : Tally) : ∀ t ∈ s.completion, t.kind ≠ .eof := by
  intro t ht
  rcases List.mem_append.mp ht with ht | ht
  · split at ht
    · obtain rfl := List.mem_singleton.mp ht
      simp
    · simp at ht
  · obtain rfl := List.eq_of_mem_replicate ht
    simp

theorem passes_closing (depth : Nat) :
    Passes ⟨depth, .operator⟩ (List.replicate depth ⟨.rightParen, ")", 0, 1, 1⟩)
      ⟨0, .operator⟩ := by
  induction depth with
  | zero => exact .nil _
  | succ depth ih => exact .cons rfl ih

/-- **Every tally can be completed.** -/
theorem passes_completion (s : Tally) : s.Passes s.completion ⟨0, .operator⟩ := by
  obtain ⟨depth, due⟩ := s
  cases due with
  | operand => exact .cons rfl (passes_closing depth)
  | operator => exact passes_closing depth

end Tally

variable {body front rest : List Token} {last t : Token} {u : Tally}

/-- Where the scan is stuck, the grammar stops, whatever follows. -/
theorem sentence_of_stuck (hbody : ∀ a ∈ body, a.kind ≠ .eof) (hlast : last.kind = .eof)
    (hne : body ≠ []) (hts : body ++ [last] = front ++ t :: rest)
    (hpass : Tally.start.Passes front u) (hstuck : u.Stuck t) :
    sentence (body ++ [last]) = (.error (.fault ⟨u.cause, t⟩), t :: rest) := by
  rcases sentence_decided hbody hlast with
    ⟨f, -, -, hall⟩ | ⟨front', t', rest', u', hts', -, hpass', hstuck', hsentence⟩ | ⟨hnil, -⟩
  · -- a scan that is stuck passes no list
    have hlist := hall.append (.cons (Tally.step_eof hlast) (.nil _))
    rw [hts] at hlist
    exact absurd hlist (hstuck.not_passes hpass)
  · obtain ⟨rfl, rfl, rfl⟩ := hstuck'.unique hpass' hpass hstuck (hts'.symm.trans hts)
    rw [hsentence]
    obtain rfl : rest' = rest := by simpa using hts'.symm.trans hts
    rfl
  · exact absurd hnil hne

/-- What stands in front of a token of a closed list has no end mark. -/
theorem front_ne_eof (hbody : ∀ a ∈ body, a.kind ≠ .eof)
    (hts : body ++ [last] = front ++ t :: rest) : ∀ a ∈ front, a.kind ≠ .eof := by
  have hdrop := congrArg List.dropLast hts
  rw [List.dropLast_concat, List.dropLast_append_of_ne_nil (by simp)] at hdrop
  intro a ha
  exact hbody a (by rw [hdrop]; exact List.mem_append_left _ ha)

end Grammar

namespace Filter

open Grammar

/-- Tokens that the scan passes can be completed to a list that spells a filter. -/
theorem exists_completion {front : List Token} {u : Tally} (hfront : ∀ t ∈ front, t.kind ≠ .eof)
    (hpass : Tally.start.Passes front u) :
    ∃ (more : List Token) (e : Token) (f : Filter), e.kind = .eof ∧
      ofTokens (front ++ more ++ [e]) = .ok f := by
  let e : Token := ⟨.eof, "", 0, 1, 1⟩
  have hbody : ∀ t ∈ front ++ u.completion, t.kind ≠ .eof := by
    intro t ht
    rcases List.mem_append.mp ht with ht | ht
    · exact hfront t ht
    · exact u.completion_ne_eof t ht
  have hall : Tally.start.Passes (front ++ u.completion) ⟨0, .operator⟩ :=
    hpass.append u.passes_completion
  have hne : front ++ u.completion ≠ [] := by
    intro hnil
    rw [hnil] at hall
    exact absurd ((Tally.Passes.nil _).unique hall) (by decide)
  have hscan := scan_of_passes hbody hne (rfl : e.kind = .eof) hall
  rcases ofTokens_decided hbody (rfl : e.kind = .eof) with ⟨f, hf, -⟩ | ⟨fault, -, hstuck⟩
  · exact ⟨u.completion, e, f, rfl, hf⟩
  · rw [hscan] at hstuck
    contradiction

/-- **Faults are found at the first possible token.** If a closed list is refused, it is for a fault
at the token where the grammar stops. The tokens before it can be completed to a closed list that
spells a filter; and unless it is the end mark, every closed list that begins with these tokens and
it is refused for the same reason. -/
theorem ofTokens_error_earliest {body : List Token} {last : Token}
    (hbody : ∀ t ∈ body, t.kind ≠ .eof) (hlast : last.kind = .eof) {r : Refusal}
    (h : ofTokens (body ++ [last]) = .error r) :
    ∃ (before : List Token) (fault : Fault) (after : List Token),
      body ++ [last] = before ++ fault.token :: after ∧
      sentence (body ++ [last]) = (.error (.fault fault), fault.token :: after) ∧
      r = .stopped (.fault fault) ∧
      (∃ (more : List Token) (e : Token) (f : Filter), e.kind = .eof ∧
        ofTokens (before ++ more ++ [e]) = .ok f) ∧
      (fault.token.kind ≠ .eof → ∀ (body' : List Token) (last' : Token),
        (∀ t ∈ body', t.kind ≠ .eof) → last'.kind = .eof →
        before ++ [fault.token] <+: body' ++ [last'] → ofTokens (body' ++ [last']) = .error r) := by
  rw [ofTokens_of_closed hbody hlast] at h
  rcases sentence_decided hbody hlast with
    ⟨f, hsentence, -⟩ | ⟨front, t, rest, u, hts, -, hpass, hstuck, hsentence⟩ | ⟨rfl, hsentence⟩
  · rw [hsentence] at h
    simp [Except.mapError] at h
  · rw [hsentence] at h
    obtain rfl : Refusal.stopped (.fault ⟨u.cause, t⟩) = r := by simpa [Except.mapError] using h
    have hcomplete := exists_completion (front_ne_eof hbody hts) hpass
    refine ⟨front, ⟨u.cause, t⟩, rest, hts, hsentence, rfl, hcomplete, ?_⟩
    intro ht body' last' hbody' hlast' hbegin
    obtain ⟨rest', hts'⟩ := hbegin
    rw [List.append_assoc] at hts'
    -- the other list begins with a token that is no end mark, so it is more than its end mark
    have hne : body' ≠ [] := by
      rintro rfl
      cases front with
      | nil => exact ht (by rw [(List.cons.inj hts').1, hlast'])
      | cons a front => simp at hts'
    rw [ofTokens_of_closed hbody' hlast',
      sentence_of_stuck hbody' hlast' hne hts'.symm hpass hstuck]
    rfl
  · rw [List.nil_append, hsentence] at h
    obtain rfl : Refusal.stopped (.fault ⟨.empty, last⟩) = r := by simpa [Except.mapError] using h
    exact ⟨[], ⟨.empty, last⟩, [], rfl, hsentence, rfl, exists_completion (by simp) (.nil _),
      fun ht => absurd hlast ht⟩

/-- `a or ) b`, as tokens: what begins with `a or` may still spell a filter, and nothing that begins
with `a or )` does. -/
theorem ofTokens_error_earliest_paren :
    let before : List Token := [⟨.identifier, "a", 0, 1, 1⟩, ⟨.or, "or", 2, 1, 3⟩]
    let paren : Token := ⟨.rightParen, ")", 5, 1, 6⟩
    let body : List Token := before ++ [paren, ⟨.identifier, "b", 7, 1, 8⟩]
    let last : Token := ⟨.eof, "", 8, 1, 9⟩
    let r : Refusal := .stopped (.fault ⟨.operand, paren⟩)
    (∀ t ∈ body, t.kind ≠ .eof) ∧ last.kind = .eof ∧ ofTokens (body ++ [last]) = .error r ∧
      (∃ (more : List Token) (e : Token) (f : Filter), e.kind = .eof ∧
        ofTokens (before ++ more ++ [e]) = .ok f) ∧
      ∀ (body' : List Token) (last' : Token), (∀ t ∈ body', t.kind ≠ .eof) → last'.kind = .eof →
        before ++ [paren] <+: body' ++ [last'] → ofTokens (body' ++ [last']) = .error r := by
  intro before paren body last r
  have hbody : ∀ t ∈ body, t.kind ≠ .eof := by decide
  have hrefused : ofTokens (body ++ [last]) = .error r := by cbv
  obtain ⟨front, fault, after, hts, hsentence, -, hcomplete, hsame⟩ :=
    ofTokens_error_earliest hbody rfl hrefused
  have hstop : sentence (body ++ [last]) =
      (.error (.fault ⟨.operand, paren⟩), [paren, ⟨.identifier, "b", 7, 1, 8⟩, last]) := by cbv
  rw [hstop, Prod.mk.injEq, Except.error.injEq, Stop.fault.injEq] at hsentence
  obtain ⟨rfl, hafter⟩ := hsentence
  rw [← hafter] at hts
  obtain rfl : before = front := by simpa [body] using hts
  exact ⟨hbody, rfl, hrefused, hcomplete, hsame (by simp [paren])⟩

end Filter

end TagFilter
