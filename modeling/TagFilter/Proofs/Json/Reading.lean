import TagFilter.Proofs.Json.Soundness
import TagFilter.Proofs.Json.Completeness

/-!
# Texts are read as the grammar spells them

* `ofText?_eq_some_iff` — a text is read as a value if and only if the grammar says that it spells
  this value and the value is not nested too deep;
* `SpelledText.eq` — no text spells two values.
-/

namespace TagFilter.Json

variable {limit : Text.Numeral.Limit} {j : Json} {text : List Char}

/-- **A text is read as a value if and only if it spells this value**, and the value is not nested
too deep. -/
theorem ofText?_eq_some_iff {limits : Limits} :
    ofText? limits text = some j ↔
      SpelledText limits.number j text ∧ Within limits.nesting j := by
  constructor
  · intro h
    unfold ofText? at h
    split at h
    next => cases h
    next found rest hread =>
      obtain ⟨hwithin, before, written, hbefore, hwritten, rfl⟩ := Reader.readsSpelled_value hread
      obtain ⟨behind, hbehind, hrest⟩ := Reader.exists_blank_of_skip rest
      split at h
      next hempty =>
        cases h
        rw [List.isEmpty_iff.mp hempty, List.append_nil] at hrest
        subst hrest
        exact ⟨⟨⟨j, before, written, rest⟩, ⟨hbefore, hbehind⟩, rfl, rfl, hwritten⟩, hwithin⟩
      next => cases h
  · rintro ⟨⟨i, hairy, rfl, rfl, hspelled⟩, hwithin⟩
    have hends : Reader.EndsValue i.behind := by
      rw [← List.append_nil i.behind]
      exact Reader.endsValue_append hairy.behind (fun c hc => by cases hc)
    have hblank : Reader.skip i.behind = [] := by
      rw [← List.append_nil i.behind, Reader.skip_append_of_blank hairy.behind]
      rfl
    rw [ofText?, Item.written, Reader.value_append_of_blank hairy.before,
      Reader.value_of_spelled hspelled hwithin hends]
    simp [hblank]

/-- **No text spells two values**: both of them are read from it, if numbers may be long enough and
there are levels enough. -/
theorem SpelledText.eq {limit' : Text.Numeral.Limit} {j' : Json} (h : SpelledText limit j text)
    (h' : SpelledText limit' j' text) : j = j' := by
  obtain ⟨levels, hwithin⟩ : ∃ levels, Within levels j := by
    obtain ⟨i, -, -, -, hspelled⟩ := h
    exact hspelled.exists_within
  obtain ⟨levels', hwithin'⟩ : ∃ levels, Within levels j' := by
    obtain ⟨i, -, -, -, hspelled⟩ := h'
    exact hspelled.exists_within
  let limits : Limits := ⟨max levels levels', ⟨max limit.length limit'.length, false⟩⟩
  have hread : ofText? limits text = some j :=
    ofText?_eq_some_iff.mpr ⟨h.mono fun _ hfits => fits_of_fits hfits (Nat.le_max_left _ _),
      hwithin.mono (Nat.le_max_left _ _)⟩
  have hread' : ofText? limits text = some j' :=
    ofText?_eq_some_iff.mpr ⟨h'.mono fun _ hfits => fits_of_fits hfits (Nat.le_max_right _ _),
      hwithin'.mono (Nat.le_max_right _ _)⟩
  exact Option.some.inj (hread.symm.trans hread')

end TagFilter.Json
