import TagFilter.Document.Writing
import TagFilter.Document.Reading
import TagFilter.Proofs.Filter.Depth
import TagFilter.Proofs.Json.Values

/-!
# Filters come back from their documents

A filter that is not too deep is written out, and the filter that is read from its document is the
one that was written. The limit of the writer stays below that of the reader: every node of a filter
is one level of nesting in its document.

* `Filter.plain_toJson` — a document of a filter is nested as deep as the filter;
* `Filter.ofJson_toJson` — the value of a filter describes this filter;
* `Filter.ofTextWithin_toText` — so does its text;
* `Filter.write_roundTrip` — which filters are written out, and that they come back.
-/

namespace TagFilter.Filter

variable {f : Filter} {layout : Json.Layout}

/-! ### Values -/

/-- Every node is one level of nesting. -/
theorem plain_toJson (f : Filter) : Json.Plain f.height f.toJson := by
  induction f with
  | identifier pattern =>
    refine .object ?_
    simp [Json.Plain.string]
  | and left right ihl ihr | or left right ihl ihr =>
    -- the operand that is not the higher one has levels to spare
    have hleft := ihl.mono (Nat.le_max_left left.height right.height)
    have hright := ihr.mono (Nat.le_max_right left.height right.height)
    refine .object ?_
    simp [Json.Plain.string, hleft, hright]
  | not operand ih =>
    refine .object ?_
    simp [Json.Plain.string, ih]

/-- An object with a tag in front is checked as a node of the form of this tag. -/
theorem check_node {form : Form} {parts : List (String × Json)}
    (h : Json.lastOf "type" parts = none) :
    check .text (.object (("type", .string form.tag) :: parts)) =
      (ofParts form (("type", .string form.tag) :: parts)
        (checkMembers .text (("type", .string form.tag) :: parts))).under form.tag := by
  have hlast : Json.lastOf "type" (("type", .string form.tag) :: parts) =
      some (.string form.tag) := by
    rw [Json.lastOf, h]
    rfl
  rw [check, hlast]
  simp only [Form.ofTag?_tag, Place.enter]

/-- **The value of a filter describes this filter.** -/
theorem ofJson_toJson (f : Filter) : ofJson f.toJson = .ok f := by
  rw [ofJson]
  induction f with
  | identifier pattern =>
    rw [toJson, check_node rfl]
    rfl
  | and left right ihl ihr | or left right ihl ihr =>
    rw [toJson, check_node rfl]
    simp only [checkMembers, ihl, ihr]
    rfl
  | not operand ih =>
    rw [toJson, check_node rfl]
    simp only [checkMembers, ih]
    rfl

/-! ### Texts -/

/-- A filter that the reader has levels enough for is read from its text, if nothing but space
comes behind it. There are no numbers in the text, so it makes no difference how long they may
be. -/
theorem ofTextWithin_toText {limits : Json.Limits} {behind : String}
    (h : f.height ≤ limits.nesting) (hbehind : Json.Reader.skip behind.toList = []) :
    ofTextWithin limits (f.toJson.toText layout ++ behind) = .ok f := by
  have hread := @Json.Reader.value_write layout limits.nesting limits.number f.toJson
    (f.plain_toJson.mono h) 0 behind.toList
  rw [ofTextWithin, Json.ofText?, Json.toText, String.toList_append, String.toList_ofList, hread]
  -- of what comes behind the value nothing is left when space is passed
  simp only [hbehind]
  exact ofJson_toJson f

/-- Within the limit of the writer there is a text, and it is the text of the value. -/
theorem write_eq_ok (h : f.depth ≤ depthLimit) :
    f.write layout = .ok (f.toJson.toText layout) := by
  rw [write, if_neg (Nat.not_lt.2 h)]

theorem write_eq_error (h : depthLimit < f.depth) : f.write layout = .error ⟨f.depth⟩ := by
  rw [write, if_pos h]

/-- What is written out is read back: the reader has levels enough for what the writer lets pass. -/
theorem ofText_of_depth_le (h : f.depth ≤ depthLimit) :
    ofText (f.toJson.toText layout) = .ok f := by
  rw [depth_eq_height] at h
  have htext : f.toJson.toText layout = f.toJson.toText layout ++ "" := String.append_empty.symm
  rw [htext]
  exact ofTextWithin_toText (Nat.le_trans h (by decide)) rfl

/-- **Filters come back from their documents**, whatever their patterns are and in every layout. A
filter is refused if and only if it is deeper than a hundred levels; every other one is written out,
its text is accepted, and the filter that the text describes is the one that was written. So no two
filters share a text. -/
theorem write_roundTrip (f : Filter) (layout : Json.Layout) :
    ((∃ e, f.write layout = .error e) ↔ 100 < f.depth) ∧
      (f.depth ≤ 100 → ∃ text, f.write layout = .ok text ∧ ofText text = .ok f) ∧
      ∀ g : Filter, f.depth ≤ 100 → g.depth ≤ 100 →
        (f.write layout = g.write layout ↔ f = g) := by
  refine ⟨⟨?_, ?_⟩, ?_, ?_⟩
  · rintro ⟨e, he⟩
    by_cases h : f.depth ≤ 100
    · rw [write_eq_ok h] at he
      exact absurd he (by simp)
    · exact Nat.not_le.1 h
  · intro h
    exact ⟨_, write_eq_error h⟩
  · intro h
    exact ⟨_, write_eq_ok h, ofText_of_depth_le h⟩
  · intro g hf hg
    refine ⟨fun h => ?_, fun h => h ▸ rfl⟩
    -- equal texts describe the same filter
    rw [write_eq_ok hf, write_eq_ok hg, Except.ok.injEq] at h
    have hread : Except.ok f = Except.ok g := calc
      Except.ok f = ofText (f.toJson.toText layout) := (ofText_of_depth_le hf).symm
      _ = ofText (g.toJson.toText layout) := by rw [h]
      _ = Except.ok g := ofText_of_depth_le hg
    exact Except.ok.inj hread

/-- A pattern of marks that have to be escaped comes back. -/
theorem write_roundTrip_escaped :
    (not (identifier "\"\\\n\x00")).depth ≤ 100 ∧
      ∃ text, (not (identifier "\"\\\n\x00")).write (.indented 2) = .ok text ∧
        ofText text = .ok (not (identifier "\"\\\n\x00")) := by
  have h : (not (identifier "\"\\\n\x00")).depth ≤ 100 := by
    rw [depth_eq_height]
    decide
  exact ⟨h, (write_roundTrip _ _).2.1 h⟩

end TagFilter.Filter
