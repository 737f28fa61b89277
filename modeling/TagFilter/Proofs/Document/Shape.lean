import TagFilter.Document.Reading
import TagFilter.Proofs.Document.Checks
import TagFilter.Proofs.Json.Grammar

/-!
# Which values describe filters

The shape of a document, as a relation between values and filters that says nothing about checking:
a node is an object whose `type` is its tag, with the parts of its form and no other members. Of
several members of one name the last counts.

* `Filter.IsNode` — the tag of a node and the names that it may have;
* `Filter.Describes` — the filter that a value describes;
* `Place.Room` — of a place, that what is nested so many levels deep can be checked there;
* `Filter.check_eq_ok_iff` — a check succeeds if and only if the value describes a filter, and it
  gives this filter, provided that there is room for the value;
* `Filter.ofMembers_eq_ok_iff` — the same for a node of a given form with given members;
* `Filter.founded_check` — a check that does not succeed has found something.

Values are checked from the inside out and filters are described from the outside in. Both follow
the filter, so the induction is on the filter; what the check does with members that no node asks
for has no part in it. A check that fails has no filter to follow, and there the induction is on the
value.
-/

namespace TagFilter

namespace Filter

variable {place inside : Place} {levels : Nat} {j : Json} {f : Filter} {form : Form}
  {members : List (String × Json)}

/-! ### The shape of a document -/

/-- The members of a node: its tag, and no names but those of its parts. -/
structure IsNode (tag : String) (parts : List String) (members : List (String × Json)) : Prop where
  tag : Json.LastIs "type" (.string tag) members
  names : ∀ m ∈ members, m.1 ∈ "type" :: parts

/-- The value describes the filter. -/
inductive Describes : Json → Filter → Prop where
  | identifier {members : List (String × Json)} {pattern : String}
    (node : IsNode "identifier" ["pattern"] members)
    (hpattern : Json.LastIs "pattern" (.string pattern) members) :
    Describes (.object members) (identifier pattern)
  | and {members : List (String × Json)} {left right : Json} {l r : Filter}
    (node : IsNode "and" ["left", "right"] members) (hleft : Json.LastIs "left" left members)
    (hright : Json.LastIs "right" right members) (hl : Describes left l)
    (hr : Describes right r) : Describes (.object members) (and l r)
  | or {members : List (String × Json)} {left right : Json} {l r : Filter}
    (node : IsNode "or" ["left", "right"] members) (hleft : Json.LastIs "left" left members)
    (hright : Json.LastIs "right" right members) (hl : Describes left l)
    (hr : Describes right r) : Describes (.object members) (or l r)
  | not {members : List (String × Json)} {operand : Json} {g : Filter}
    (node : IsNode "not" ["expr"] members) (hoperand : Json.LastIs "expr" operand members)
    (hg : Describes operand g) : Describes (.object members) (not g)

theorem Describes.tag (h : Describes (.object members) f) :
    Json.LastIs "type" (.string f.form.tag) members := by
  cases h with
  | identifier node | and node | or node | not node => exact node.tag

/-- A value that describes a filter with a given tag describes one of the form of this tag. -/
theorem Describes.form_eq (h : Describes (.object members) f)
    (htag : Json.LastIs "type" (.string form.tag) members) : f.form = form := by
  have heq : f.form.tag = form.tag := by simpa using h.tag.eq htag
  have hform := Form.ofTag?_tag form
  rw [← heq, Form.ofTag?_tag] at hform
  exact Option.some.inj hform

/-! ### Nodes -/

theorem checkMembers_eq_map (place : Place) (members : List (String × Json)) :
    checkMembers place members = members.map fun m => (m.1, check place m.2) := by
  induction members with
  | nil => rw [checkMembers, List.map_nil]
  | cons member members ih => rw [checkMembers, ih, List.map_cons]

/-- An operand of a node was checked together with all the other members. -/
theorem operand_eq_ok_iff {name : String} :
    Checked.required name id (checkMembers place members) = .ok f ↔
      ∃ found, Json.LastIs name found members ∧ check place found = .ok f := by
  rw [checkMembers_eq_map, Checked.required, Json.lastOf_map]
  simp only [← Json.lastOf_eq_some_iff]
  cases Json.lastOf name members <;> simp

/-- A node of the form of its tag is taken if and only if the object describes a filter, provided
that the check is right about the operands of this filter. -/
theorem ofParts_eq_ok_iff (htag : Json.LastIs "type" (.string form.tag) members)
    (hcheck : ∀ m ∈ members, ∀ g ∈ f.children, (check inside m.2 = .ok g ↔ Describes m.2 g)) :
    ofParts form members (checkMembers inside members) = .ok f ↔
      Describes (.object members) f := by
  constructor
  · intro h
    cases form with
    | identifier =>
      simp only [ofParts, Checked.map_eq_ok_iff, Prod.exists, Checked.both_eq_ok_iff,
        Checked.required_eq_ok_iff, Checked.text_eq_ok_iff, Checked.noOthers_eq_ok_iff] at h
      obtain ⟨pattern, -, ⟨⟨found, hpattern, rfl⟩, hnames⟩, rfl⟩ := h
      exact .identifier ⟨htag, hnames⟩ hpattern
    | and =>
      simp only [ofParts, Checked.map_eq_ok_iff, Prod.exists, Checked.both_eq_ok_iff,
        operand_eq_ok_iff, Checked.noOthers_eq_ok_iff] at h
      obtain ⟨l, r, -, ⟨⟨⟨left, hleft, hl⟩, right, hright, hr⟩, hnames⟩, rfl⟩ := h
      exact .and ⟨htag, hnames⟩ hleft hright ((hcheck _ hleft.mem l (by simp [children])).mp hl)
        ((hcheck _ hright.mem r (by simp [children])).mp hr)
    | or =>
      simp only [ofParts, Checked.map_eq_ok_iff, Prod.exists, Checked.both_eq_ok_iff,
        operand_eq_ok_iff, Checked.noOthers_eq_ok_iff] at h
      obtain ⟨l, r, -, ⟨⟨⟨left, hleft, hl⟩, right, hright, hr⟩, hnames⟩, rfl⟩ := h
      exact .or ⟨htag, hnames⟩ hleft hright ((hcheck _ hleft.mem l (by simp [children])).mp hl)
        ((hcheck _ hright.mem r (by simp [children])).mp hr)
    | not =>
      simp only [ofParts, Checked.map_eq_ok_iff, Prod.exists, Checked.both_eq_ok_iff,
        operand_eq_ok_iff, Checked.noOthers_eq_ok_iff] at h
      obtain ⟨g, -, ⟨⟨operand, hoperand, hg⟩, hnames⟩, rfl⟩ := h
      exact .not ⟨htag, hnames⟩ hoperand ((hcheck _ hoperand.mem g (by simp [children])).mp hg)
  · intro h
    -- the tag leaves one form only, and the members of this form are there
    obtain rfl := h.form_eq htag
    cases h with
    | identifier node hpattern =>
      simp only [form, ofParts, Checked.map_eq_ok_iff, Prod.exists, Checked.both_eq_ok_iff,
        Checked.required_eq_ok_iff, Checked.text_eq_ok_iff, Checked.noOthers_eq_ok_iff]
      exact ⟨_, (), ⟨⟨_, hpattern, rfl⟩, node.names⟩, rfl⟩
    | and node hleft hright hl hr | or node hleft hright hl hr =>
      simp only [form, ofParts, Checked.map_eq_ok_iff, Prod.exists, Checked.both_eq_ok_iff,
        operand_eq_ok_iff, Checked.noOthers_eq_ok_iff]
      have hl := (hcheck _ hleft.mem _ (by simp [children])).mpr hl
      have hr := (hcheck _ hright.mem _ (by simp [children])).mpr hr
      exact ⟨_, _, (), ⟨⟨⟨_, hleft, hl⟩, _, hright, hr⟩, node.names⟩, rfl⟩
    | not node hoperand hg =>
      simp only [form, ofParts, Checked.map_eq_ok_iff, Prod.exists, Checked.both_eq_ok_iff,
        operand_eq_ok_iff, Checked.noOthers_eq_ok_iff]
      have hg := (hcheck _ hoperand.mem _ (by simp [children])).mpr hg
      exact ⟨_, (), ⟨⟨_, hoperand, hg⟩, node.names⟩, rfl⟩

/-- An object that is taken has the tag of a form. -/
theorem exists_tag_of_check (h : check place (.object members) = .ok f) :
    ∃ form : Form, Json.LastIs "type" (.string form.tag) members := by
  rw [check] at h
  -- no tag, a text, or something else
  split at h
  next => exact absurd h Checked.fail_ne_ok
  next tag htag =>
    split at h
    next => exact absurd h Checked.fail_ne_ok
    next form hform =>
      refine ⟨form, ?_⟩
      rw [Form.tag_of_ofTag? hform]
      exact Json.lastOf_eq_some_iff.mp htag
  next => exact absurd h Checked.fail_ne_ok

theorem check_of_tag (htag : Json.LastIs "type" (.string form.tag) members)
    (hinside : place.enter form = some inside) :
    check place (.object members) =
      (ofParts form members (checkMembers inside members)).under form.tag := by
  rw [check, Json.lastOf_eq_some_iff.mpr htag]
  simp only [Form.ofTag?_tag, hinside]

/-! ### Places that are not too deep -/

/-- Values that are nested at most so many levels deep can be checked at the place. A node that is
passed on takes a level more, but it is passed on to a reader that comes before. -/
def Place.Room : Place → (levels : Nat) → Prop
  | .text, _ => True
  | .members reader opened, levels => opened + reader.rank + levels ≤ levelLimit

/-- Below a node there is room for one level less. -/
theorem Place.Room.enter (h : place.Room (levels + 1)) (form : Form) :
    ∃ inside, place.enter form = some inside ∧ inside.Room levels := by
  cases place with
  | text => exact ⟨.text, rfl, trivial⟩
  | members reader opened =>
    simp only [Room] at h
    by_cases hpassed : form.rank < reader.rank
    -- the second level is made up for by the rank
    · refine ⟨.members form (opened + 2), ?_, ?_⟩
      · simp only [Place.enter, if_pos hpassed]
        exact if_pos (by omega)
      · simp only [Room]
        omega
    · refine ⟨.members reader (opened + 1), ?_, ?_⟩
      · simp only [Place.enter, if_neg hpassed]
        exact if_pos (by omega)
      · simp only [Room]
        omega

/-! ### Whole values -/

/-- What stands in an object that is not empty is nested one level less. -/
theorem exists_fewer {member : String × Json} (h : Json.Within levels (.object members))
    (hmember : member ∈ members) :
    ∃ fewer, levels = fewer + 1 ∧ ∀ m ∈ members, Json.Within fewer m.2 := by
  cases h with
  | noMembers => cases hmember
  | object hmembers => exact ⟨_, rfl, hmembers⟩

/-- The check is right about a value if it is right about the operands. -/
theorem check_eq_ok_iff_of_children
    (ih : ∀ g ∈ f.children, ∀ {place : Place} {levels : Nat} {j : Json}, place.Room levels →
      Json.Within levels j → (check place j = .ok g ↔ Describes j g))
    (hroom : place.Room levels) (hwithin : Json.Within levels j) :
    check place j = .ok f ↔ Describes j f := by
  cases j with
  | object members =>
    -- whoever has a tag is checked as a node of the form of this tag
    have hnode : ∀ form : Form, Json.LastIs "type" (.string form.tag) members →
        (check place (.object members) = .ok f ↔ Describes (.object members) f) := by
      intro form htag
      obtain ⟨fewer, rfl, hmembers⟩ := exists_fewer hwithin htag.mem
      obtain ⟨inside, hinside, hroom⟩ := hroom.enter form
      rw [check_of_tag htag hinside, Checked.under_eq_ok_iff]
      exact ofParts_eq_ok_iff htag fun m hm g hg => ih g hg hroom (hmembers m hm)
    constructor
    · intro h
      obtain ⟨form, htag⟩ := exists_tag_of_check h
      exact (hnode form htag).mp h
    · intro h
      exact (hnode f.form h.tag).mpr h
  | _ =>
    -- nothing but an object describes a filter
    refine iff_of_false ?_ (fun h => by cases h)
    simp [check]

/-- **A check succeeds if and only if the value describes a filter**, and then it gives this filter:
by induction on the filter, since each of its nodes is one level of the value. -/
theorem check_eq_ok_iff (hroom : place.Room levels) (hwithin : Json.Within levels j) :
    check place j = .ok f ↔ Describes j f := by
  induction f generalizing place levels j with
  | identifier pattern =>
    exact check_eq_ok_iff_of_children (by simp [children]) hroom hwithin
  | and l r ihl ihr | or l r ihl ihr =>
    refine check_eq_ok_iff_of_children ?_ hroom hwithin
    rw [children, List.forall_mem_cons, List.forall_mem_singleton]
    exact ⟨ihl, ihr⟩
  | not g ih =>
    refine check_eq_ok_iff_of_children ?_ hroom hwithin
    rw [children, List.forall_mem_singleton]
    exact ih

/-- A node with the tag of its form agrees with it. -/
theorem agrees_of_tag (htag : Json.LastIs "type" (.string form.tag) members) :
    agrees form members = .ok () := by
  rw [agrees, Json.lastOf_eq_some_iff.mpr htag]
  exact if_pos rfl

/-- **A node of a given form with given members is taken if and only if the object of these members
describes a filter**, and then it is this filter. -/
theorem ofMembers_eq_ok_iff (htag : Json.LastIs "type" (.string form.tag) members)
    (hroom : (Place.members form 1).Room levels)
    (hwithin : ∀ m ∈ members, Json.Within levels m.2) :
    ofMembers form members = .ok f ↔ Describes (.object members) f := by
  rw [← ofParts_eq_ok_iff htag fun m hm g _ => check_eq_ok_iff hroom (hwithin m hm)]
  simp [ofMembers, agrees_of_tag htag]

/-! ### Values that are refused -/

theorem founded_ofParts {operands : List (String × Checked Filter)} (form : Form)
    (members : List (String × Json)) (h : ∀ m ∈ operands, m.2.Founded) :
    (ofParts form members operands).Founded := by
  have hothers := Checked.founded_noOthers form.names members
  cases form with
  | identifier =>
    exact ((Checked.founded_required fun m _ => Checked.founded_text m.2).both hothers).map _
  | and | or =>
    exact (((Checked.founded_required h).both (Checked.founded_required h)).both hothers).map _
  | not => exact ((Checked.founded_required h).both hothers).map _

mutual

/-- Whatever is refused has a defect. -/
theorem founded_check (place : Place) : (j : Json) → (check place j).Founded
  | .object members => by
    rw [check]
    split
    next => exact Checked.founded_fail _
    next =>
      split
      next => exact Checked.founded_fail _
      next =>
        split
        next => exact (Checked.founded_fail _).under _
        next inside _ =>
          exact (founded_ofParts _ members (founded_checkMembers inside members)).under _
    next => exact Checked.founded_fail _
  | .null | .bool _ | .number _ | .string _ | .array _ => by
    simp only [check]
    exact Checked.founded_fail _

theorem founded_checkMembers (place : Place) :
    (members : List (String × Json)) → ∀ m ∈ checkMembers place members, m.2.Founded
  | [] => by simp [checkMembers]
  | (name, value) :: members => by
    rw [checkMembers, List.forall_mem_cons]
    exact ⟨founded_check place value, founded_checkMembers place members⟩

end

end Filter

end TagFilter
