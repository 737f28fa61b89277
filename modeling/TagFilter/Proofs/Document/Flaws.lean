import Mathlib
import TagFilter.Document.Reading
import TagFilter.Proofs.Document.Checks

/-!
# What can be wrong with a document

The flaws of a value, as a relation that says nothing about checking, and the order in which a walk
comes by them.

* `Filter.Route` — a way into a value, from node to node;
* `Filter.Flawed` — something is wrong with the value at the end of a route. A route goes through
  nodes only: where an object has no known tag it ends, and nothing below is a flaw;
* `Filter.Earlier` — which of two places a walk comes by first. The walk goes into each member when
  its turn comes (`Form.turn`), the parts of the node first and then the names that have no business
  there, in the order in which they are written;
* `Filter.Lists` — a list has all flaws of a value and nothing else, in the order of the walk.

A value has one such list at most (`Lists.unique`), and no two flaws of a value are at the same
place (`Lists.nodup`). `Lists.node` puts the list of a node together from the lists of its members.
-/

namespace TagFilter

namespace Filter

/-! ### Routes -/

/-- The members that a node of a form has besides its tag, in their order. -/
def Form.parts : Form → List String
  | identifier => ["pattern"]
  | and => ["left", "right"]
  | or => ["left", "right"]
  | not => ["expr"]

theorem Form.names_eq (form : Form) : form.names = "type" :: form.parts := by cases form <;> rfl

/-- A way into a value: the nodes it goes through, each with the name of the member it takes. -/
abbrev Route : Type := List (Form × String)

namespace Route

/-- The names of the members that the route takes. -/
def names (route : Route) : List String := route.map Prod.snd

/-- The path under which the end of the route is reported: in front of every name stands the tag of
the node that the member belongs to. -/
def path (route : Route) : List String := route.flatMap fun step => [step.1.tag, step.2]

@[simp] theorem names_cons (step : Form × String) (route : Route) :
    names (step :: route) = step.2 :: names route := rfl

@[simp] theorem path_cons (step : Form × String) (route : Route) :
    path (step :: route) = step.1.tag :: step.2 :: path route := rfl

end Route

/-- The report on a flaw. -/
def report (flaw : Route × Defect.Cause) : Defect := ⟨flaw.2, Route.path flaw.1⟩

/-! ### Flaws -/

/-- `Flawed j route cause`: the value `j` has a flaw at the end of the route, for this cause. -/
inductive Flawed : Json → Route → Defect.Cause → Prop where
  /-- A node is an object. -/
  | notObject {j : Json} (hj : ∀ members, j ≠ .object members) : Flawed j [] (.notObject .text)
  /-- It says which form of node it is. -/
  | noTag {members : List (String × Json)} (hnone : ∀ m ∈ members, m.1 ≠ "type") :
    Flawed (.object members) [] .noTag
  | unknownTag {members : List (String × Json)} {found : Json}
    (hfound : Json.LastIs "type" found members)
    (hunknown : ∀ form : Form, found ≠ .string form.tag) :
    Flawed (.object members) [] (.unknownTag found)
  /-- A node has all parts of its form. -/
  | missing {members : List (String × Json)} {form : Form} {name : String}
    (htag : Json.LastIs "type" (.string form.tag) members) (hname : name ∈ form.parts)
    (hnone : ∀ m ∈ members, m.1 ≠ name) : Flawed (.object members) [(form, name)] .missing
  /-- The pattern of a leaf is a text. -/
  | notText {members : List (String × Json)} {found : Json}
    (htag : Json.LastIs "type" (.string Form.identifier.tag) members)
    (hfound : Json.LastIs "pattern" found members) (htext : ∀ s, found ≠ .string s) :
    Flawed (.object members) [(.identifier, "pattern")] .notText
  /-- A node has no members but its tag and its parts. -/
  | surplus {members : List (String × Json)} {form : Form} {name : String}
    (htag : Json.LastIs "type" (.string form.tag) members) (hname : name ∉ form.names)
    (hwritten : ∃ m ∈ members, m.1 = name) : Flawed (.object members) [(form, name)] .surplus
  /-- What is wrong with an operand is wrong with the node. -/
  | operand {members : List (String × Json)} {form : Form} {name : String} {found : Json}
    {route : Route} {cause : Defect.Cause} (htag : Json.LastIs "type" (.string form.tag) members)
    (hform : form ≠ .identifier) (hname : name ∈ form.parts)
    (hfound : Json.LastIs name found members) (inner : Flawed found route cause) :
    Flawed (.object members) ((form, name) :: route) cause

/-- When the turn of a name comes at a node: its parts come first, in their order, and then the
names as they are written. -/
def Form.turn (form : Form) (members : List (String × Json)) (name : String) : Nat :=
  (form.parts ++ members.map Prod.fst).idxOf name

/-- `Earlier j names names'`: a walk through the value `j` that goes into each member when its turn
comes is at the end of `names` before it is at the end of `names'`. -/
inductive Earlier : Json → List String → List String → Prop where
  | turn {members : List (String × Json)} {form : Form} {name name' : String}
    {names names' : List String} (htag : Json.LastIs "type" (.string form.tag) members)
    (hturn : form.turn members name < form.turn members name') :
    Earlier (.object members) (name :: names) (name' :: names')
  | inside {members : List (String × Json)} {name : String} {found : Json}
    {names names' : List String} (hfound : Json.LastIs name found members)
    (inner : Earlier found names names') :
    Earlier (.object members) (name :: names) (name :: names')

/-- These are the flaws of the value, in the order of the walk. -/
structure Lists (j : Json) (flaws : List (Route × Defect.Cause)) : Prop where
  mem_iff : ∀ flaw, flaw ∈ flaws ↔ Flawed j flaw.1 flaw.2
  ordered : flaws.Pairwise fun a b => Earlier j a.1.names b.1.names

variable {j found : Json} {members : List (String × Json)} {form form' : Form} {name : String}
  {names names' : List String} {flaws : List (Route × Defect.Cause)}

/-! ### The order of the walk -/

theorem form_eq_of_tag (htag : Json.LastIs "type" (.string form.tag) members)
    (htag' : Json.LastIs "type" (.string form'.tag) members) : form = form' := by
  have htags : form.tag = form'.tag := Json.string.inj (htag.eq htag')
  have hform := Form.ofTag?_tag form
  rw [htags, Form.ofTag?_tag] at hform
  exact (Option.some.inj hform).symm

/-- The walk is at one place at a time. -/
theorem Earlier.ne (h : Earlier j names names') : names ≠ names' := by
  induction h with
  | turn _ hturn =>
    rintro heq
    obtain ⟨rfl, -⟩ := List.cons.inj heq
    exact Nat.lt_irrefl _ hturn
  | inside _ _ ih => exact fun heq => ih (List.cons.inj heq).2

/-- **The walk does not go back.** -/
theorem Earlier.asymm (h : Earlier j names names') : ¬ Earlier j names' names := by
  induction h with
  | turn htag hturn =>
    intro h'
    cases h' with
    | turn htag' hturn' =>
      obtain rfl := form_eq_of_tag htag htag'
      exact Nat.lt_asymm hturn hturn'
    | inside _ _ => exact Nat.lt_irrefl _ hturn
  | inside hfound _ ih =>
    intro h'
    cases h' with
    | turn _ hturn => exact Nat.lt_irrefl _ hturn
    | inside hfound' inner =>
      -- a name stands for one value only, so both went into the same one
      obtain rfl := hfound.eq hfound'
      exact ih inner

/-- No two flaws of a value are at the same place. -/
theorem Lists.nodup (h : Lists j flaws) : (flaws.map fun flaw => flaw.1.names).Nodup :=
  List.pairwise_map.mpr (h.ordered.imp Earlier.ne)

/-- **A value has one list of flaws.** -/
theorem Lists.unique {others : List (Route × Defect.Cause)} (h : Lists j flaws)
    (h' : Lists j others) : flaws = others := by
  have hperm : flaws.Perm others := by
    refine (List.perm_ext_iff_of_nodup h.nodup.of_map h'.nodup.of_map).mpr fun flaw => ?_
    rw [h.mem_iff, h'.mem_iff]
  exact hperm.eq_of_pairwise (fun _ _ _ _ hab hba => absurd hba hab.asymm) h.ordered h'.ordered

/-! ### The names that a walk goes to -/

/-- The names that the walk goes to at a node: its parts, and the names that have no business there,
each once. -/
def Form.visited (form : Form) (members : List (String × Json)) : List String :=
  form.parts ++ (Json.names members).filter (· ∉ form.names)

theorem mem_visited_iff : name ∈ form.visited members ↔
    name ∈ form.parts ∨ name ∉ form.names ∧ ∃ m ∈ members, m.1 = name := by
  rw [Form.visited, List.mem_append, List.mem_filter, Json.mem_names, decide_eq_true_eq,
    and_comm (a := ∃ m ∈ members, m.1 = name)]

theorem not_mem_parts (h : name ∉ form.names) : name ∉ form.parts := by
  rw [Form.names_eq] at h
  exact fun hname => h (List.mem_cons_of_mem _ hname)

/-- Names are listed in the order in which they are written first. -/
theorem pairwise_names (members : List (String × Json)) : (Json.names members).Pairwise fun a b =>
    (members.map Prod.fst).idxOf a < (members.map Prod.fst).idxOf b := by
  -- from the front to the back, as the names are gathered
  induction members using List.reverseRecOn with
  | nil => exact .nil
  | append_singleton members m ih =>
    have hkeys : ∀ a ∈ Json.names members, a ∈ members.map Prod.fst := by
      intro a ha
      obtain ⟨m', hm', rfl⟩ := Json.mem_names.mp ha
      exact List.mem_map_of_mem hm'
    have hstays : (Json.names members).Pairwise fun a b =>
        ((members ++ [m]).map Prod.fst).idxOf a < ((members ++ [m]).map Prod.fst).idxOf b := by
      refine ih.imp_of_mem fun {a b} ha hb hlt => ?_
      rw [List.map_append, List.idxOf_append_of_mem (hkeys a ha),
        List.idxOf_append_of_mem (hkeys b hb)]
      exact hlt
    have hnames : Json.names (members ++ [m]) =
        if m.1 ∈ Json.names members then Json.names members else Json.names members ++ [m.1] := by
      rw [Json.names, List.foldl_append]
      rfl
    rw [hnames]
    by_cases hm : m.1 ∈ Json.names members
    · rw [if_pos hm]
      exact hstays
    · rw [if_neg hm]
      refine List.pairwise_append.mpr ⟨hstays, List.pairwise_singleton _ _, fun a ha b hb => ?_⟩
      -- a name that is new is written behind all others
      obtain rfl := List.mem_singleton.mp hb
      have hnew : m.1 ∉ members.map Prod.fst := by
        intro hkey
        obtain ⟨m', hm', heq⟩ := List.mem_map.mp hkey
        exact hm (Json.mem_names.mpr ⟨m', hm', heq⟩)
      rw [List.map_append, List.idxOf_append_of_mem (hkeys a ha), List.idxOf_append_of_notMem hnew]
      exact Nat.lt_of_lt_of_le (List.idxOf_lt_length_of_mem (hkeys a ha)) (Nat.le_add_right _ _)

theorem turn_of_part (h : name ∈ form.parts) : form.turn members name = form.parts.idxOf name :=
  List.idxOf_append_of_mem h

theorem turn_of_not_part (h : name ∉ form.parts) : form.turn members name =
    form.parts.length + (members.map Prod.fst).idxOf name := by
  rw [Form.turn, List.idxOf_append_of_notMem h]

theorem pairwise_parts (form : Form) :
    form.parts.Pairwise fun a b => form.parts.idxOf a < form.parts.idxOf b := by
  cases form <;> decide

/-- **The walk goes to each name when its turn comes.** -/
theorem pairwise_visited (form : Form) (members : List (String × Json)) :
    (form.visited members).Pairwise fun a b => form.turn members a < form.turn members b := by
  have hsurplus : ∀ a ∈ (Json.names members).filter (· ∉ form.names), a ∉ form.parts :=
    fun a ha => not_mem_parts (by simpa using (List.mem_filter.mp ha).2)
  refine List.pairwise_append.mpr ⟨?_, ?_, fun a ha b hb => ?_⟩
  · refine (pairwise_parts form).imp_of_mem fun {a b} ha hb hlt => ?_
    rw [turn_of_part ha, turn_of_part hb]
    exact hlt
  · refine ((pairwise_names members).filter _).imp_of_mem fun {a b} ha hb hlt => ?_
    rw [turn_of_not_part (hsurplus a ha), turn_of_not_part (hsurplus b hb)]
    exact Nat.add_lt_add_left hlt _
  · rw [turn_of_part ha, turn_of_not_part (hsurplus b hb)]
    exact Nat.lt_of_lt_of_le (List.idxOf_lt_length_of_mem ha) (Nat.le_add_right _ _)

/-! ### The flaws of a node -/

/-- These are the flaws of the object that are behind one of its names, in the order of the walk. -/
structure ListsAt (form : Form) (members : List (String × Json)) (name : String)
    (flaws : List (Route × Defect.Cause)) : Prop where
  mem_iff : ∀ flaw, flaw ∈ flaws ↔ Flawed (.object members) ((form, name) :: flaw.1) flaw.2
  ordered : flaws.Pairwise fun a b =>
    Earlier (.object members) (name :: a.1.names) (name :: b.1.names)

/-- If there is one flaw behind a name and no other, it is all there is to list. -/
theorem listsAt_singleton {cause : Defect.Cause}
    (hflaw : Flawed (.object members) [(form, name)] cause)
    (honly : ∀ {route : Route} {other : Defect.Cause},
      Flawed (.object members) ((form, name) :: route) other → route = [] ∧ other = cause) :
    ListsAt form members name [([], cause)] := by
  refine ⟨fun flaw => ?_, List.pairwise_singleton _ _⟩
  rw [List.mem_singleton]
  constructor
  · rintro rfl
    exact hflaw
  · intro h
    obtain ⟨hroute, hcause⟩ := honly h
    exact Prod.ext hroute hcause

/-- A part that is not there is one flaw. -/
theorem listsAt_of_missing (htag : Json.LastIs "type" (.string form.tag) members)
    (hname : name ∈ form.parts) (hnone : ∀ m ∈ members, m.1 ≠ name) :
    ListsAt form members name [([], .missing)] := by
  refine listsAt_singleton (.missing htag hname hnone) fun h => ?_
  cases h with
  | missing => exact ⟨rfl, rfl⟩
  | notText _ hfound _ | operand _ _ _ hfound _ => exact absurd rfl (hnone _ hfound.mem)
  | surplus _ hsurplus _ => exact absurd hname (not_mem_parts hsurplus)

/-- A name that has no business there is one flaw. -/
theorem listsAt_of_surplus (htag : Json.LastIs "type" (.string form.tag) members)
    (hname : name ∉ form.names) (hwritten : ∃ m ∈ members, m.1 = name) :
    ListsAt form members name [([], .surplus)] := by
  refine listsAt_singleton (.surplus htag hname hwritten) fun h => ?_
  cases h with
  | surplus => exact ⟨rfl, rfl⟩
  | missing _ hpart _ | operand _ _ hpart _ _ => exact absurd hpart (not_mem_parts hname)
  | notText _ _ _ => exact absurd (by simp [Form.parts]) (not_mem_parts hname)

/-- A pattern that is no text is one flaw. -/
theorem listsAt_of_notText (htag : Json.LastIs "type" (.string Form.identifier.tag) members)
    (hfound : Json.LastIs "pattern" found members) (htext : ∀ s, found ≠ .string s) :
    ListsAt .identifier members "pattern" [([], .notText)] := by
  refine listsAt_singleton (.notText htag hfound htext) fun h => ?_
  cases h with
  | notText => exact ⟨rfl, rfl⟩
  | missing _ _ hnone => exact absurd rfl (hnone _ hfound.mem)
  | surplus _ hsurplus _ => exact absurd (by simp [Form.parts]) (not_mem_parts hsurplus)
  | operand _ hform _ _ _ => exact absurd rfl hform

/-- A pattern that is a text has no flaw. -/
theorem listsAt_of_text {s : String} (hfound : Json.LastIs "pattern" (.string s) members) :
    ListsAt .identifier members "pattern" [] := by
  refine ⟨fun flaw => iff_of_false List.not_mem_nil fun h => ?_, .nil⟩
  obtain ⟨route, cause⟩ := flaw
  cases h with
  | missing _ _ hnone => exact absurd rfl (hnone _ hfound.mem)
  | notText _ hfound' htext => exact htext s (hfound'.eq hfound)
  | surplus _ hsurplus _ => exact absurd (by simp [Form.parts]) (not_mem_parts hsurplus)
  | operand _ hform _ _ _ => exact absurd rfl hform

/-- An operand has the flaws of its value. -/
theorem listsAt_of_operand (htag : Json.LastIs "type" (.string form.tag) members)
    (hform : form ≠ .identifier) (hname : name ∈ form.parts)
    (hfound : Json.LastIs name found members) (h : Lists found flaws) :
    ListsAt form members name flaws := by
  refine ⟨fun flaw => ?_, h.ordered.imp (.inside hfound)⟩
  rw [h.mem_iff]
  constructor
  · exact .operand htag hform hname hfound
  · obtain ⟨route, cause⟩ := flaw
    intro h
    cases h with
    | operand _ _ _ hfound' inner =>
      obtain rfl := hfound.eq hfound'
      exact inner
    | missing _ _ hnone => exact absurd rfl (hnone _ hfound.mem)
    | notText _ _ _ => exact absurd rfl hform
    | surplus _ hsurplus _ => exact absurd hname (not_mem_parts hsurplus)

/-- A flaw of a node is behind one of the names that the walk goes to. -/
theorem Flawed.exists_visited {route : Route} {cause : Defect.Cause}
    (h : Flawed (.object members) route cause)
    (htag : Json.LastIs "type" (.string form.tag) members) :
    ∃ name ∈ form.visited members, ∃ others, route = (form, name) :: others := by
  cases h with
  | notObject hj => exact absurd rfl (hj members)
  | noTag hnone => exact absurd rfl (hnone _ htag.mem)
  | unknownTag hfound hunknown => exact absurd (hfound.eq htag) (hunknown form)
  | missing htag' hname _ =>
    obtain rfl := form_eq_of_tag htag htag'
    exact ⟨_, mem_visited_iff.mpr (.inl hname), [], rfl⟩
  | notText htag' _ _ =>
    obtain rfl := form_eq_of_tag htag htag'
    exact ⟨_, mem_visited_iff.mpr (.inl (by simp [Form.parts])), [], rfl⟩
  | surplus htag' hname hwritten =>
    obtain rfl := form_eq_of_tag htag htag'
    exact ⟨_, mem_visited_iff.mpr (.inr ⟨hname, hwritten⟩), [], rfl⟩
  | operand htag' _ hname _ _ =>
    obtain rfl := form_eq_of_tag htag htag'
    exact ⟨_, mem_visited_iff.mpr (.inl hname), _, rfl⟩

/-- **The flaws of a node** are those behind the names that the walk goes to, one name after the
other. -/
theorem Lists.node (htag : Json.LastIs "type" (.string form.tag) members)
    {behind : String → List (Route × Defect.Cause)}
    (h : ∀ name ∈ form.visited members, ListsAt form members name (behind name)) :
    Lists (.object members) ((form.visited members).flatMap fun name =>
      (behind name).map fun flaw => ((form, name) :: flaw.1, flaw.2)) where
  mem_iff flaw := by
    obtain ⟨route, cause⟩ := flaw
    simp only [List.mem_flatMap, List.mem_map, Prod.exists, Prod.mk.injEq]
    constructor
    · rintro ⟨name, hname, others, _, hmem, rfl, rfl⟩
      exact ((h name hname).mem_iff _).mp hmem
    · intro hflaw
      obtain ⟨name, hname, others, rfl⟩ := hflaw.exists_visited htag
      have hmem := ((h name hname).mem_iff (others, cause)).mpr hflaw
      exact ⟨name, hname, others, cause, hmem, rfl, rfl⟩
  ordered := by
    refine List.pairwise_flatMap.mpr ⟨fun name hname => ?_, ?_⟩
    -- behind one name
    · exact List.pairwise_map.mpr (h name hname).ordered
    -- behind two names, of which one has its turn before the other
    · refine (pairwise_visited form members).imp fun {a b} hturn first hfirst second hsecond => ?_
      obtain ⟨_, -, rfl⟩ := List.mem_map.mp hfirst
      obtain ⟨_, -, rfl⟩ := List.mem_map.mp hsecond
      exact .turn htag hturn

end Filter

end TagFilter
