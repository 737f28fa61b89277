import TagFilter.Document.Defect

/-!
# What checks find

When a check succeeds, that a check which does not succeed has found something, and what it has
found. Each way to put checks together has a lemma for each of these questions.

* `Json.LastIs` — what a name stands for in an object, without a search: the member of this name
  behind which there is no other;
* `Checked.both_eq_ok_iff`, `Checked.required_eq_ok_iff`, `Checked.noOthers_eq_ok_iff` — when checks
  succeed;
* `Checked.Founded` — of a check, that it gives a value or finds at least one defect;
* `Checked.defects_both`, `Checked.defects_required`, `Checked.defects_noOthers` — what checks find.
-/

namespace TagFilter

variable {α β ι : Type} {name : String}

/-! ### Members by their names -/

namespace Json

/-- The last of the members of this name is this one. -/
def LastIs (name : String) (value : α) (members : List (String × α)) : Prop :=
  ∃ before after, members = before ++ (name, value) :: after ∧ ∀ m ∈ after, m.1 ≠ name

theorem LastIs.mem {value : α} {members : List (String × α)} (h : LastIs name value members) :
    (name, value) ∈ members := by
  obtain ⟨before, after, rfl, -⟩ := h
  simp

theorem lastOf_eq_none_iff {members : List (String × α)} :
    lastOf name members = none ↔ ∀ m ∈ members, m.1 ≠ name := by
  induction members with
  | nil => simp [lastOf]
  | cons member members ih =>
    obtain ⟨key, value⟩ := member
    rw [lastOf, List.forall_mem_cons, ← ih]
    cases lastOf name members <;> simp

theorem lastOf_eq_some_iff {value : α} {members : List (String × α)} :
    lastOf name members = some value ↔ LastIs name value members := by
  induction members with
  | nil => simp [lastOf, LastIs]
  | cons member members ih =>
    obtain ⟨key, first⟩ := member
    rw [lastOf]
    constructor
    · intro h
      cases hlater : lastOf name members with
      | some later =>
        rw [hlater] at h ih
        obtain ⟨before, after, rfl, hafter⟩ := ih.mp h
        exact ⟨(key, first) :: before, after, rfl, hafter⟩
      | none =>
        simp only [hlater, Option.ite_none_right_eq_some, Option.some.injEq] at h
        obtain ⟨rfl, rfl⟩ := h
        exact ⟨[], members, rfl, lastOf_eq_none_iff.mp hlater⟩
    · rintro ⟨before, after, heq, hafter⟩
      -- the member meant is the first one, or it stands among the others
      cases before with
      | nil =>
        obtain ⟨hfirst, rfl⟩ := List.cons.inj heq
        cases hfirst
        rw [lastOf_eq_none_iff.mpr hafter]
        exact if_pos rfl
      | cons _ before =>
        rw [ih.mpr ⟨before, after, (List.cons.inj heq).2, hafter⟩]

/-- What is done to every value is done to the one that a name stands for. -/
theorem lastOf_map (g : α → β) (members : List (String × α)) :
    lastOf name (members.map fun m => (m.1, g m.2)) = (lastOf name members).map g := by
  induction members with
  | nil => rfl
  | cons member members ih =>
    obtain ⟨key, value⟩ := member
    rw [List.map_cons, lastOf, ih, lastOf]
    cases lastOf name members with
    | some later => rfl
    | none => simp only [Option.map_none, apply_ite (Option.map g), Option.map_some]

/-- No name stands for two values. -/
theorem LastIs.eq {first second : α} {members : List (String × α)}
    (h : LastIs name first members) (h' : LastIs name second members) : first = second := by
  rw [← lastOf_eq_some_iff] at h h'
  exact Option.some.inj (h.symm.trans h')

theorem mem_names {members : List (String × α)} :
    name ∈ names members ↔ ∃ m ∈ members, m.1 = name := by
  -- names that were seen before stay
  have hall : ∀ seen : List String,
      name ∈ members.foldl (fun seen m => if m.1 ∈ seen then seen else seen ++ [m.1]) seen ↔
        name ∈ seen ∨ ∃ m ∈ members, m.1 = name := by
    induction members with
    | nil => simp
    | cons member members ih =>
      intro seen
      have hstep : name ∈ (if member.1 ∈ seen then seen else seen ++ [member.1]) ↔
          name ∈ seen ∨ member.1 = name := by
        by_cases hseen : member.1 ∈ seen
        · rw [if_pos hseen, or_iff_left_of_imp (fun h => h ▸ hseen)]
        · rw [if_neg hseen, List.mem_append, List.mem_singleton, @eq_comm _ name]
      rw [List.foldl_cons, ih, hstep, or_assoc]
      simp
  have hnames := hall []
  rw [List.mem_nil_iff, false_or] at hnames
  exact hnames

end Json

/-! ### Checks that succeed -/

namespace Checked

@[simp] theorem both_eq_ok_iff {c : Checked α} {d : Checked β} {a : α} {b : β} :
    c.both d = .ok (a, b) ↔ c = .ok a ∧ d = .ok b := by
  cases c <;> cases d <;> simp [both]

@[simp] theorem under_eq_ok_iff {c : Checked α} {step : String} {a : α} :
    c.under step = .ok a ↔ c = .ok a := by
  cases c with
  | ok b => exact Iff.rfl
  | error ds => exact iff_of_false (fun h => by cases h) (fun h => by cases h)

@[simp] theorem map_eq_ok_iff {c : Checked α} {f : α → β} {b : β} :
    c.map f = .ok b ↔ ∃ a, c = .ok a ∧ f a = b := by
  cases c <;> simp [Except.map]

@[simp] theorem fail_ne_ok {cause : Defect.Cause} {a : α} : fail cause ≠ .ok a := by simp [fail]

@[simp] theorem required_eq_ok_iff {check : ι → Checked α} {members : List (String × ι)} {a : α} :
    required name check members = .ok a ↔
      ∃ found, Json.LastIs name found members ∧ check found = .ok a := by
  rw [required]
  simp only [← Json.lastOf_eq_some_iff]
  cases Json.lastOf name members <;> simp

@[simp] theorem noOthers_eq_ok_iff {known : List String} {members : List (String × ι)}
    {u : Unit} : noOthers known members = .ok u ↔ ∀ m ∈ members, m.1 ∈ known := by
  have hnil : (Json.names members).filter (· ∉ known) = [] ↔ ∀ m ∈ members, m.1 ∈ known := by
    simp [List.filter_eq_nil_iff, Json.mem_names]
  rw [noOthers, ← hnil]
  split
  next h => exact iff_of_true rfl h
  next h => exact iff_of_false (by simp) h

@[simp] theorem text_eq_ok_iff {j : Json} {s : String} : text j = .ok s ↔ j = .string s := by
  cases j <;> simp [text]

/-! ### Checks that fail -/

/-- The check gives a value or finds at least one defect. -/
def Founded (c : Checked α) : Prop := c ≠ .error []

theorem founded_fail (cause : Defect.Cause) : (fail cause : Checked α).Founded := by
  simp [Founded, fail]

theorem Founded.both {c : Checked α} {d : Checked β} (hc : c.Founded) (hd : d.Founded) :
    (c.both d).Founded := by
  cases c <;> cases d <;> simp_all [Founded, Checked.both, defects]

theorem Founded.under {c : Checked α} (h : c.Founded) (step : String) : (c.under step).Founded := by
  cases c with
  | ok a => exact fun hunder => by cases hunder
  | error ds =>
    intro hunder
    have hnil : ds.map (Defect.under step) = [] := Except.error.inj hunder
    exact h (congrArg Except.error (List.map_eq_nil_iff.mp hnil))

theorem Founded.map {c : Checked α} (h : c.Founded) (f : α → β) : Founded (c.map f) := by
  cases c <;> simp_all [Founded, Except.map]

theorem founded_required {check : ι → Checked α} {members : List (String × ι)}
    (h : ∀ m ∈ members, (check m.2).Founded) : (required name check members).Founded := by
  unfold required
  split
  next => exact (founded_fail _).under _
  next found hlast => exact (h _ (Json.lastOf_eq_some_iff.mp hlast).mem).under _

theorem founded_noOthers (known : List String) (members : List (String × ι)) :
    (noOthers known members).Founded := by
  unfold noOthers
  split
  next => simp [Founded]
  next hne => simpa [Founded] using hne

theorem founded_text (j : Json) : (text j).Founded := by
  cases j <;> simp [Founded, text, fail]

/-- Neither check hides what the other one finds. -/
theorem defects_both (c : Checked α) (d : Checked β) :
    (c.both d).defects = c.defects ++ d.defects := by
  cases c <;> cases d <;> simp [both, defects]

theorem defects_map (c : Checked α) (f : α → β) : defects (c.map f) = c.defects := by
  cases c <;> rfl

theorem defects_under (c : Checked α) (step : String) :
    (c.under step).defects = c.defects.map (Defect.under step) := by
  cases c <;> rfl

/-- A member that is not there is one defect, and all others come from the member. -/
theorem defects_required (check : ι → Checked α) (members : List (String × ι)) :
    (required name check members).defects =
      ((Json.lastOf name members).elim [⟨.missing, []⟩] fun found => (check found).defects).map
        (Defect.under name) := by
  rw [required]
  cases Json.lastOf name members with
  | none => rfl
  | some found => exact defects_under _ _

/-- Every name that has no business there is one defect, however often it is written. -/
theorem defects_noOthers (known : List String) (members : List (String × ι)) :
    (noOthers known members).defects =
      ((Json.names members).filter (· ∉ known)).map fun name => ⟨.surplus, [name]⟩ := by
  rw [noOthers]
  cases (Json.names members).filter (· ∉ known) <;> rfl

end Checked

end TagFilter
