import TagFilter.Proofs.Json.Scalars

/-!
# What is read is spelled

Whatever is read off the front of a text is spelled there.

* `Reader.exists_of_separatedWithin` — things with commas between them;
* `Reader.ReadsSpelled` — of a reader of values, that the values it reads are spelled;
* `Reader.readsSpelled_valueWith` — if the reader of the parts is such a one, so is the reader of
  the whole;
* `Reader.readsSpelled_value` — values.

Space in front of a value is passed by the reader of this value, and space behind it by whoever
looks for a comma or a closing mark. In the grammar all this space belongs to the item, so the
statement about lists says which space is passed when: `lead` is passed before an item is read, and
`trail` after it was.
-/

namespace TagFilter.Json.Reader

variable {α ι : Type} {limit : Text.Numeral.Limit} {levels : Nat} {j : Json}
  {text rest bound : List Char}

/-! ### Space -/

/-- What is left after passing space stands behind this space. -/
theorem exists_blank_of_skip (text : List Char) :
    ∃ blanks, Blank blanks ∧ text = blanks ++ skip text :=
  ⟨text.takeWhile isSpace, List.all_eq_true.mp List.all_takeWhile,
    List.takeWhile_append_dropWhile.symm⟩

/-! ### Lists -/

/-- Things that were read with commas between them stand there with commas between them, if each of
them stands where it was read. -/
theorem exists_of_separatedWithin {close : Char} {item : Reader α} {value : ι → α}
    {written : ι → List Char} {Good : ι → Prop} {as : List α} {lead : List Char}
    (hitem : ∀ {text a rest lead trail after}, item text = some (a, rest) → Blank lead →
      Blank trail → rest = trail ++ after →
        ∃ i, Good i ∧ value i = a ∧ lead ++ text = written i ++ after)
    (h : separatedWithin close item bound text = some (as, rest)) (hlead : Blank lead) :
    ∃ is, is ≠ [] ∧ (∀ i ∈ is, Good i) ∧ is.map value = as ∧
      lead ++ text = commas (is.map written) ++ close :: rest := by
  induction bound generalizing text as lead with
  | nil => cases h
  | cons _ bound ih =>
    unfold separatedWithin at h
    split at h
    next => cases h
    next first behind hfirst =>
      split at h
      next => cases h
      next mark after hmark =>
        obtain ⟨trail, htrail, hbehind⟩ := exists_blank_of_skip behind
        rw [hmark] at hbehind
        obtain ⟨i, hgood, hvalue, htext⟩ := hitem hfirst hlead htrail hbehind
        -- the list ends here, or a comma follows and the rest of the list is read in the same way
        split at h
        next hclose =>
          cases h
          refine ⟨[i], List.cons_ne_nil _ _, List.forall_mem_singleton.mpr hgood,
            by rw [List.map_singleton, hvalue], ?_⟩
          rw [htext, List.map_singleton, commas_singleton, hclose]
        next =>
          split at h
          next hcomma =>
            obtain ⟨others, hothers, rfl⟩ := exists_of_map h
            obtain ⟨is, hne, hgoods, rfl, hafter⟩ := ih hothers (List.forall_mem_nil _)
            refine ⟨i :: is, List.cons_ne_nil _ _, List.forall_mem_cons.mpr ⟨hgood, hgoods⟩,
              by rw [List.map_cons, hvalue], ?_⟩
            rw [List.nil_append] at hafter
            rw [htext, hcomma, hafter, List.map_cons, commas_cons (by simpa using hne)]
            simp
          next => cases h

/-! ### Values -/

/-- Whatever the reader takes off the front of a text is a value that `Allowed` holds of, and the text
spells this value there, with space in front of it. -/
def ReadsSpelled (limit : Text.Numeral.Limit) (Allowed : Json → Prop) (reader : Reader Json) : Prop :=
  ∀ {text j rest}, reader text = some (j, rest) →
    Allowed j ∧ ∃ before written, Blank before ∧ Spelled limit j written ∧
      text = before ++ (written ++ rest)

variable {Allowed : Json → Prop} {inner : Reader Json} {lead trail after : List Char}

/-- An item of an array, with the space around it. -/
theorem ReadsSpelled.item (hinner : ReadsSpelled limit Allowed inner) (h : inner text = some (j, rest))
    (hlead : Blank lead) (htrail : Blank trail) (hrest : rest = trail ++ after) :
    ∃ i : Item, (i.Airy ∧ Spelled limit i.value i.text ∧ Allowed i.value) ∧ i.value = j ∧
      lead ++ text = i.written ++ after := by
  obtain ⟨hdeep, before, written, hbefore, hwritten, rfl⟩ := hinner h
  refine ⟨⟨j, lead ++ before, written, trail⟩, ⟨⟨?_, htrail⟩, hwritten, hdeep⟩, rfl, ?_⟩
  · exact List.forall_mem_append.mpr ⟨hlead, hbefore⟩
  · simp [Item.written, hrest]

/-- A member of an object, with the space around it. -/
theorem ReadsSpelled.member (hinner : ReadsSpelled limit Allowed inner) {entry : String × Json}
    (h : Reader.member inner text = some (entry, rest)) (hlead : Blank lead) (htrail : Blank trail)
    (hrest : rest = trail ++ after) :
    ∃ m : Member, (m.Named ∧ Spelled limit m.value m.text ∧ Allowed m.value) ∧ m.entry = entry ∧
      lead ++ text = m.written ++ after := by
  simp only [Reader.member, Option.bind_eq_bind, Option.bind_eq_some_iff, Prod.exists] at h
  obtain ⟨name, behind, hname, h⟩ := h
  obtain ⟨label, hlabel, hskip⟩ := string_eq_some_iff.mp hname
  -- the space in front of the name, and the space in front of the colon
  obtain ⟨lead', hlead', htext⟩ := exists_blank_of_skip text
  obtain ⟨gap, hgap, hbehind⟩ := exists_blank_of_skip behind
  split at h
  next hcolon =>
    simp only [Option.bind_eq_some_iff, Prod.exists] at h
    obtain ⟨value, behind, hvalue, hpair⟩ := h
    cases hpair
    obtain ⟨hdeep, before, written, hbefore, hwritten, rfl⟩ := hinner hvalue
    refine ⟨⟨⟨value, before, written, trail⟩, name, lead ++ lead', label, gap⟩,
      ⟨⟨⟨hbefore, htrail⟩, ?_, hgap, hlabel⟩, hwritten, hdeep⟩, rfl, ?_⟩
    · exact List.forall_mem_append.mpr ⟨hlead, hlead'⟩
    · rw [htext, hskip, hbehind, hcolon, hrest]
      simp [Member.written, Item.written]
  next => cases h

/-- The value may stand one level further in than `levels`, so that there is such a level. -/
def Inside (levels : Nat) (j : Json) : Prop := ∃ fewer, levels = fewer + 1 ∧ Within fewer j

theorem within_array {items : List Json} (hne : items ≠ [])
    (h : ∀ item ∈ items, Inside levels item) : Within levels (.array items) := by
  obtain ⟨first, others, rfl⟩ := List.exists_cons_of_ne_nil hne
  obtain ⟨fewer, rfl, -⟩ := h first List.mem_cons_self
  refine .array fun item hitem => ?_
  obtain ⟨fewer', heq, hwithin⟩ := h item hitem
  rwa [Nat.succ.inj heq]

theorem within_object {members : List (String × Json)} (hne : members ≠ [])
    (h : ∀ member ∈ members, Inside levels member.2) : Within levels (.object members) := by
  obtain ⟨first, others, rfl⟩ := List.exists_cons_of_ne_nil hne
  obtain ⟨fewer, rfl, -⟩ := h first List.mem_cons_self
  refine .object fun member hmember => ?_
  obtain ⟨fewer', heq, hwithin⟩ := h member hmember
  rwa [Nat.succ.inj heq]

/-- The items of an array are spelled behind its bracket, with the space behind the bracket. -/
theorem ReadsSpelled.array (hinner : ReadsSpelled limit (Inside levels) inner)
    {items : List Json} (h : separated ']' inner (skip text) = some (items, rest)) :
    Within levels (.array items) ∧
      ∃ written, Spelled limit (.array items) written ∧ '[' :: text = written ++ rest := by
  obtain ⟨blanks, hblanks, hskip⟩ := exists_blank_of_skip text
  obtain ⟨is, hne, hgood, rfl, htext⟩ := exists_of_separatedWithin hinner.item h hblanks
  refine ⟨within_array (by simpa using hne) ?_, _,
    .array hne (fun i hi => (hgood i hi).1) (fun i hi => (hgood i hi).2.1), ?_⟩
  · rintro item hitem
    obtain ⟨i, hi, rfl⟩ := List.mem_map.mp hitem
    exact (hgood i hi).2.2
  · rw [hskip, htext]
    simp

/-- The members of an object are spelled behind its brace, with the space behind the brace. -/
theorem ReadsSpelled.object (hinner : ReadsSpelled limit (Inside levels) inner)
    {members : List (String × Json)}
    (h : separated '}' (Reader.member inner) (skip text) = some (members, rest)) :
    Within levels (.object members) ∧
      ∃ written, Spelled limit (.object members) written ∧ '{' :: text = written ++ rest := by
  obtain ⟨blanks, hblanks, hskip⟩ := exists_blank_of_skip text
  obtain ⟨ms, hne, hgood, rfl, htext⟩ := exists_of_separatedWithin hinner.member h hblanks
  refine ⟨within_object (by simpa using hne) ?_, _,
    .object hne (fun m hm => (hgood m hm).1) (fun m hm => (hgood m hm).2.1), ?_⟩
  · rintro member hmember
    obtain ⟨m, hm, rfl⟩ := List.mem_map.mp hmember
    exact (hgood m hm).2.2
  · rw [hskip, htext]
    simp

/-- If the parts of a value are spelled where they are read, then so is the value. -/
theorem readsSpelled_valueWith (hinner : ReadsSpelled limit (Inside levels) inner) :
    ReadsSpelled limit (Within levels) (valueWith limit inner) := by
  intro text j rest h
  obtain ⟨before, hbefore, htext⟩ := exists_blank_of_skip text
  -- the space in front is passed first, and then the text is nowhere looked at as a whole
  suffices hread : Within levels j ∧ ∃ written, Spelled limit j written ∧
      skip text = written ++ rest by
    obtain ⟨hwithin, written, hwritten, hskip⟩ := hread
    exact ⟨hwithin, before, written, hbefore, hwritten, hskip ▸ htext⟩
  unfold valueWith at h
  generalize skip text = ahead at h ⊢
  split at h
  next behind =>
    split at h
    next hclosed =>
      obtain ⟨blanks, hblanks, hbehind⟩ := exists_blank_of_skip behind
      rw [hclosed] at hbehind
      cases h
      exact ⟨.noMembers, _, .noMembers hblanks, by simp [hbehind]⟩
    next =>
      obtain ⟨members, hmembers, rfl⟩ := exists_of_map h
      exact hinner.object hmembers
  next behind =>
    split at h
    next hclosed =>
      obtain ⟨blanks, hblanks, hbehind⟩ := exists_blank_of_skip behind
      rw [hclosed] at hbehind
      cases h
      exact ⟨.noItems, _, .noItems hblanks, by simp [hbehind]⟩
    next =>
      obtain ⟨items, hitems, rfl⟩ := exists_of_map h
      exact hinner.array hitems
  next =>
    obtain ⟨s, hread, rfl⟩ := exists_of_map h
    obtain ⟨label, hlabel, hquote⟩ := string_eq_some_iff.mp hread
    exact ⟨.string, label, .string hlabel, hquote⟩
  next =>
    cases h
    exact ⟨.null, _, .null, rfl⟩
  next =>
    cases h
    exact ⟨.bool, _, .true, rfl⟩
  next =>
    cases h
    exact ⟨.bool, _, .false, rfl⟩
  next =>
    obtain ⟨n, hread, rfl⟩ := exists_of_map h
    obtain ⟨written, hwritten, hahead⟩ := spelled_of_number hread
    exact ⟨.number, written, .number hwritten, hahead⟩

/-- **What is read as a value is spelled** where it is read, and it is not nested too deep: the
parts of a value are read with one level less. -/
theorem readsSpelled_value : ReadsSpelled limit (Within levels) (value limit levels) := by
  induction levels with
  | zero =>
    -- no parts are read at all
    refine readsSpelled_valueWith ?_
    intro text j rest h
    cases h
  | succ levels ih =>
    refine readsSpelled_valueWith ?_
    intro text j rest h
    obtain ⟨hwithin, hspelled⟩ := ih h
    exact ⟨⟨levels, rfl, hwithin⟩, hspelled⟩

end TagFilter.Json.Reader
