import TagFilter.Proofs.Json.Scalars
import TagFilter.Proofs.Json.Values

/-!
# What is spelled is read

Whatever is spelled at the front of a text is read off it, if the rest of the text does not go on
with it and there are levels enough.

* `Reader.EndsValue` — how the rest of the text may begin;
* `Reader.Takes` — of something in a list, that it is read up to the mark behind it;
* `Reader.separated_of_takes` — things with commas between them;
* `Reader.value_of_spelled` — values.

The reader passes the space behind an opening mark before it looks for the first thing of a list.
This thing has lost the space in front of it when it is read, unlike all the others, and so the
statement about lists lets it be written in a way of its own.
-/

namespace TagFilter.Json.Reader

variable {α ι : Type} {limit : Text.Numeral.Limit} {levels : Nat} {j : Json}
  {blanks text written rest bound : List Char}

/-! ### Lists -/

/-- Whatever mark comes next, the reader takes the text off in front of it as `a`. It may leave
space behind. -/
def Takes (item : Reader α) (close : Char) (text : List Char) (a : α) : Prop :=
  ∀ mark ∈ [close, ','], ∀ rest,
    ∃ trail, Blank trail ∧ item (text ++ mark :: rest) = some (a, trail ++ mark :: rest)

/-- Things with commas between them are read if each of them is. The first one may be written in a
way of its own. -/
theorem separatedWithin_of_takes {close : Char} {item : Reader α} {value : ι → α}
    {written : ι → List Char} {first : α} {head : List Char} {others : List ι}
    (hclose : isSpace close = false) (hcomma : close ≠ ',') (hfirst : Takes item close head first)
    (hothers : ∀ i ∈ others, Takes item close (written i) (value i))
    (hbound : others.length < bound.length) :
    separatedWithin close item bound (commas (head :: others.map written) ++ close :: rest) =
      some (first :: others.map value, rest) := by
  induction others generalizing first head bound with
  | nil =>
    obtain ⟨c, bound, rfl⟩ := List.exists_cons_of_length_pos hbound
    obtain ⟨trail, htrail, hread⟩ := hfirst close (by simp) rest
    rw [List.map_nil, List.map_nil, commas_singleton, separatedWithin, hread]
    simp only [skip_append_of_blank htrail, skip_cons hclose, if_true]
  | cons second others ih =>
    obtain ⟨c, bound, rfl⟩ := List.exists_cons_of_length_pos (Nat.zero_lt_of_lt hbound)
    rw [List.forall_mem_cons] at hothers
    rw [List.length_cons, List.length_cons, Nat.succ_lt_succ_iff] at hbound
    -- the comma is passed, and the next thing takes the place of the first one
    obtain ⟨trail, htrail, hread⟩ :=
      hfirst ',' (by simp) (commas (written second :: others.map written) ++ close :: rest)
    rw [List.map_cons, List.map_cons, commas_cons (List.cons_ne_nil _ _), List.append_assoc,
      List.cons_append, separatedWithin, hread]
    simp only [skip_append_of_blank htrail, skip_cons (show isSpace ',' = false from rfl),
      if_neg hcomma.symm, if_true]
    rw [ih hothers.1 hothers.2 hbound, Option.map_some]

/-- The text itself is long enough to bound the number of things in it. -/
theorem separated_of_takes {close : Char} {item : Reader α} {value : ι → α}
    {written : ι → List Char} {first : α} {head : List Char} {others : List ι}
    (hclose : isSpace close = false) (hcomma : close ≠ ',') (hfirst : Takes item close head first)
    (hothers : ∀ i ∈ others, Takes item close (written i) (value i)) :
    separated close item (commas (head :: others.map written) ++ close :: rest) =
      some (first :: others.map value, rest) := by
  refine separatedWithin_of_takes hclose hcomma hfirst hothers ?_
  have hle := length_le_commas (head :: others.map written)
  rw [List.length_cons, List.length_map] at hle
  rw [List.length_append, List.length_cons]
  omega

/-! ### Where values end -/

/-- The text does not go on with a value: what comes next is space, a comma or a closing mark. -/
def EndsValue (rest : List Char) : Prop :=
  ∀ c ∈ rest.head?, isSpace c = true ∨ c = ',' ∨ c = ']' ∨ c = '}'

theorem EndsValue.endsNumber (h : EndsValue rest) : EndsNumber rest := by
  intro c hc
  have hmark : c = ' ' ∨ c = '\t' ∨ c = '\n' ∨ c = '\r' ∨ c = ',' ∨ c = ']' ∨ c = '}' := by
    simpa [isSpace, or_assoc] using h c hc
  rcases hmark with rfl | rfl | rfl | rfl | rfl | rfl | rfl <;> decide

/-- Space that ends a value may stand in front of anything that does so. -/
theorem endsValue_append (hblanks : Blank blanks) (h : EndsValue rest) :
    EndsValue (blanks ++ rest) := by
  cases blanks with
  | nil => exact h
  | cons c blanks =>
    rintro d ⟨⟩
    exact .inl (hblanks c List.mem_cons_self)

theorem isSpace_of_isNumberHead {c : Char} (hc : isNumberHead c = true) : isSpace c = false := by
  simp [isSpace, ne_of_isNumberHead hc (show isNumberHead ' ' = false from rfl),
    ne_of_isNumberHead hc (show isNumberHead '\t' = false from rfl),
    ne_of_isNumberHead hc (show isNumberHead '\n' = false from rfl),
    ne_of_isNumberHead hc (show isNumberHead '\r' = false from rfl)]

/-- A value starts with a character that is no space and closes no array. -/
theorem exists_cons_of_spelled (h : Spelled limit j written) :
    ∃ c others, written = c :: others ∧ isSpace c = false ∧ c ≠ ']' := by
  cases h with
  | number h =>
    obtain ⟨c, others, rfl, hc⟩ := exists_cons_of_spelledNumber h
    exact ⟨c, others, rfl, isSpace_of_isNumberHead hc, ne_of_isNumberHead hc rfl⟩
  | string h =>
    obtain ⟨body, rfl, -⟩ := h
    exact ⟨_, _, rfl, rfl, by decide⟩
  | _ => exact ⟨_, _, rfl, rfl, by decide⟩

/-- A value is read in the same way whatever is left of the levels. -/
theorem exists_value_eq_valueWith (limit : Text.Numeral.Limit) (levels : Nat) :
    ∃ inner, value limit levels = valueWith limit inner := by
  cases levels <;> exact ⟨_, rfl⟩

/-! ### Values -/

theorem value_string {s : String} (h : SpelledString s written) :
    value limit levels (written ++ rest) = some (.string s, rest) := by
  obtain ⟨inner, hinner⟩ := exists_value_eq_valueWith limit levels
  have hread : string (written ++ rest) = some (s, rest) :=
    string_eq_some_iff.mpr ⟨written, h, rfl⟩
  obtain ⟨body, rfl, -⟩ := h
  rw [List.cons_append] at hread ⊢
  rw [hinner, valueWith, skip_cons rfl]
  simp only [hread, Option.map_some]

theorem value_number {n : Number} (h : SpelledNumber limit n written) (hrest : EndsNumber rest) :
    value limit levels (written ++ rest) = some (.number n, rest) := by
  obtain ⟨inner, hinner⟩ := exists_value_eq_valueWith limit levels
  have hread := number_append h hrest
  obtain ⟨c, others, rfl, hc⟩ := exists_cons_of_spelledNumber h
  rw [List.cons_append] at hread
  rw [hinner, valueWith, List.cons_append, skip_cons (isSpace_of_isNumberHead hc)]
  -- no value of another sort starts like a number
  split
  all_goals try
    rename_i heq
    exact absurd (List.cons.inj heq).1 (ne_of_isNumberHead hc rfl)
  rw [hread, Option.map_some]

theorem value_noItems (h : Blank blanks) :
    value limit levels ('[' :: (blanks ++ ']' :: rest)) = some (.array [], rest) := by
  obtain ⟨inner, hinner⟩ := exists_value_eq_valueWith limit levels
  rw [hinner, valueWith, skip_cons rfl]
  simp only [skip_append_of_blank h, skip_cons (show isSpace ']' = false from rfl)]

theorem value_noMembers (h : Blank blanks) :
    value limit levels ('{' :: (blanks ++ '}' :: rest)) = some (.object [], rest) := by
  obtain ⟨inner, hinner⟩ := exists_value_eq_valueWith limit levels
  rw [hinner, valueWith, skip_cons rfl]
  simp only [skip_append_of_blank h, skip_cons (show isSpace '}' = false from rfl)]

/-- A value with space behind it is taken, be the mark behind this space a comma or a closing
one. -/
theorem takes_value {close : Char} {trail : List Char} (hclose : close = ']' ∨ close = '}')
    (htrail : Blank trail)
    (hvalue : ∀ rest, EndsValue rest → value limit levels (text ++ rest) = some (j, rest)) :
    Takes (value limit levels) close (text ++ trail) j := by
  intro mark hmark rest
  have hends : EndsValue (mark :: rest) := by
    rintro c ⟨⟩
    rw [List.mem_cons, List.mem_singleton] at hmark
    rcases hmark with rfl | rfl
    · exact .inr (.inr hclose)
    · exact .inr (.inl rfl)
  refine ⟨trail, htrail, ?_⟩
  rw [List.append_assoc]
  exact hvalue _ (endsValue_append htrail hends)

/-- Space in front of a value makes no difference. -/
theorem Takes.behind_blank {close : Char} (h : Takes (value limit levels) close text j)
    (hblanks : Blank blanks) : Takes (value limit levels) close (blanks ++ text) j := by
  intro mark hmark rest
  rw [List.append_assoc, value_append_of_blank hblanks]
  exact h mark hmark rest

/-- A member is taken if its value is. The space in front of its name may be there or not. -/
theorem takes_member {close : Char} {m : Member} (hnamed : m.Named)
    (h : Takes (value limit levels) close m.toItem.written m.value) (hblanks : Blank blanks) :
    Takes (member (value limit levels)) close (blanks ++ (m.label ++ (m.gap ++ ':' ::
      m.toItem.written))) m.entry := by
  intro mark hmark rest
  obtain ⟨trail, htrail, hread⟩ := h mark hmark rest
  have hlabel : ∀ rest, string (m.label ++ rest) = some (m.name, rest) := fun rest =>
    string_eq_some_iff.mpr ⟨m.label, hnamed.label, rfl⟩
  have hquote : ∀ rest, skip (m.label ++ rest) = m.label ++ rest := by
    obtain ⟨body, hbody, -⟩ := hnamed.label
    intro rest
    rw [hbody, List.cons_append, skip_cons rfl]
  refine ⟨trail, htrail, ?_⟩
  simp only [List.append_assoc, List.cons_append, member, skip_append_of_blank hblanks, hquote,
    hlabel, Option.bind_eq_bind, Option.bind_some, skip_append_of_blank hnamed.gap,
    skip_cons (show isSpace ':' = false from rfl), hread]
  rfl

/-- An array that is not empty is read if its items are. -/
theorem value_array {items : List Item} (hne : items ≠ []) (hairy : ∀ i ∈ items, i.Airy)
    (hspelled : ∀ i ∈ items, Spelled limit i.value i.text)
    (hread : ∀ i ∈ items, ∀ rest, EndsValue rest →
      value limit levels (i.text ++ rest) = some (i.value, rest)) :
    value limit (levels + 1) ('[' :: (commas (items.map Item.written) ++ ']' :: rest)) =
      some (.array (items.map Item.value), rest) := by
  have htakes : ∀ i ∈ items, Takes (value limit levels) ']' (i.text ++ i.behind) i.value :=
    fun i hi => takes_value (.inl rfl) (hairy i hi).behind (hread i hi)
  obtain ⟨first, others, rfl⟩ := List.exists_cons_of_ne_nil hne
  obtain ⟨c, tail, hhead, hspace, hclose⟩ := exists_cons_of_spelled (hspelled first (by simp))
  -- the space in front of the first item is passed with the bracket
  have hitems := @separated_of_takes _ _ rest ']' (value limit levels) Item.value Item.written
    first.value (first.text ++ first.behind) others rfl (by decide) (htakes first (by simp))
    fun i hi => (htakes i (by simp [hi])).behind_blank (hairy i (by simp [hi])).before
  rw [value, List.map_cons, Item.written, commas_append, List.append_assoc]
  rw [hhead, commas_append, List.cons_append, List.cons_append] at hitems ⊢
  exact valueWith_array
    ((skip_append_of_blank (hairy first (by simp)).before).trans (skip_cons hspace)) hclose hitems

/-- An object that is not empty is read if the values of its members are. -/
theorem value_object {members : List Member} (hne : members ≠ []) (hnamed : ∀ m ∈ members, m.Named)
    (hread : ∀ m ∈ members, ∀ rest, EndsValue rest →
      value limit levels (m.text ++ rest) = some (m.value, rest)) :
    value limit (levels + 1) ('{' :: (commas (members.map Member.written) ++ '}' :: rest)) =
      some (.object (members.map Member.entry), rest) := by
  have htakes : ∀ m ∈ members, Takes (value limit levels) '}' m.toItem.written m.value :=
    fun m hm => (takes_value (.inr rfl) (hnamed m hm).behind (hread m hm)).behind_blank
      (hnamed m hm).before
  obtain ⟨first, others, rfl⟩ := List.exists_cons_of_ne_nil hne
  obtain ⟨body, hbody, -⟩ := (hnamed first (by simp)).label
  -- the space in front of the first name is passed with the brace
  have hmembers := @separated_of_takes _ _ rest '}' (member (value limit levels)) Member.entry
    Member.written first.entry _ others rfl (by decide)
    (takes_member (hnamed first (by simp)) (htakes first (by simp)) (List.forall_mem_nil _))
    fun m hm => takes_member (hnamed m (by simp [hm])) (htakes m (by simp [hm]))
      (hnamed m (by simp [hm])).lead
  rw [value, List.map_cons, Member.written, commas_append, List.append_assoc]
  -- on both sides the first thing now starts with the quote of its name
  rw [List.nil_append, hbody, commas_append, List.cons_append, List.cons_append] at hmembers
  rw [hbody, commas_append, List.cons_append, List.cons_append]
  exact valueWith_object
    ((skip_append_of_blank (hnamed first (by simp)).lead).trans (skip_cons rfl)) (by decide)
    hmembers

/-- **What is spelled is read**, by induction on how it is spelled, if there are levels enough and
the rest of the text does not go on with the value. -/
theorem value_of_spelled (h : Spelled limit j written) (hwithin : Within levels j)
    (hrest : EndsValue rest) : value limit levels (written ++ rest) = some (j, rest) := by
  induction h generalizing levels rest with
  | null | true | false => cases levels <;> rfl
  | string h => exact value_string h
  | number h => exact value_number h hrest.endsNumber
  | noItems h => simpa using value_noItems h
  | noMembers h => simpa using value_noMembers h
  | @array items hne hairy hspelled ih =>
    -- there are items, so there is a level for them
    generalize hitems : items.map Item.value = values at hwithin
    cases hwithin with
    | noItems => exact absurd (List.map_eq_nil_iff.mp hitems) hne
    | array hinside =>
      subst hitems
      rw [List.cons_append, List.append_assoc, List.singleton_append]
      exact value_array hne hairy hspelled fun i hi rest =>
        ih i hi (hinside i.value (List.mem_map_of_mem hi))
  | @object members hne hnamed _ ih =>
    generalize hmembers : members.map Member.entry = entries at hwithin
    cases hwithin with
    | noMembers => exact absurd (List.map_eq_nil_iff.mp hmembers) hne
    | object hinside =>
      subst hmembers
      rw [List.cons_append, List.append_assoc, List.singleton_append]
      exact value_object hne hnamed fun m hm rest =>
        ih m hm (hinside m.entry (List.mem_map_of_mem hm))

end TagFilter.Json.Reader
