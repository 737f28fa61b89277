import TagFilter.Proofs.Json.Strings

/-!
# Written values are read back

A value without numbers is read back from its text, in every layout and whatever follows the text;
how a number is read depends on what follows it, so numbers are left out.

* `Json.Plain` — the values without numbers that are nested at most so many levels deep;
* `Reader.skip_lineBreak`, `Reader.value_append_of_blank` — the reader passes the space that the
  writer puts between the parts;
* `Reader.separatedWithin_commas` — things with commas between them are read back one by one;
* `Reader.value_write` — a plain value is read back.
-/

namespace TagFilter.Json

/-- A value without numbers in which arrays and objects that are not empty are nested at most
`levels` deep. -/
inductive Plain : (levels : Nat) → Json → Prop where
  | null (levels : Nat) : Plain levels null
  | bool (levels : Nat) (b : Bool) : Plain levels (bool b)
  | string (levels : Nat) (s : String) : Plain levels (string s)
  | noItems (levels : Nat) : Plain levels (array [])
  | array {levels : Nat} {items : List Json} :
      (∀ item ∈ items, Plain levels item) → Plain (levels + 1) (array items)
  | noMembers (levels : Nat) : Plain levels (object [])
  | object {levels : Nat} {members : List (String × Json)} :
      (∀ member ∈ members, Plain levels member.2) → Plain (levels + 1) (object members)

/-- What is nested at most so many levels deep is so within more levels. -/
theorem Plain.mono {levels more : Nat} {j : Json} (h : Plain levels j) (hle : levels ≤ more) :
    Plain more j := by
  induction h generalizing more with
  | null => exact .null more
  | bool _ b => exact .bool more b
  | string _ s => exact .string more s
  | noItems => exact .noItems more
  | noMembers => exact .noMembers more
  | array _ ih =>
    obtain ⟨more, rfl⟩ := Nat.exists_eq_add_of_le' (Nat.le_trans (Nat.le_add_left 1 _) hle)
    exact .array fun item hitem => ih item hitem (Nat.le_of_succ_le_succ hle)
  | object _ ih =>
    obtain ⟨more, rfl⟩ := Nat.exists_eq_add_of_le' (Nat.le_trans (Nat.le_add_left 1 _) hle)
    exact .object fun member hmember => ih member hmember (Nat.le_of_succ_le_succ hle)

/-! ### How lists are written -/

/-- A member as it is written on a level, without the line break in front of it. -/
def writeMember (layout : Layout) (level : Nat) (member : String × Json) : List Char :=
  writeString member.1 ++ (layout.colon ++ member.2.write layout level)

variable {layout : Layout} {level : Nat}

theorem writeItems_eq (items : List Json) :
    writeItems layout level items =
      items.flatMap fun item =>
        ',' :: (layout.lineBreak (level + 1) ++ item.write layout (level + 1)) := by
  induction items with
  | nil => rw [writeItems, List.flatMap_nil]
  | cons item items ih => simp [writeItems, ih]

theorem writeMembers_eq (members : List (String × Json)) :
    writeMembers layout level members =
      members.flatMap fun member =>
        ',' :: (layout.lineBreak (level + 1) ++ writeMember layout (level + 1) member) := by
  induction members with
  | nil => rw [writeMembers, List.flatMap_nil]
  | cons member members ih =>
    obtain ⟨name, value⟩ := member
    simp [writeMembers, writeMember, ih]

/-- An array that is not empty: the first item, the others with a comma each, the bracket. -/
theorem write_array_cons (item : Json) (items : List Json) (rest : List Char) :
    (array (item :: items)).write layout level ++ rest =
      '[' :: (layout.lineBreak (level + 1) ++ (item.write layout (level + 1) ++
        ((items.flatMap fun item =>
            ',' :: (layout.lineBreak (level + 1) ++ item.write layout (level + 1))) ++
          (layout.lineBreak level ++ ']' :: rest)))) := by
  rw [write, writeItems_eq]
  simp

/-- An object that is not empty, in the same manner. -/
theorem write_object_cons (member : String × Json) (members : List (String × Json))
    (rest : List Char) :
    (object (member :: members)).write layout level ++ rest =
      '{' :: (layout.lineBreak (level + 1) ++ (writeMember layout (level + 1) member ++
        ((members.flatMap fun member =>
            ',' :: (layout.lineBreak (level + 1) ++ writeMember layout (level + 1) member)) ++
          (layout.lineBreak level ++ '}' :: rest)))) := by
  obtain ⟨name, value⟩ := member
  rw [write, writeMembers_eq]
  simp [writeMember]

/-- A member starts with the quote of its name. -/
theorem exists_writeMember_eq (member : String × Json) (level : Nat) :
    ∃ text, writeMember layout level member = '"' :: text := ⟨_, rfl⟩

/-- A value without numbers starts with a character that is no space and closes no array. -/
theorem Plain.exists_write_eq {levels : Nat} {j : Json} (h : Plain levels j) (level : Nat) :
    ∃ c text, j.write layout level = c :: text ∧ Reader.isSpace c = false ∧ c ≠ ']' := by
  cases h with
  | null => exact ⟨_, _, by rw [write], rfl, by decide⟩
  | bool _ b => cases b <;> exact ⟨_, _, by rw [write], rfl, by decide⟩
  | string => exact ⟨_, _, by rw [write, writeString, List.cons_append], rfl, by decide⟩
  | noItems => exact ⟨_, _, by rw [write], rfl, by decide⟩
  | @array _ items _ => cases items <;> exact ⟨_, _, by rw [write], rfl, by decide⟩
  | noMembers => exact ⟨_, _, by rw [write], rfl, by decide⟩
  | @object _ members _ =>
    rcases members with _ | ⟨⟨name, value⟩, members⟩ <;> exact ⟨_, _, by rw [write], rfl, by decide⟩

namespace Reader

variable {α : Type} {levels : Nat} {limit : Text.Numeral.Limit} {blanks text rest : List Char}

/-! ### Space -/

theorem skip_cons {c : Char} (h : isSpace c = false) : skip (c :: text) = c :: text := by
  rw [skip, List.dropWhile_cons_of_neg (by simp [h])]

theorem skip_append_of_blank (h : ∀ c ∈ blanks, isSpace c = true) :
    skip (blanks ++ text) = skip text := List.dropWhile_append_of_pos h

/-- What the writer puts in front of an item is space. -/
theorem isSpace_of_mem_lineBreak : ∀ c ∈ layout.lineBreak level, isSpace c = true := by
  intro c hc
  cases layout with
  | compact => simp [Layout.lineBreak] at hc
  | indented width =>
    rw [Layout.lineBreak, List.mem_cons, List.mem_replicate] at hc
    rcases hc with rfl | ⟨_, rfl⟩ <;> rfl

theorem skip_lineBreak : skip (layout.lineBreak level ++ text) = skip text :=
  skip_append_of_blank isSpace_of_mem_lineBreak

theorem value_append_of_blank (h : ∀ c ∈ blanks, isSpace c = true) :
    value limit levels (blanks ++ text) = value limit levels text := by
  cases levels <;> simp only [value, valueWith, skip_append_of_blank h]

theorem value_lineBreak :
    value limit levels (layout.lineBreak level ++ text) = value limit levels text :=
  value_append_of_blank isSpace_of_mem_lineBreak

theorem member_lineBreak {value : Reader α} :
    member value (layout.lineBreak level ++ text) = member value text := by
  simp only [member, skip_lineBreak]

/-! ### Lists -/

/-- Things with commas between them are read back if each of them is, provided that the bound does
not run out. The first one may be written in a way of its own. -/
theorem separatedWithin_commas {close : Char} {item : Reader α} {spell : α → List Char} {first : α}
    {head : List Char} {others : List α} {bound : List Char} (hclose : isSpace close = false)
    (hblanks : ∀ c ∈ blanks, isSpace c = true) (hcomma : close ≠ ',')
    (hfirst : ∀ rest, item (head ++ rest) = some (first, rest))
    (hothers : ∀ a ∈ others, ∀ rest, item (spell a ++ rest) = some (a, rest))
    (hbound : others.length < bound.length) :
    separatedWithin close item bound
        (head ++ ((others.flatMap fun a => ',' :: spell a) ++ (blanks ++ close :: rest))) =
      some (first :: others, rest) := by
  induction others generalizing first head bound with
  | nil =>
    obtain ⟨c, bound, rfl⟩ := List.exists_cons_of_length_pos hbound
    rw [List.flatMap_nil, List.nil_append, separatedWithin, hfirst]
    simp only [skip_append_of_blank hblanks, skip_cons hclose, if_true]
  | cons second others ih =>
    obtain ⟨c, bound, rfl⟩ := List.exists_cons_of_length_pos (Nat.zero_lt_of_lt hbound)
    rw [List.forall_mem_cons] at hothers
    rw [List.length_cons, List.length_cons, Nat.succ_lt_succ_iff] at hbound
    -- the comma is passed, and the next thing takes the place of the first one
    rw [List.flatMap_cons, List.append_assoc, List.cons_append, separatedWithin, hfirst]
    simp only [skip_cons (show isSpace ',' = false from rfl), if_neg (Ne.symm hcomma), if_true]
    rw [ih hothers.1 hothers.2 hbound, Option.map_some]

/-- Things with commas between them are read back if each of them is. Each of them has a character
in the text, be it the comma in front of it, so the text has enough of them. -/
theorem separated_commas {close : Char} {item : Reader α} {spell : α → List Char} {first : α}
    {c : Char} {head : List Char} {others : List α} (hclose : isSpace close = false)
    (hblanks : ∀ c ∈ blanks, isSpace c = true) (hcomma : close ≠ ',')
    (hfirst : ∀ rest, item (c :: head ++ rest) = some (first, rest))
    (hothers : ∀ a ∈ others, ∀ rest, item (spell a ++ rest) = some (a, rest)) :
    separated close item
        (c :: head ++ ((others.flatMap fun a => ',' :: spell a) ++ (blanks ++ close :: rest))) =
      some (first :: others, rest) := by
  have hcommas : others.length ≤ (others.flatMap fun a => ',' :: spell a).length := by
    clear hothers
    induction others with
    | nil => simp
    | cons a others ih =>
      simp only [List.flatMap_cons, List.length_append, List.length_cons]
      omega
  refine separatedWithin_commas hclose hblanks hcomma hfirst hothers ?_
  simp only [List.length_append, List.length_cons]
  omega

/-- A written member is read back if its value is. -/
theorem member_writeMember {member : String × Json}
    (hvalue : ∀ rest, value limit levels (member.2.write layout level ++ rest) =
      some (member.2, rest)) (rest : List Char) :
    Reader.member (value limit levels) (writeMember layout level member ++ rest) =
      some (member, rest) := by
  have hname : skip (writeMember layout level member ++ rest) =
      writeString member.1 ++ (layout.colon ++ (member.2.write layout level ++ rest)) := by
    simp [writeMember, writeString, skip_cons (show isSpace '"' = false from rfl)]
  simp only [Reader.member, hname, string_writeString, Option.bind_eq_bind, Option.bind_some]
  cases layout with
  | compact =>
    simp [Layout.colon, skip_cons (show isSpace ':' = false from rfl), hvalue]
  | indented width =>
    -- the space behind the colon is the reader's to pass
    have hspace := @value_append_of_blank levels limit [' ']
      (member.2.write (.indented width) level ++ rest) (by simp [isSpace])
    rw [List.singleton_append] at hspace
    simp [Layout.colon, skip_cons (show isSpace ':' = false from rfl), hspace, hvalue]

/-! ### Values -/

/-- Behind an opening bracket that is not closed at once, the items are read. -/
theorem valueWith_array {inner : Reader Json} {c : Char} {items : List Json}
    (hskip : skip text = c :: rest) (hc : c ≠ ']') {after : List Char}
    (hitems : separated ']' inner (c :: rest) = some (items, after)) :
    valueWith limit inner ('[' :: text) = some (.array items, after) := by
  rw [valueWith, skip_cons rfl]
  simp only [hskip]
  split
  · rename_i heq
    exact absurd (List.cons.inj heq).1 hc
  · rw [hitems, Option.map_some]

/-- Behind an opening brace that is not closed at once, the members are read. -/
theorem valueWith_object {inner : Reader Json} {c : Char} {members : List (String × Json)}
    (hskip : skip text = c :: rest) (hc : c ≠ '}') {after : List Char}
    (hmembers : separated '}' (member inner) (c :: rest) = some (members, after)) :
    valueWith limit inner ('{' :: text) = some (.object members, after) := by
  rw [valueWith, skip_cons rfl]
  simp only [hskip]
  split
  · rename_i heq
    exact absurd (List.cons.inj heq).1 hc
  · rw [hmembers, Option.map_some]

/-- A written string is read back as a value, however deep values may be nested. -/
theorem value_writeString (s : String) (rest : List Char) :
    value limit levels (writeString s ++ rest) = some (.string s, rest) := by
  have hstring := string_writeString s rest
  have hquote : ∃ text, writeString s ++ rest = '"' :: text := ⟨_, rfl⟩
  obtain ⟨text, htext⟩ := hquote
  rw [htext] at hstring ⊢
  cases levels <;>
    simp only [value, valueWith, skip_cons (show isSpace '"' = false from rfl), hstring,
      Option.map_some]

/-- **A plain value is read back** from its text, in every layout and whatever follows. -/
theorem value_write {j : Json} (h : Plain levels j) (level : Nat) (rest : List Char) :
    value limit levels (j.write layout level ++ rest) = some (j, rest) := by
  induction h generalizing level rest with
  | null levels => rw [write]; cases levels <;> rfl
  | bool levels b => cases b <;> rw [write] <;> cases levels <;> rfl
  | string levels s => rw [write, value_writeString]
  | noItems levels => rw [write]; cases levels <;> rfl
  | noMembers levels => rw [write]; cases levels <;> rfl
  | @array levels items hitems ih =>
    cases items with
    | nil =>
      rw [value, write]
      rfl
    | cons item items =>
      rw [List.forall_mem_cons] at hitems ih
      obtain ⟨c, head, hhead, hspace, hclose⟩ :=
        @Plain.exists_write_eq layout levels item hitems.1 (level + 1)
      rw [value, write_array_cons, hhead]
      -- the line break in front of the first item is passed together with the bracket
      refine valueWith_array (skip_lineBreak.trans (skip_cons hspace)) hclose ?_
      refine separated_commas rfl isSpace_of_mem_lineBreak (by decide) (fun rest => ?_)
        fun item hitem rest => ?_
      · rw [← hhead]
        exact ih.1 (level + 1) rest
      · rw [List.append_assoc, value_lineBreak]
        exact ih.2 item hitem (level + 1) rest
  | @object levels members hmembers ih =>
    cases members with
    | nil =>
      rw [value, write]
      rfl
    | cons member members =>
      rw [List.forall_mem_cons] at ih
      obtain ⟨head, hhead⟩ := @exists_writeMember_eq layout member (level + 1)
      rw [value, write_object_cons, hhead]
      refine valueWith_object (skip_lineBreak.trans (skip_cons rfl)) (by decide) ?_
      refine separated_commas rfl isSpace_of_mem_lineBreak (by decide) (fun rest => ?_)
        fun member hmember rest => ?_
      · rw [← hhead]
        exact member_writeMember (ih.1 (level + 1)) rest
      · rw [List.append_assoc, member_lineBreak]
        exact member_writeMember (ih.2 member hmember (level + 1)) rest

end Reader

end TagFilter.Json
