import TagFilter.Proofs.Document.Shape
import TagFilter.Proofs.Json.Reading

/-!
# Which texts are accepted

The two halves put together: the text spells a value, and the value describes a filter.

* `Filter.ofTextWithin_eq_ok_iff` — the texts from which a filter is read;
* `Filter.founded_ofReading` — every other text is refused for a reason;
* `Filter.ofBytesWithin_toUTF8` — a text can be given as bytes;
* `Filter.ofMembers_eq_ok_iff_describes` — a node can be made from its members, which are not
  checked otherwise than in a text;
* `Filter.ofText_accepts` — all of this.

Whether a minus sign is a part of the length of a number is left open. Nothing depends on it, since
the grammar and the reader have their limit from the same place.

Where a member does not count, since another one of its name comes later (`Filter.shadowed`), the
reader can be told apart from the shape of the document: a number that is too long is refused there,
an empty array is one level more than are counted, and a word may stand for a number.
-/

namespace TagFilter

namespace Filter

variable {f : Filter} {text : String} {limits : Json.Limits} {limit : Text.Numeral.Limit}
  {levels : Nat} {form : Form} {members : List (String × Json)} {j : Json}

/-- Values that are read from a text have room, however deep they are nested. -/
theorem ofJson_eq_ok_iff (hwithin : Json.Within levels j) : ofJson j = .ok f ↔ Describes j f :=
  @check_eq_ok_iff .text levels j f trivial hwithin

/-- **The texts from which a filter is read** are those that spell a value which describes it, in
which no number is too long and nothing is nested too deep. -/
theorem ofTextWithin_eq_ok_iff :
    ofTextWithin limits text = .ok f ↔
      ∃ j, Json.SpelledText limits.number j text.toList ∧ Json.Within limits.nesting j ∧
        Describes j f := by
  rw [ofTextWithin]
  constructor
  · intro h
    cases hread : Json.ofText? limits text.toList with
    | none =>
      rw [hread] at h
      exact absurd h Checked.fail_ne_ok
    | some j =>
      rw [hread] at h
      obtain ⟨hspelled, hwithin⟩ := Json.ofText?_eq_some_iff.mp hread
      exact ⟨j, hspelled, hwithin, (ofJson_eq_ok_iff hwithin).mp h⟩
  · rintro ⟨j, hspelled, hwithin, hdescribes⟩
    rw [Json.ofText?_eq_some_iff.mpr ⟨hspelled, hwithin⟩]
    exact (ofJson_eq_ok_iff hwithin).mpr hdescribes

/-- The order of the members and the space between the parts make no difference. -/
example : (ofText "\x7b \"pattern\" :\n\"a\" , \"type\":\"identifier\" \x7d").toOption =
    some (identifier "a") := by decide +kernel

/-- A refusal has a defect, be it that no value could be read. -/
theorem founded_ofReading (found : Option Json) : (ofReading found).Founded := by
  cases found with
  | none => exact Checked.founded_fail _
  | some j => exact founded_check .text j

/-- The bytes of a text are read as this text. -/
theorem ofBytesWithin_toUTF8 (limits : Json.Limits) (text : String) :
    ofBytesWithin limits text.toUTF8 = ofTextWithin limits text := by
  have hread : String.fromUTF8? text.toUTF8 = some text := dif_pos text.isValidUTF8
  rw [ofBytesWithin, Json.ofBytes?, hread, ofTextWithin]

/-- A node made from its members has room for everything that a text has room for. -/
theorem ofMembers_eq_ok_iff_describes (hwithin : Json.Within 200 (.object members))
    (htag : Json.LastIs "type" (.string form.tag) members) :
    ofMembers form members = .ok f ↔ Describes (.object members) f := by
  obtain ⟨fewer, hlevels, hmembers⟩ := exists_fewer hwithin htag.mem
  obtain rfl : fewer = 199 := by omega
  refine ofMembers_eq_ok_iff htag ?_ hmembers
  -- the readers before the one of its form take two levels at most
  cases form <;> simp [Place.Room, Form.rank, Place.levelLimit]

/-! ### Members that do not count -/

/-- The value of a leaf in which the pattern is there twice. -/
def shadowing (j : Json) : Json :=
  .object [("type", .string "identifier"), ("pattern", j), ("pattern", .string "a")]

/-- A text of this value, if the first of the two patterns is spelled `chs`. -/
def shadowed (chs : List Char) : String :=
  String.ofList ('{' :: (Json.commas
    [Json.writeString "type" ++ ':' :: Json.writeString "identifier",
      Json.writeString "pattern" ++ ':' :: chs,
      Json.writeString "pattern" ++ ':' :: Json.writeString "a"] ++ ['}']))

/-- The first of the two patterns may be anything. -/
theorem describes_shadowing (j : Json) : Describes (shadowing j) (identifier "a") := by
  refine .identifier ⟨⟨[], _, rfl, ?_⟩, ?_⟩ ⟨[_, _], [], rfl, ?_⟩ <;> simp

/-- A member with nothing around its parts. -/
def bareMember (name : String) (j : Json) (chs : List Char) : Json.Member :=
  ⟨⟨j, [], chs, []⟩, name, [], Json.writeString name, []⟩

theorem bareMember_named (name : String) (j : Json) (chs : List Char) :
    (bareMember name j chs).Named :=
  ⟨⟨List.forall_mem_nil _, List.forall_mem_nil _⟩, List.forall_mem_nil _, List.forall_mem_nil _,
    Json.Reader.spelledString_writeString name⟩

/-- Its text has to be spelled all the same. -/
theorem spelledText_shadowed {chs : List Char} (h : Json.Spelled limit j chs) :
    Json.SpelledText limit (shadowing j) (shadowed chs).toList := by
  have hstring : ∀ s, Json.Spelled limit (.string s) (Json.writeString s) := fun s =>
    .string (Json.Reader.spelledString_writeString s)
  have hspelled := @Json.Spelled.object limit
    [bareMember "type" (.string "identifier") (Json.writeString "identifier"),
      bareMember "pattern" j chs, bareMember "pattern" (.string "a") (Json.writeString "a")]
    (by simp) (by simp [bareMember_named]) (by simp [bareMember, hstring, h])
  simpa [shadowed, shadowing, bareMember, Json.Item.written, Json.Member.written,
    Json.Member.entry] using hspelled.spelledText

/-- Brackets inside one another, with nothing between the innermost ones. -/
def boxed : Nat → Json
  | 0 => .array []
  | n + 1 => .array [boxed n]

theorem spelled_boxed (n : Nat) :
    Json.Spelled limit (boxed n) (List.replicate (n + 1) '[' ++ List.replicate (n + 1) ']') := by
  induction n with
  | zero => exact .noItems (List.forall_mem_nil _)
  | succ n ih =>
    have hspelled := @Json.Spelled.array limit
      [⟨boxed n, [], List.replicate (n + 1) '[' ++ List.replicate (n + 1) ']', []⟩] (by simp)
      (List.forall_mem_singleton.mpr ⟨List.forall_mem_nil _, List.forall_mem_nil _⟩)
      (List.forall_mem_singleton.mpr ih)
    rw [boxed, List.replicate_succ, List.replicate_succ' (n := n + 1) (a := ']')]
    simpa [Json.Item.written, Json.commas_singleton] using hspelled

theorem within_boxed (n : Nat) : Json.Within n (boxed n) := by
  induction n with
  | zero => exact .noItems
  | succ n ih => exact .array (List.forall_mem_singleton.mpr ih)

theorem deep_boxed (n : Nat) : Json.Deep (n + 1) (boxed n) := by
  induction n with
  | zero => exact .array
  | succ n ih => exact .item List.mem_cons_self ih

theorem within_shadowing (h : Json.Within levels j) :
    Json.Within (levels + 1) (shadowing j) := by
  refine .object ?_
  simp [h, Json.Within.string]

/-- With room for it, the first pattern makes no difference. -/
theorem ofTextWithin_shadowed {chs : List Char} (hspelled : Json.Spelled limits.number j chs)
    (hwithin : Json.Within levels j) (hlevels : levels + 1 ≤ limits.nesting) :
    ofTextWithin limits (shadowed chs) = .ok (identifier "a") :=
  ofTextWithin_eq_ok_iff.mpr ⟨_, spelledText_shadowed hspelled,
    (within_shadowing hwithin).mono hlevels, describes_shadowing j⟩

theorem wordless_shadowing (h : Json.Wordless j) : Json.Wordless (shadowing j) := by
  refine .object ?_
  simp [h, Json.Wordless.string]

/-- A number with a digit too many is an integer like any other. -/
theorem spelled_ones (n : Nat) :
    Json.Spelled ⟨n + 1, false⟩
      (.number (.whole (Text.Numeral.mk false (List.replicate (n + 1) '1')).value))
      (List.replicate (n + 1) '1') := by
  refine .number (.whole ⟨rfl, ⟨by simp, ?_⟩, ?_, Nat.le_of_eq List.length_replicate⟩)
  · intro c hc
    rw [List.eq_of_mem_replicate hc]
    rfl
  · intro hzero
    exact absurd (Option.some.inj hzero) (by decide)

/-! ### All texts -/

/-- **A text is accepted if and only if it spells a value that describes a filter**, and every other
one is refused with at least one defect; its bytes are treated as the text is. If the text spells an
object with the tag of a form, it is accepted if and only if the node of this form with the members
of the object is, and no number in the text is too long; and it gives the same filter. All this
holds whether a minus sign counts towards the length of a number, as a digit does, or not. -/
theorem ofText_accepts (signCounts : Bool) (text : String) :
    (∀ f, ofTextWithin (textLimits signCounts) text = .ok f ↔
      ∃ j, Json.SpelledText ⟨4300, signCounts⟩ j text.toList ∧ Json.Within 200 j ∧
        Describes j f) ∧
    ((∀ f, ofTextWithin (textLimits signCounts) text ≠ .ok f) →
      ∃ d ds, ofTextWithin (textLimits signCounts) text = .error (d :: ds)) ∧
    ofBytesWithin (textLimits signCounts) text.toUTF8 =
      ofTextWithin (textLimits signCounts) text ∧
    ∀ (limit : Text.Numeral.Limit) (form : Form) (members : List (String × Json)),
      Json.SpelledText limit (.object members) text.toList →
      Json.Within 200 (.object members) →
      Json.LastIs "type" (.string form.tag) members →
      ∀ f, ofTextWithin (textLimits signCounts) text = .ok f ↔
        ofMembers form members = .ok f ∧
          Json.SpelledText ⟨4300, signCounts⟩ (.object members) text.toList := by
  refine ⟨fun f => ofTextWithin_eq_ok_iff, ?_, ofBytesWithin_toUTF8 _ text, ?_⟩
  · intro hrefused
    have hfounded := founded_ofReading (Json.ofText? (textLimits signCounts) text.toList)
    rw [← ofTextWithin] at hfounded
    cases h : ofTextWithin (textLimits signCounts) text with
    | ok f => exact absurd h (hrefused f)
    | error ds =>
      rw [h] at hfounded
      cases ds with
      | nil => exact absurd rfl hfounded
      | cons d ds => exact ⟨d, ds, rfl⟩
  · intro limit form members hspelled hwithin htag f
    rw [ofTextWithin_eq_ok_iff, ofMembers_eq_ok_iff_describes hwithin htag]
    constructor
    · rintro ⟨j, hj, -, hdescribes⟩
      -- the text spells no other value than the object
      obtain rfl := hspelled.eq hj
      exact ⟨hdescribes, hj⟩
    · rintro ⟨hdescribes, hfew⟩
      exact ⟨_, hfew, hwithin, hdescribes⟩

/-- What a member is that does not count makes no difference; and no filter is read from nothing. -/
theorem ofText_accepts_shadowed :
    Json.SpelledText ⟨4300, false⟩ (shadowing (.bool true))
      (shadowed ['t', 'r', 'u', 'e']).toList ∧
      ofText (shadowed ['t', 'r', 'u', 'e']) = .ok (identifier "a") ∧
      ofBytes (shadowed ['t', 'r', 'u', 'e']).toUTF8 = ofText (shadowed ['t', 'r', 'u', 'e']) ∧
      ofMembers .identifier
        [("type", .string "identifier"), ("pattern", .bool true), ("pattern", .string "a")] =
          .ok (identifier "a") ∧
      (∀ f, ofText "" ≠ .ok f) ∧ ∃ d ds, ofText "" = .error (d :: ds) := by
  have hspelled : Json.SpelledText ⟨4300, false⟩ (shadowing (.bool true))
      (shadowed ['t', 'r', 'u', 'e']).toList := spelledText_shadowed .true
  have hwithin : Json.Within 200 (shadowing (.bool true)) := within_shadowing .bool
  have haccepted := ((ofText_accepts false _).1 (identifier "a")).mpr
    ⟨_, hspelled, hwithin, describes_shadowing _⟩
  have hmembers := ((ofText_accepts false _).2.2.2 _ .identifier _ hspelled hwithin
    (describes_shadowing _).tag (identifier "a")).mp haccepted
  have hrefused : ∀ f, ofText "" ≠ .ok f := fun f h => by cases h
  exact ⟨hspelled, haccepted, (ofText_accepts false _).2.2.1, hmembers.1, hrefused,
    (ofText_accepts false "").2.1 hrefused⟩

/-- **The reader is seen at work where a member does not count.** A number with 4301 digits is
well-formed, and a text with it is refused; an empty array is let pass on the level 201; and `NaN`,
which is no strict JSON, is let pass as well. -/
theorem ofText_refuses_long_accepts_deep :
    ¬ (ofText (shadowed (List.replicate 4301 '1')) = .ok (identifier "a") ↔
      ∃ limit j, Json.SpelledText limit j (shadowed (List.replicate 4301 '1')).toList ∧
        Json.Wordless j ∧ ¬ Json.Deep 201 j ∧ Describes j (identifier "a")) ∧
    ¬ (ofText (shadowed (List.replicate 200 '[' ++ List.replicate 200 ']')) =
        .ok (identifier "a") ↔
      ∃ limit j, Json.SpelledText limit j
          (shadowed (List.replicate 200 '[' ++ List.replicate 200 ']')).toList ∧
        Json.Wordless j ∧ ¬ Json.Deep 201 j ∧ Describes j (identifier "a")) ∧
    ¬ (ofText (shadowed ['N', 'a', 'N']) = .ok (identifier "a") ↔
      ∃ limit j, Json.SpelledText limit j (shadowed ['N', 'a', 'N']).toList ∧
        Json.Wordless j ∧ ¬ Json.Deep 201 j ∧ Describes j (identifier "a")) := by
  refine ⟨?_, ?_, ?_⟩
  · intro hiff
    have hread : Json.ofText? (textLimits false) (shadowed (List.replicate 4301 '1')).toList =
        none := by
      rw [shadowed, String.toList_ofList, ← Option.isNone_iff_eq_none]
      decide +kernel
    have hwithin := (@within_shadowing 0 (.number (.whole
      (Text.Numeral.mk false (List.replicate 4301 '1')).value)) .number).mono
        (show 0 + 1 ≤ 199 by decide)
    -- with one digit more allowed, the text spells the value of a leaf
    have haccepted := hiff.mpr ⟨_, _, spelledText_shadowed (spelled_ones 4300),
      wordless_shadowing .whole, hwithin.not_deep, describes_shadowing _⟩
    rw [ofText, ofTextWithin, hread] at haccepted
    exact Checked.fail_ne_ok haccepted
  · intro hiff
    have haccepted : ofText _ = _ :=
      ofTextWithin_shadowed (spelled_boxed 199) (within_boxed 199) (by decide)
    -- whatever value the text is said to spell, it is this one
    obtain ⟨limit, j, hj, -, hdeep, -⟩ := hiff.mp haccepted
    obtain rfl := (spelledText_shadowed (@spelled_boxed limit 199)).eq hj
    have hmember : ("pattern", boxed 199) ∈
        [("type", .string "identifier"), ("pattern", boxed 199), ("pattern", .string "a")] := by
      simp
    exact hdeep (.member hmember (deep_boxed 199))
  · intro hiff
    have haccepted : ofText _ = _ :=
      @ofTextWithin_shadowed _ 0 _ _ (.number .notANumber) .number (by decide)
    obtain ⟨limit, j, hj, hwordless, -, -⟩ := hiff.mp haccepted
    obtain rfl := (@spelledText_shadowed limit _ _ (.number .notANumber)).eq hj
    -- the word is the value of a member
    cases hwordless with
    | object hmembers => cases hmembers ("pattern", .number .notANumber) (by simp)

end Filter

end TagFilter
