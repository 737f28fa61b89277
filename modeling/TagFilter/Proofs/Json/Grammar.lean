import TagFilter.Json.Reader

/-!
# The grammar of JSON

Which texts spell which values, as relations between the two and without any notion of reading. A
text can be spelled in one way only, but nothing is said here about how to find it. This is the JSON
that the reader reads. It is strict JSON but for two things: the words `NaN`, `Infinity` and
`-Infinity` are numbers, and there are no escapes of half a surrogate pair without the other half,
since no character stands for one.

* `SpelledString` — a string in quotes: each character stands for itself, unless it is a quote, a
  backslash or a control, or is written as an escape (`SpelledChar`);
* `SpelledNumber` — a number: an integer without needless zeros, with a fraction and an exponent or
  without them, or one of the three words. An integer may be no longer than `limit` says;
* `Spelled` — a value, without space around it. Between the parts of an array or of an object there
  may be space, so that an item (`Item`) and a member (`Member`) bring the space around them along;
* `SpelledText` — a value with space around it, and nothing else;
* `Within` — how deep arrays and objects are nested in a value, not counting the empty ones. With
  these counted as well (`Deep`), there can be one level more (`Within.not_deep`);
* `Wordless` — no number in a value is one of the three words.

The items of an array are a list of any length, each with the text that spells it. So the relation
for values needs no companions for lists of items and of members, and a proof about it has one case
for each sort of value.
-/

namespace TagFilter.Json

/-- Nothing but space. -/
def Blank (chs : List Char) : Prop := ∀ c ∈ chs, Reader.isSpace c = true

/-! ### Strings -/

/-- What a character may be written as in a string. Strict JSON also has escapes of single halves of
a surrogate pair; there is no character that they could stand for. -/
inductive SpelledChar : Char → List Char → Prop where
  | plain {c : Char} (hquote : c ≠ '"') (hbackslash : c ≠ '\\') (hcontrol : ¬ c < ' ') :
    SpelledChar c [c]
  | letter {letter c : Char} (h : Reader.escaped? letter = some c) :
    SpelledChar c ['\\', letter]
  /-- Four digits of a code unit that is no half of a pair. -/
  | unit {p q r s : Char} {u : Nat} (h : Reader.codeUnit? p q r s = some u)
    (hhigh : Reader.isHighUnit u = false) (hlow : Reader.isLowUnit u = false) :
    SpelledChar (Char.ofNat u) ['\\', 'u', p, q, r, s]
  /-- The two halves of a pair, one right behind the other. -/
  | pair {p q r s p' q' r' s' : Char} {u v : Nat} (h : Reader.codeUnit? p q r s = some u)
    (hhigh : Reader.isHighUnit u = true) (h' : Reader.codeUnit? p' q' r' s' = some v)
    (hlow : Reader.isLowUnit v = true) :
    SpelledChar (Reader.joinUnits u v)
      ['\\', 'u', p, q, r, s, '\\', 'u', p', q', r', s']

/-- What stands between the quotes of a string. -/
inductive SpelledBody : List Char → List Char → Prop where
  | nil : SpelledBody [] []
  | cons {c : Char} {unit chs text : List Char} (head : SpelledChar c unit)
    (tail : SpelledBody chs text) : SpelledBody (c :: chs) (unit ++ text)

/-- A string in quotes. -/
def SpelledString (s : String) (text : List Char) : Prop :=
  ∃ body, text = '"' :: (body ++ ['"']) ∧ SpelledBody s.toList body

/-! ### Numbers -/

/-- Decimal digits, at least one. -/
def Digits (digits : List Char) : Prop := digits ≠ [] ∧ ∀ c ∈ digits, c.isDigit = true

/-- An integer that is not too long. Its first digit is no zero, unless it is the only one. -/
structure SpelledInteger (limit : Text.Numeral.Limit) (n : Text.Numeral) (text : List Char) :
    Prop where
  text_eq : text = (if n.negative then ['-'] else []) ++ n.digits
  digits : Digits n.digits
  no_zero : n.digits.head? = some '0' → n.digits = ['0']
  fits : limit.Fits n

/-- The digits behind a point, or no point. -/
inductive SpelledFraction : Option (List Char) → List Char → Prop where
  | none : SpelledFraction none []
  | some {digits : List Char} (h : Digits digits) : SpelledFraction (some digits) ('.' :: digits)

/-- A power of ten behind the letter for it, with a sign or without one, or no such letter. -/
inductive SpelledExponent : Option Int → List Char → Prop where
  | none : SpelledExponent none []
  | plain {mark : Char} {digits : List Char} (hmark : mark = 'e' ∨ mark = 'E')
    (h : Digits digits) : SpelledExponent (some (Text.ofDigits digits)) (mark :: digits)
  | plus {mark : Char} {digits : List Char} (hmark : mark = 'e' ∨ mark = 'E') (h : Digits digits) :
    SpelledExponent (some (Text.ofDigits digits)) (mark :: '+' :: digits)
  | minus {mark : Char} {digits : List Char} (hmark : mark = 'e' ∨ mark = 'E')
    (h : Digits digits) : SpelledExponent (some (-(Text.ofDigits digits : Int)))
      (mark :: '-' :: digits)

/-- A number. The words are none in strict JSON. -/
inductive SpelledNumber (limit : Text.Numeral.Limit) : Number → List Char → Prop where
  | whole {n : Text.Numeral} {text : List Char} (h : SpelledInteger limit n text) :
    SpelledNumber limit (.whole n.value) text
  /-- A fraction or an exponent makes a decimal number. -/
  | decimal {n : Text.Numeral} {part : Option (List Char)} {power : Option Int}
    {text fraction exponent : List Char} (h : SpelledInteger limit n text)
    (hfraction : SpelledFraction part fraction) (hexponent : SpelledExponent power exponent)
    (hsome : part.isSome ∨ power.isSome) :
    SpelledNumber limit (.decimal ⟨n.negative, Text.ofDigits (n.digits ++ part.getD []),
      power.getD 0 - (part.getD []).length⟩) (text ++ (fraction ++ exponent))
  | notANumber : SpelledNumber limit .notANumber ['N', 'a', 'N']
  | infinity : SpelledNumber limit (.infinity false) ['I', 'n', 'f', 'i', 'n', 'i', 't', 'y']
  | negativeInfinity :
    SpelledNumber limit (.infinity true) ['-', 'I', 'n', 'f', 'i', 'n', 'i', 't', 'y']

/-! ### Values -/

/-- An item of an array: its value, the text that spells it, and the space around that text. -/
structure Item where
  value : Json
  before : List Char
  text : List Char
  behind : List Char

/-- An item as it stands in the text. -/
def Item.written (i : Item) : List Char := i.before ++ (i.text ++ i.behind)

/-- A member of an object: an item behind a colon, and in front of the colon a name, with the text
that spells it and the space around this text. -/
structure Member extends Item where
  name : String
  lead : List Char
  label : List Char
  gap : List Char

/-- A member as it stands in the text. -/
def Member.written (m : Member) : List Char :=
  m.lead ++ (m.label ++ (m.gap ++ ':' :: m.toItem.written))

/-- A member without its text. -/
def Member.entry (m : Member) : String × Json := (m.name, m.value)

/-- Around the item there is nothing but space. -/
structure Item.Airy (i : Item) : Prop where
  before : Blank i.before
  behind : Blank i.behind

/-- Around the member there is nothing but space, and its name is spelled. -/
structure Member.Named (m : Member) : Prop extends m.toItem.Airy where
  lead : Blank m.lead
  gap : Blank m.gap
  label : SpelledString m.name m.label

/-- Texts with commas between them. -/
def commas (texts : List (List Char)) : List Char := [','].intercalate texts

theorem commas_singleton (text : List Char) : commas [text] = text := by
  simp [commas, List.intercalate]

theorem commas_cons {texts : List (List Char)} (hne : texts ≠ []) (text : List Char) :
    commas (text :: texts) = text ++ ',' :: commas texts := by
  obtain ⟨first, others, rfl⟩ := List.exists_cons_of_ne_nil hne
  simp [commas, List.intercalate]

/-- What the first thing starts with, all things with commas between them start with. -/
theorem commas_append (front text : List Char) (texts : List (List Char)) :
    commas ((front ++ text) :: texts) = front ++ commas (text :: texts) := by
  by_cases hne : texts = []
  · rw [hne, commas_singleton, commas_singleton]
  · rw [commas_cons hne, commas_cons hne, List.append_assoc]

/-- Between things there are commas, one less than there are things. -/
theorem length_le_commas (texts : List (List Char)) : texts.length ≤ (commas texts).length + 1 := by
  induction texts with
  | nil => simp
  | cons text texts ih =>
    by_cases hne : texts = []
    · simp [hne]
    · rw [commas_cons hne, List.length_append, List.length_cons, List.length_cons]
      omega

/-- A value, without space around it, in which no integer is too long. -/
inductive Spelled (limit : Text.Numeral.Limit) : Json → List Char → Prop where
  | null : Spelled limit .null ['n', 'u', 'l', 'l']
  | true : Spelled limit (.bool true) ['t', 'r', 'u', 'e']
  | false : Spelled limit (.bool false) ['f', 'a', 'l', 's', 'e']
  | number {n : Number} {text : List Char} (h : SpelledNumber limit n text) :
    Spelled limit (.number n) text
  | string {s : String} {text : List Char} (h : SpelledString s text) :
    Spelled limit (.string s) text
  | noItems {blanks : List Char} (h : Blank blanks) :
    Spelled limit (.array []) ('[' :: (blanks ++ [']']))
  | array {items : List Item} (hne : items ≠ []) (airy : ∀ i ∈ items, i.Airy)
    (values : ∀ i ∈ items, Spelled limit i.value i.text) :
    Spelled limit (.array (items.map Item.value))
      ('[' :: (commas (items.map Item.written) ++ [']']))
  | noMembers {blanks : List Char} (h : Blank blanks) :
    Spelled limit (.object []) ('{' :: (blanks ++ ['}']))
  | object {members : List Member} (hne : members ≠ []) (named : ∀ m ∈ members, m.Named)
    (values : ∀ m ∈ members, Spelled limit m.value m.text) :
    Spelled limit (.object (members.map Member.entry))
      ('{' :: (commas (members.map Member.written) ++ ['}']))

/-- A whole text: a value with space around it. -/
def SpelledText (limit : Text.Numeral.Limit) (j : Json) (text : List Char) : Prop :=
  ∃ i : Item, i.Airy ∧ i.value = j ∧ i.written = text ∧ Spelled limit j i.text

/-! ### Nesting -/

/-- Arrays and objects that are not empty are nested at most `levels` deep. -/
inductive Within : (levels : Nat) → Json → Prop where
  | null {levels : Nat} : Within levels .null
  | bool {levels : Nat} {b : Bool} : Within levels (.bool b)
  | number {levels : Nat} {n : Number} : Within levels (.number n)
  | string {levels : Nat} {s : String} : Within levels (.string s)
  | noItems {levels : Nat} : Within levels (.array [])
  | array {levels : Nat} {items : List Json} (h : ∀ item ∈ items, Within levels item) :
    Within (levels + 1) (.array items)
  | noMembers {levels : Nat} : Within levels (.object [])
  | object {levels : Nat} {members : List (String × Json)}
    (h : ∀ member ∈ members, Within levels member.2) : Within (levels + 1) (.object members)

/-- Arrays and objects are nested at least `levels` deep, with the empty ones counted as well. -/
inductive Deep : (levels : Nat) → Json → Prop where
  | array {items : List Json} : Deep 1 (.array items)
  | item {levels : Nat} {item : Json} {items : List Json} (hitem : item ∈ items)
    (h : Deep levels item) : Deep (levels + 1) (.array items)
  | object {members : List (String × Json)} : Deep 1 (.object members)
  | member {levels : Nat} {member : String × Json} {members : List (String × Json)}
    (hmember : member ∈ members) (h : Deep levels member.2) : Deep (levels + 1) (.object members)

/-- No number in the value is one of the words that strict JSON does not have. -/
inductive Wordless : Json → Prop where
  | null : Wordless .null
  | bool {b : Bool} : Wordless (.bool b)
  | whole {n : Int} : Wordless (.number (.whole n))
  | decimal {d : Decimal} : Wordless (.number (.decimal d))
  | string {s : String} : Wordless (.string s)
  | array {items : List Json} (h : ∀ item ∈ items, Wordless item) : Wordless (.array items)
  | object {members : List (String × Json)} (h : ∀ member ∈ members, Wordless member.2) :
    Wordless (.object members)

variable {ι : Type} {limit longer : Text.Numeral.Limit} {levels more : Nat} {j : Json}
  {text : List Char}

/-- What is nested at most so many levels deep is so within more levels. -/
theorem Within.mono (h : Within levels j) (hle : levels ≤ more) : Within more j := by
  induction h generalizing more with
  | null => exact .null
  | bool => exact .bool
  | number => exact .number
  | string => exact .string
  | noItems => exact .noItems
  | noMembers => exact .noMembers
  | array _ ih =>
    obtain ⟨more, rfl⟩ := Nat.exists_eq_add_of_le' (Nat.le_trans (Nat.le_add_left 1 _) hle)
    exact .array fun item hitem => ih item hitem (Nat.le_of_succ_le_succ hle)
  | object _ ih =>
    obtain ⟨more, rfl⟩ := Nat.exists_eq_add_of_le' (Nat.le_trans (Nat.le_add_left 1 _) hle)
    exact .object fun member hmember => ih member hmember (Nat.le_of_succ_le_succ hle)

/-- Finitely many values are all nested at most some number of levels deep. -/
theorem exists_within_all {is : List ι} {value : ι → Json}
    (h : ∀ i ∈ is, ∃ levels, Within levels (value i)) :
    ∃ levels, ∀ i ∈ is, Within levels (value i) := by
  induction is with
  | nil => exact ⟨0, List.forall_mem_nil _⟩
  | cons i is ih =>
    rw [List.forall_mem_cons] at h
    obtain ⟨levels, hfirst⟩ := h.1
    obtain ⟨others, hothers⟩ := ih h.2
    exact ⟨max levels others, List.forall_mem_cons.mpr ⟨hfirst.mono (Nat.le_max_left _ _),
      fun i hi => (hothers i hi).mono (Nat.le_max_right _ _)⟩⟩

theorem Spelled.exists_within (h : Spelled limit j text) : ∃ levels, Within levels j := by
  induction h with
  | null => exact ⟨0, .null⟩
  | true | false => exact ⟨0, .bool⟩
  | number => exact ⟨0, .number⟩
  | string => exact ⟨0, .string⟩
  | noItems => exact ⟨0, .noItems⟩
  | noMembers => exact ⟨0, .noMembers⟩
  | array _ _ _ ih =>
    obtain ⟨levels, hlevels⟩ := exists_within_all ih
    exact ⟨levels + 1, .array (List.forall_mem_map.mpr hlevels)⟩
  | object _ _ _ ih =>
    obtain ⟨levels, hlevels⟩ := exists_within_all ih
    exact ⟨levels + 1, .object (List.forall_mem_map.mpr hlevels)⟩

/-- An empty array or object makes up for one level more than are counted, and for no second one,
since nothing is nested in it. -/
theorem Within.not_deep (h : Within levels j) : ¬ Deep (levels + 2) j := by
  induction h with
  | null | bool | number | string => rintro ⟨⟩
  | noItems =>
    intro hdeep
    cases hdeep with
    | item hitem => cases hitem
  | noMembers =>
    intro hdeep
    cases hdeep with
    | member hmember => cases hmember
  | array _ ih =>
    intro hdeep
    cases hdeep with
    | item hitem h => exact ih _ hitem h
  | object _ ih =>
    intro hdeep
    cases hdeep with
    | member hmember h => exact ih _ hmember h

/-- A value without space around it is a text. -/
theorem Spelled.spelledText (h : Spelled limit j text) : SpelledText limit j text :=
  ⟨⟨j, [], text, []⟩, ⟨List.forall_mem_nil _, List.forall_mem_nil _⟩, rfl, List.append_nil text, h⟩

/-! ### Longer numbers -/

/-- An integer that fits a limit fits a greater one that leaves the sign out. So for any two limits
there is one for the integers of both. -/
theorem fits_of_fits {n : Text.Numeral} {length : Nat} (h : limit.Fits n)
    (hle : limit.length ≤ length) : Text.Numeral.Limit.Fits ⟨length, false⟩ n := by
  -- the digits are a part of the length, be the sign one or not
  have hdigits : n.digits.length ≤ n.length limit.signCounts := by
    rw [Text.Numeral.length]
    split <;> omega
  calc
    n.digits.length ≤ n.length limit.signCounts := hdigits
    _ ≤ limit.length := h
    _ ≤ length := hle

theorem SpelledInteger.mono {n : Text.Numeral} (h : SpelledInteger limit n text)
    (hfits : limit.Fits n → longer.Fits n) : SpelledInteger longer n text :=
  { h with fits := hfits h.fits }

/-- If all integers may be as long as before, everything is still spelled as before. -/
theorem Spelled.mono (h : Spelled limit j text) (hfits : ∀ n, limit.Fits n → longer.Fits n) :
    Spelled longer j text := by
  induction h with
  | null => exact .null
  | true => exact .true
  | false => exact .false
  | number h =>
    refine .number ?_
    cases h with
    | whole h => exact .whole (h.mono (hfits _))
    | decimal h hfraction hexponent hsome =>
      exact .decimal (h.mono (hfits _)) hfraction hexponent hsome
    | notANumber => exact .notANumber
    | infinity => exact .infinity
    | negativeInfinity => exact .negativeInfinity
  | string h => exact .string h
  | noItems h => exact .noItems h
  | noMembers h => exact .noMembers h
  | array hne hairy _ ih => exact .array hne hairy ih
  | object hne hnamed _ ih => exact .object hne hnamed ih

theorem SpelledText.mono (h : SpelledText limit j text)
    (hfits : ∀ n, limit.Fits n → longer.Fits n) : SpelledText longer j text := by
  obtain ⟨i, hairy, hvalue, hwritten, hspelled⟩ := h
  exact ⟨i, hairy, hvalue, hwritten, hspelled.mono hfits⟩

end TagFilter.Json
