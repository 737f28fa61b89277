import TagFilter.Proofs.Json.Grammar
import TagFilter.Proofs.Json.Strings

/-!
# Strings and numbers are read as the grammar spells them

Both directions for the parts of a text that have no parts of their own:

* `Reader.string_eq_some_iff` — a string is read exactly if one is spelled at the front of the text;
* `Reader.spelled_of_number`, `Reader.number_append` — what is read as a number is spelled, and what
  is spelled is read.

A closing quote ends a string whatever comes next, but a number goes on as long as it can. What is
left of the text must not go on with it (`EndsNumber`); if it did, another number would have been
read. So the reader's way to find the end of a number is a side condition on the rest, and apart
from it a number is read from its parts, each of which has a statement of the same form.
-/

namespace TagFilter.Json.Reader

variable {α β : Type} {c : Char} {chs text rest found : List Char}

/-- What was read and then turned into something else was read as something. -/
theorem exists_of_map {f : α → β} {read : Option (α × List Char)} {b : β}
    (h : (read.map fun (a, rest) => (f a, rest)) = some (b, rest)) :
    ∃ a, read = some (a, rest) ∧ f a = b := by
  obtain ⟨⟨a, rest'⟩, hread, hpair⟩ := Option.map_eq_some_iff.mp h
  obtain ⟨rfl, rfl⟩ := Prod.mk.inj hpair
  exact ⟨a, hread, rfl⟩

/-! ### Strings -/

/-- Every way to write a character is read as this character. -/
theorem stringBody_spelledChar {unit : List Char} (h : SpelledChar c unit) (rest : List Char) :
    stringBody (unit ++ rest) = (stringBody rest).map (cons c) := by
  cases h with
  | plain hquote hbackslash hcontrol => exact stringBody_plain hquote hbackslash hcontrol
  | letter h => exact stringBody_letter h
  | unit h hhigh hlow =>
    simp only [List.cons_append, List.nil_append]
    rw [stringBody, h]
    simp [hhigh, hlow]
  | pair h hhigh h' hlow =>
    -- the second half is read as soon as the first one is known to be one
    simp only [List.cons_append, List.nil_append]
    rw [stringBody, h]
    simp [hhigh, h', hlow]

theorem stringBody_of_spelled {body : List Char} (h : SpelledBody chs body) (rest : List Char) :
    stringBody (body ++ '"' :: rest) = some (chs, rest) := by
  induction h with
  | nil => rw [List.nil_append, stringBody]
  | cons head _ ih => rw [List.append_assoc, stringBody_spelledChar head, ih, Option.map_some, cons]

/-- What is read from behind one way to write a character is spelled with it in front. -/
theorem exists_spelled_cons {unit after : List Char} (hunit : SpelledChar c unit)
    (h : (stringBody after).map (cons c) = some (chs, rest))
    (ih : ∀ {others : List Char}, stringBody after = some (others, rest) →
      ∃ body, after = body ++ '"' :: rest ∧ SpelledBody others body) :
    ∃ body, unit ++ after = body ++ '"' :: rest ∧ SpelledBody chs body := by
  obtain ⟨⟨others, rest'⟩, hread, hcons⟩ := Option.map_eq_some_iff.mp h
  obtain ⟨rfl, rfl⟩ := Prod.mk.inj hcons
  obtain ⟨body, rfl, hbody⟩ := ih hread
  exact ⟨unit ++ body, by simp, .cons hunit hbody⟩

/-- What is read up to a quote is spelled there, by induction on the reading. -/
theorem spelled_of_stringBody (h : stringBody text = some (chs, rest)) :
    ∃ body, text = body ++ '"' :: rest ∧ SpelledBody chs body := by
  fun_induction stringBody text generalizing chs with
  -- the text ends too early, or something in it spells no character
  | case1 | case3 | case4 | case6 | case7 | case8 | case10 | case12 => cases h
  | case2 =>
    cases h
    exact ⟨[], rfl, .nil⟩
  | case5 p q r s u hu hhigh p' q' r' s' after v hv hlow ih =>
    exact exists_spelled_cons (.pair hu hhigh hv hlow) h ih
  | case9 p q r s after u hu hhigh hlow ih =>
    exact exists_spelled_cons (.unit hu (by simpa using hhigh) (by simpa using hlow)) h ih
  | case11 letter after _ c hc ih => exact exists_spelled_cons (.letter hc) h ih
  | case13 c after hquote _ hletter hcontrol ih =>
    refine exists_spelled_cons (.plain (by simpa using hquote) ?_ hcontrol) h ih
    -- a backslash with something behind it would have been an escape
    rintro rfl
    cases after with
    | nil => simp [stringBody] at h
    | cons letter after => exact hletter letter after rfl rfl

/-- **A string is read if and only if it is spelled** at the front of the text, whatever follows. -/
theorem string_eq_some_iff {s : String} :
    string text = some (s, rest) ↔ ∃ label, SpelledString s label ∧ text = label ++ rest := by
  constructor
  · intro h
    unfold string at h
    split at h
    next inside =>
      obtain ⟨chs, hread, rfl⟩ := exists_of_map h
      obtain ⟨body, rfl, hbody⟩ := spelled_of_stringBody hread
      refine ⟨'"' :: (body ++ ['"']), ⟨body, rfl, ?_⟩, by simp⟩
      rwa [String.toList_ofList]
    next => cases h
  · rintro ⟨label, ⟨body, rfl, hbody⟩, rfl⟩
    rw [List.cons_append, List.append_assoc, List.singleton_append, string,
      stringBody_of_spelled hbody]
    simp

/-- What the writer writes for a string spells this string. -/
theorem spelledString_writeString (s : String) : SpelledString s (writeString s) := by
  have hread := string_writeString s []
  obtain ⟨label, hlabel, htext⟩ := string_eq_some_iff.mp hread
  rw [List.append_nil, List.append_nil] at htext
  rwa [htext]

/-! ### Digits -/

/-- The text does not go on with a digit. -/
def EndsDigits (rest : List Char) : Prop := ∀ c ∈ rest.head?, c.isDigit = false

/-- Digits that do not go on are all that there are. -/
theorem span_digits (hfound : ∀ c ∈ found, c.isDigit = true) (hrest : EndsDigits rest) :
    (found ++ rest).takeWhile Char.isDigit = found ∧
      (found ++ rest).dropWhile Char.isDigit = rest := by
  rw [List.takeWhile_append_of_pos hfound, List.dropWhile_append_of_pos hfound]
  cases rest with
  | nil => simp
  | cons c rest =>
    have hc : c.isDigit = false := hrest c rfl
    simp [hc]

theorem digits_append (hfound : Digits found) (hrest : EndsDigits rest) :
    digits (found ++ rest) = some (found, rest) := by
  obtain ⟨htake, hdrop⟩ := span_digits hfound.2 hrest
  simp only [digits, htake, hdrop]
  split
  next => exact absurd rfl hfound.1
  next => rfl

theorem spelled_of_digits (h : digits text = some (found, rest)) :
    Digits found ∧ text = found ++ rest := by
  unfold digits at h
  split at h
  next => cases h
  next hne =>
    cases h
    exact ⟨⟨hne, List.all_eq_true.mp List.all_takeWhile⟩, List.takeWhile_append_dropWhile.symm⟩

/-! ### Integers -/

variable {limit : Text.Numeral.Limit} {n : Text.Numeral}

/-- The digits of a plain integer are read, if it is not too long. -/
theorem readDigits_append (hdigits : Digits n.digits)
    (hzero : n.digits.head? = some '0' → n.digits = ['0']) (hfits : limit.Fits n)
    (hrest : EndsDigits rest) :
    Text.Numeral.readDigits limit n.negative (n.digits ++ rest) = .ok (n, rest) := by
  obtain ⟨htake, hdrop⟩ := span_digits hdigits.2 hrest
  simp only [Text.Numeral.readDigits, htake, hdrop]
  -- no digits, a zero in front of others, and all the rest
  split
  next hnil => exact absurd hnil hdigits.1
  next hcons =>
    rw [hcons] at hzero
    exact absurd (hzero rfl) (by simp)
  next => rw [if_pos hfits]

theorem spelled_of_readDigits {negative : Bool}
    (h : Text.Numeral.readDigits limit negative text = .ok (n, rest)) :
    SpelledInteger limit n ((if negative then ['-'] else []) ++ n.digits) ∧
      text = n.digits ++ rest := by
  simp only [Text.Numeral.readDigits] at h
  split at h
  next => cases h
  next => cases h
  next hne hzero =>
    split at h
    next hfits =>
      cases h
      refine ⟨⟨rfl, ⟨hne, List.all_eq_true.mp List.all_takeWhile⟩, ?_, hfits⟩,
        List.takeWhile_append_dropWhile.symm⟩
      -- a zero has nothing behind it
      intro hhead
      obtain ⟨others, hcons⟩ := List.head?_eq_some_iff.mp hhead
      cases others with
      | nil => exact hcons
      | cons c others => exact absurd hcons (hzero c others)
    next => cases h

theorem spelled_of_read (h : Text.Numeral.read limit text = .ok (n, rest)) :
    ∃ written, SpelledInteger limit n written ∧ text = written ++ rest := by
  unfold Text.Numeral.read at h
  -- with a sign and without one
  split at h
  all_goals
    obtain ⟨hspelled, rfl⟩ := spelled_of_readDigits h
    exact ⟨_, hspelled, rfl⟩

/-- An integer starts with a digit or with a minus sign and a digit. -/
theorem exists_digit_of_spelledInteger {written : List Char}
    (h : SpelledInteger limit n written) :
    ∃ c others, c.isDigit = true ∧ (written = c :: others ∨ written = '-' :: c :: others) := by
  obtain ⟨c, others, hcons⟩ := List.exists_cons_of_ne_nil h.digits.1
  refine ⟨c, others, h.digits.2 c (by simp [hcons]), ?_⟩
  rw [h.text_eq, hcons]
  cases n.negative <;> simp

theorem read_append {written : List Char} (h : SpelledInteger limit n written)
    (hrest : EndsDigits rest) : Text.Numeral.read limit (written ++ rest) = .ok (n, rest) := by
  have hread := readDigits_append h.digits h.no_zero h.fits hrest
  obtain ⟨c, others, hcons⟩ := List.exists_cons_of_ne_nil h.digits.1
  have hc : c.isDigit = true := h.digits.2 c (by simp [hcons])
  rw [h.text_eq]
  cases hsign : n.negative with
  | true =>
    rw [hsign] at hread
    exact hread
  | false =>
    rw [hsign] at hread
    simp only [Bool.false_eq_true, if_false, List.nil_append]
    rw [Text.Numeral.read, hread]
    -- a digit is no sign
    rintro text htext
    rw [hcons, List.cons_append] at htext
    rw [(List.cons.inj htext).1] at hc
    exact absurd hc (by decide)

/-- A minus sign takes the place of a digit, if it counts. -/
example : Text.Numeral.read ⟨2, false⟩ ['-', '4', '3'] = .ok (⟨true, ['4', '3']⟩, []) ∧
    Text.Numeral.read ⟨2, true⟩ ['-', '4', '3'] = .error .tooLong := ⟨rfl, rfl⟩

/-! ### Fractions and exponents -/

/-- The text does not go on with anything that could belong to a number. -/
def EndsNumber (rest : List Char) : Prop :=
  ∀ c ∈ rest.head?, c.isDigit = false ∧ c ≠ '.' ∧ c ≠ 'e' ∧ c ≠ 'E'

theorem EndsNumber.endsDigits (h : EndsNumber rest) : EndsDigits rest := fun c hc => (h c hc).1

theorem spelled_of_fraction {part : Option (List Char)} (h : fraction text = some (part, rest)) :
    ∃ written, SpelledFraction part written ∧ text = written ++ rest := by
  unfold fraction at h
  split at h
  next text =>
    obtain ⟨found, hread, rfl⟩ := exists_of_map h
    obtain ⟨hfound, rfl⟩ := spelled_of_digits hread
    exact ⟨_, .some hfound, rfl⟩
  next =>
    cases h
    exact ⟨[], .none, rfl⟩

theorem fraction_append {part : Option (List Char)} {written : List Char}
    (h : SpelledFraction part written) (hdigits : EndsDigits rest)
    (hpoint : ∀ c ∈ rest.head?, c ≠ '.') : fraction (written ++ rest) = some (part, rest) := by
  cases h with
  | none =>
    rw [List.nil_append, fraction]
    rintro text rfl
    exact hpoint '.' rfl rfl
  | some h => rw [List.cons_append, fraction, digits_append h hdigits, Option.map_some]

theorem spelled_of_signedDigits {power : Int} (h : signedDigits text = some (power, rest))
    {mark : Char} (hmark : mark = 'e' ∨ mark = 'E') :
    ∃ written, SpelledExponent (some power) written ∧ mark :: text = written ++ rest := by
  unfold signedDigits at h
  split at h
  all_goals
    obtain ⟨⟨found, rest'⟩, hread, hpair⟩ := Option.map_eq_some_iff.mp h
    obtain ⟨rfl, rfl⟩ := Prod.mk.inj hpair
    obtain ⟨hfound, rfl⟩ := spelled_of_digits hread
  · exact ⟨_, .minus hmark hfound, rfl⟩
  · exact ⟨_, .plus hmark hfound, rfl⟩
  · exact ⟨_, .plain hmark hfound, rfl⟩

theorem spelled_of_exponent {power : Option Int} (h : exponent text = some (power, rest)) :
    ∃ written, SpelledExponent power written ∧ text = written ++ rest := by
  unfold exponent at h
  split at h
  · obtain ⟨power, hread, rfl⟩ := exists_of_map h
    exact spelled_of_signedDigits hread (.inl rfl)
  · obtain ⟨power, hread, rfl⟩ := exists_of_map h
    exact spelled_of_signedDigits hread (.inr rfl)
  · cases h
    exact ⟨[], .none, rfl⟩

/-- A sign need not be there. -/
theorem signedDigits_append (hfound : Digits found) (hrest : EndsDigits rest) :
    signedDigits (found ++ rest) = some ((Text.ofDigits found : Int), rest) := by
  obtain ⟨c, others, rfl⟩ := List.exists_cons_of_ne_nil hfound.1
  have hc : c.isDigit = true := hfound.2 c List.mem_cons_self
  rw [signedDigits, digits_append hfound hrest, Option.map_some]
  -- a digit is neither of the two signs
  all_goals
    rintro text htext
    rw [(List.cons.inj htext).1] at hc
    exact absurd hc (by decide)

theorem exponent_append {power : Option Int} {written : List Char}
    (h : SpelledExponent power written) (hrest : EndsNumber rest) :
    exponent (written ++ rest) = some (power, rest) := by
  cases h with
  | none =>
    -- neither of the two letters comes next
    rw [List.nil_append, exponent]
    · rintro text rfl
      exact (hrest 'e' rfl).2.2.1 rfl
    · rintro text rfl
      exact (hrest 'E' rfl).2.2.2 rfl
  | plain hmark h =>
    have hread := signedDigits_append h hrest.endsDigits
    rcases hmark with rfl | rfl <;> simp [exponent, hread]
  | plus hmark h | minus hmark h =>
    have hread := digits_append h hrest.endsDigits
    rcases hmark with rfl | rfl <;> simp [exponent, signedDigits, hread]

/-! ### Numbers -/

/-- A fraction or an exponent does not start with a digit, and an exponent not with a point. -/
theorem endsDigits_fraction {part : Option (List Char)} {written : List Char}
    (h : SpelledFraction part written) (hrest : EndsDigits rest) :
    EndsDigits (written ++ rest) := by
  cases h with
  | none => exact hrest
  | some => rintro c ⟨⟩; rfl

theorem endsDigits_exponent {power : Option Int} {written : List Char}
    (h : SpelledExponent power written) (hrest : EndsNumber rest) :
    EndsDigits (written ++ rest) ∧ ∀ c ∈ (written ++ rest).head?, c ≠ '.' := by
  cases h with
  | none => exact ⟨hrest.endsDigits, fun c hc => (hrest c hc).2.1⟩
  | plain hmark | plus hmark | minus hmark =>
    rcases hmark with rfl | rfl <;> refine ⟨?_, ?_⟩ <;> rintro c ⟨⟩ <;> decide

theorem spelled_of_finite {number : Number} (h : finite limit text = some (number, rest)) :
    ∃ written, SpelledNumber limit number written ∧ text = written ++ rest := by
  unfold finite at h
  cases hwhole : Text.Numeral.read limit text with
  | error => simp [hwhole, Except.toOption] at h
  | ok found =>
    obtain ⟨n, behind⟩ := found
    simp only [hwhole, Except.toOption, Option.bind_eq_bind, Option.bind_some,
      Option.bind_eq_some_iff, Prod.exists] at h
    obtain ⟨part, after, hpart, power, last, hpower, hfound⟩ := h
    obtain ⟨written, hwritten, rfl⟩ := spelled_of_read hwhole
    obtain ⟨fraction, hfraction, rfl⟩ := spelled_of_fraction hpart
    obtain ⟨exponent, hexponent, rfl⟩ := spelled_of_exponent hpower
    -- the number is whole if there is neither a fraction nor an exponent
    split at hfound
    next =>
      cases hfound
      cases hfraction
      cases hexponent
      exact ⟨written, .whole hwritten, rfl⟩
    next hsome =>
      cases hfound
      refine ⟨_, .decimal hwritten hfraction hexponent ?_, by simp⟩
      cases part with
      | some => simp
      | none =>
        cases power with
        | some => simp
        | none => exact absurd rfl (hsome rfl)

/-- An integer is followed by a fraction and an exponent, if these are there, and by the rest. -/
theorem finite_append {part : Option (List Char)} {power : Option Int}
    {written fraction exponent : List Char} (h : SpelledInteger limit n written)
    (hfraction : SpelledFraction part fraction) (hexponent : SpelledExponent power exponent)
    (hrest : EndsNumber rest) :
    finite limit (written ++ (fraction ++ (exponent ++ rest))) =
      match part, power with
      | none, none => some (.whole n.value, rest)
      | _, _ => some (.decimal ⟨n.negative, Text.ofDigits (n.digits ++ part.getD []),
          power.getD 0 - (part.getD []).length⟩, rest) := by
  -- from behind: each part ends where the next one starts
  obtain ⟨hends, hpoint⟩ := endsDigits_exponent hexponent hrest
  have hread := read_append h (endsDigits_fraction hfraction hends)
  have hpart := fraction_append hfraction hends hpoint
  have hpower := exponent_append hexponent hrest
  simp only [finite, hread, Except.toOption, hpart, hpower, Option.bind_eq_bind, Option.bind_some]
  cases part <;> cases power <;> rfl

/-- No word is a number that starts with a digit or a sign and a digit. -/
theorem number_eq_finite {written : List Char} (h : SpelledInteger limit n written) :
    number limit (written ++ rest) = finite limit (written ++ rest) := by
  obtain ⟨c, others, hc, rfl | rfl⟩ := exists_digit_of_spelledInteger h
  · rw [List.cons_append, number]
    all_goals
      intro after hafter
      obtain rfl := (List.cons.inj hafter).1
      exact absurd hc (by decide)
  · rw [List.cons_append, List.cons_append, number]
    all_goals
      intro after hafter
      obtain ⟨hsign, hafter⟩ := List.cons.inj hafter
    · exact absurd hsign (by decide)
    · exact absurd hsign (by decide)
    -- one of the words has a sign as well, but no digit behind it
    · obtain rfl := (List.cons.inj hafter).1
      exact absurd hc (by decide)

/-- The characters that a number can start with are among these, and no other value, no space and
no mark starts with one of them. -/
def isNumberHead (c : Char) : Bool := c.isDigit || c = '-' || c.isUpper

theorem ne_of_isNumberHead {d : Char} (hc : isNumberHead c = true) (hd : isNumberHead d = false) :
    c ≠ d := by
  rintro rfl
  rw [hc] at hd
  exact absurd hd (by decide)

theorem exists_cons_of_spelledInteger {written : List Char} (h : SpelledInteger limit n written) :
    ∃ c others, written = c :: others ∧ isNumberHead c = true := by
  obtain ⟨c, others, hc, rfl | rfl⟩ := exists_digit_of_spelledInteger h
  · exact ⟨c, _, rfl, by simp [isNumberHead, hc]⟩
  · exact ⟨'-', _, rfl, rfl⟩

theorem exists_cons_of_spelledNumber {found : Number} {written : List Char}
    (h : SpelledNumber limit found written) :
    ∃ c others, written = c :: others ∧ isNumberHead c = true := by
  cases h with
  | whole h => exact exists_cons_of_spelledInteger h
  | decimal h =>
    obtain ⟨c, others, rfl, hc⟩ := exists_cons_of_spelledInteger h
    exact ⟨c, _, rfl, hc⟩
  | notANumber | infinity | negativeInfinity => exact ⟨_, _, rfl, rfl⟩

theorem spelled_of_number {found : Number} (h : number limit text = some (found, rest)) :
    ∃ written, SpelledNumber limit found written ∧ text = written ++ rest := by
  unfold number at h
  split at h
  next =>
    cases h
    exact ⟨_, .notANumber, rfl⟩
  next =>
    cases h
    exact ⟨_, .infinity, rfl⟩
  next =>
    cases h
    exact ⟨_, .negativeInfinity, rfl⟩
  next => exact spelled_of_finite h

/-- **A number is read as it is spelled**, if the rest of the text does not go on with it. -/
theorem number_append {found : Number} {written : List Char} (h : SpelledNumber limit found written)
    (hrest : EndsNumber rest) : number limit (written ++ rest) = some (found, rest) := by
  cases h with
  | whole h =>
    rw [number_eq_finite h]
    exact finite_append h .none .none hrest
  | decimal h hfraction hexponent hsome =>
    rw [List.append_assoc, List.append_assoc, number_eq_finite h,
      finite_append h hfraction hexponent hrest]
    split
    next => simp at hsome
    next => rfl
  | notANumber | infinity | negativeInfinity => rfl

end TagFilter.Json.Reader
