import TagFilter.Proofs.Scanning.Lines
import TagFilter.Proofs.Scanning.Joining

/-!
# Two texts with blanks between them

If there is a blank between two texts, the tokens of the whole are those of the first text without
its end mark, followed by those of the second. Kinds, texts and places follow from `Scans.join`, which
knows nothing of lines. The lines and columns are then told by the places, on both sides of the seam:

* `endsLine_append_left`, `endsLine_append_right` — which characters end lines can be told from the
  two parts of a text, with one exception: a carriage return in front of the seam and a line feed
  behind it are one break in the whole, and two in the parts (`Unpaired`);
* `spot_append_right` — line and column of a place behind the seam;
* `tokenize_spaced` — the tokens of the whole.

In front of the seam there is nothing to except. A token has a character, so the character in front
of it is never the last one of its text.
-/

namespace TagFilter

/-- The number of line breaks of a text. -/
def lineBreaks (text : List Char) : Nat := (List.range text.length).countP (endsLine text)

/-- The number of characters behind the last line break of a text. -/
def lastLine (text : List Char) : Nat := text.length - lineStart text text.length

/-- The seam does not stand between the two characters of one line break. -/
def Unpaired (front text : List Char) : Prop :=
  ¬(front.getLast? = some '\r' ∧ text.head? = some '\n')

/-- A token of a text, if `front` stands before that text. In the first line it stands behind the last
line of `front`, and in all others where it stood. -/
def Token.movedBehind (front : List Char) (t : Token) : Token :=
  { t with
    position := t.position + front.length
    line := t.line + lineBreaks front
    column := if t.line = 1 then t.column + lastLine front else t.column }

variable {front text : List Char} {place : Nat}

/-! ### Line breaks on both sides of the seam -/

theorem endsLine_append_left (h : place + 1 < front.length) :
    endsLine (front ++ text) place = endsLine front place := by
  rw [endsLine, endsLine, List.getElem?_append_left (by omega), List.getElem?_append_left h]

theorem endsLine_append_right (front text : List Char) (place : Nat) :
    endsLine (front ++ text) (front.length + place) = endsLine text place := by
  have hget : ∀ i, (front ++ text)[front.length + i]? = text[i]? := by
    intro i
    rw [List.getElem?_append_right (Nat.le_add_right _ _), Nat.add_sub_cancel_left]
  rw [endsLine, endsLine, Nat.add_assoc, hget, hget]

/-- At the seam a line ends as it ends in the first text, if no line break runs over the seam. -/
theorem endsLine_append_seam (hpair : Unpaired front text) (h : place + 1 = front.length) :
    endsLine (front ++ text) place = endsLine front place := by
  have hlast : front[place]? = front.getLast? := by
    rw [List.getLast?_eq_getElem?, ← h, Nat.add_sub_cancel]
  have hnext : (front ++ text)[place + 1]? = text.head? := by
    rw [h, List.getElem?_append_right (Nat.le_refl _), Nat.sub_self, List.head?_eq_getElem?]
  have hend : front[place + 1]? = none := by rw [h]; exact List.getElem?_length ..
  rw [endsLine, endsLine, List.getElem?_append_left (by omega), hnext, hend, hlast]
  by_cases hreturn : front.getLast? = some '\r'
  · have hfeed : text.head? ≠ some '\n' := fun hfeed => hpair ⟨hreturn, hfeed⟩
    simp [hfeed]
  · simp [hreturn]

/-! ### Places on both sides of the seam -/

theorem lineAt_succ (text : List Char) (place : Nat) : lineAt text (place + 1) =
    if endsLine text place then lineAt text place + 1 else lineAt text place := by
  by_cases hend : endsLine text place = true
  · rw [if_pos hend, lineAt_succ_of_break hend]
  · rw [if_neg hend, lineAt_succ_of_pass (Bool.not_eq_true _ ▸ hend)]

theorem columnAt_succ (text : List Char) (place : Nat) : columnAt text (place + 1) =
    if endsLine text place then 1 else columnAt text place + 1 := by
  by_cases hend : endsLine text place = true
  · rw [if_pos hend, columnAt_succ_of_break hend]
  · rw [if_neg hend, columnAt_succ_of_pass (Bool.not_eq_true _ ▸ hend)]

/-- Places have the same line and column in two texts, if the same characters end lines in front of
them. -/
theorem spot_congr {other : List Char} (h : ∀ i < place, endsLine text i = endsLine other i) :
    lineAt text place = lineAt other place ∧ columnAt text place = columnAt other place := by
  induction place with
  | zero => exact ⟨rfl, rfl⟩
  | succ place ih =>
    obtain ⟨hline, hcolumn⟩ := ih fun i hi => h i (Nat.lt_succ_of_lt hi)
    have hplace := h place (Nat.lt_succ_self place)
    rw [lineAt_succ, lineAt_succ, columnAt_succ, columnAt_succ, hplace, hline, hcolumn]
    exact ⟨rfl, rfl⟩

/-- A place in the first text is seen as if it were alone. -/
theorem spot_append_left (h : place < front.length) :
    lineAt (front ++ text) place = lineAt front place ∧
      columnAt (front ++ text) place = columnAt front place :=
  spot_congr fun _ hi => endsLine_append_left (by omega)

/-- **A place in the second text** has all line breaks of the first one in front of it. If its own
text has no break in front of it, it stands in the last line of the first one. -/
theorem spot_append_right (hpair : Unpaired front text) (place : Nat) :
    lineAt (front ++ text) (front.length + place) = lineAt text place + lineBreaks front ∧
      columnAt (front ++ text) (front.length + place) =
        if lineAt text place = 1 then columnAt text place + lastLine front
        else columnAt text place := by
  induction place with
  | zero =>
    have hseam : ∀ i < front.length, endsLine (front ++ text) i = endsLine front i := by
      intro i hi
      rcases Nat.lt_or_eq_of_le (Nat.succ_le_of_lt hi) with hlt | heq
      · exact endsLine_append_left hlt
      · exact endsLine_append_seam hpair heq
    obtain ⟨hline, hcolumn⟩ := spot_congr hseam
    have hfirst : lineAt text 0 = 1 := rfl
    rw [Nat.add_zero, hline, hcolumn, if_pos hfirst]
    exact ⟨Nat.add_comm _ _, Nat.add_comm _ _⟩
  | succ place ih =>
    obtain ⟨hline, hcolumn⟩ := ih
    rw [← Nat.add_assoc, lineAt_succ, columnAt_succ, endsLine_append_right, hline, hcolumn,
      lineAt_succ text, columnAt_succ text]
    have hpos : 0 < lineAt text place := Nat.succ_pos _
    -- behind a break of its own text a place is not in the first line
    by_cases hend : endsLine text place = true
    · simp only [hend, if_true]
      refine ⟨by omega, ?_⟩
      rw [if_neg (by omega)]
    · simp only [hend, Bool.false_eq_true, if_false, true_and]
      split <;> omega

/-! ### Tokens on both sides of the seam -/

/-- A token that is no end mark begins inside the text. -/
theorem Token.LiesIn.first_lt {s : String} {t : Token} (h : t.LiesIn s) :
    t.first < s.toList.length := by
  have hhead := h.getElem?_first
  obtain ⟨left, right, -, -, hlexeme⟩ := h
  by_contra hle
  rw [List.getElem?_eq_none (by omega)] at hhead
  exact hlexeme.ne_nil (List.head?_eq_none_iff.mp hhead.symm)

namespace Token.StandsIn

variable {t u : Token}

/-- A token that stands in the first text is the same in the whole. -/
theorem eq_of_front (hu : u.StandsIn (front ++ text)) (ht : t.StandsIn front)
    (hplaced : u.placed = t.placed) (hlt : t.first < front.length) : u = t := by
  obtain ⟨kind, value, position, line, column⟩ := u
  simp only [Token.placed, Prod.mk.injEq] at hplaced
  obtain ⟨rfl, rfl, rfl⟩ := hplaced
  obtain ⟨hline, hcolumn⟩ := @spot_append_left front text _ hlt
  have hline' : line = t.line := by
    rw [ht.line, ← hline]
    exact hu.line
  have hcolumn' : column = t.column := by
    rw [ht.column, ← hcolumn]
    exact hu.column
  rw [hline', hcolumn']

/-- A token that stands in the second text is moved in the whole. -/
theorem eq_movedBehind (hpair : Unpaired front text) (hu : u.StandsIn (front ++ text))
    (ht : t.StandsIn text)
    (hplaced : u.placed = (t.kind, t.value, t.position + front.length)) :
    u = t.movedBehind front := by
  obtain ⟨kind, value, position, line, column⟩ := u
  simp only [Token.placed, Prod.mk.injEq] at hplaced
  obtain ⟨rfl, rfl, rfl⟩ := hplaced
  obtain ⟨hline, hcolumn⟩ := spot_append_right hpair t.first
  have hfirst : Token.first ⟨t.kind, t.value, t.position + front.length, line, column⟩ =
      front.length + t.first := by
    rw [Token.first, ht.position]
    simp only
    omega
  have hline' : line = t.line + lineBreaks front := by
    have h := hu.line
    rw [hfirst, hline, Nat.cast_add, ← ht.line] at h
    exact h
  have hcolumn' : column = if t.line = 1 then t.column + lastLine front else t.column := by
    have h := hu.column
    rw [hfirst, hcolumn] at h
    rw [ht.line, ht.column]
    simpa using h
  rw [Token.movedBehind, hline', hcolumn']

end Token.StandsIn

/-- If what is seen of the tokens is the same, and tokens of which the same is seen are the same up to a
move, then so are the lists. -/
theorem Token.eq_map_of_map_eq {α : Type} {seen seen' : Token → α} (move : Token → Token)
    {us ts : List Token} (h : us.map seen = ts.map seen')
    (hmove : ∀ u ∈ us, ∀ t ∈ ts, seen u = seen' t → u = move t) : us = ts.map move := by
  induction us generalizing ts with
  | nil =>
    obtain rfl : ts = [] := List.map_eq_nil_iff.mp h.symm
    rfl
  | cons u us ih =>
    obtain ⟨t, ts, rfl, hhead, htail⟩ := List.map_eq_cons_iff.mp h.symm
    have hu := hmove u List.mem_cons_self t List.mem_cons_self hhead.symm
    have hus := ih htail.symm fun v hv w hw =>
      hmove v (List.mem_cons_of_mem _ hv) w (List.mem_cons_of_mem _ hw)
    rw [List.map_cons, ← hu, ← hus]

/-! ### The tokens of the whole -/

theorem Token.placed_eq : Token.placed = Token.placedFrom 0 := by
  funext t
  simp [Token.placed, Token.placedFrom]

/-- Places that agree when each is counted from the beginning of its own text differ by the distance
of these beginnings. -/
theorem Token.map_placed_of_placedFrom {us ts : List Token} {place : Nat}
    (h : us.map (placedFrom place) = ts.map (placedFrom 0)) :
    us.map placed = ts.map fun t => (t.kind, t.value, t.position + (place : ℤ)) := by
  let moved (x : Token.Kind × String × Int) := (x.1, x.2.1, x.2.2 + (place : Int))
  calc us.map placed
      = (us.map (placedFrom place)).map moved := by
        rw [List.map_map]
        refine List.map_congr_left fun t _ => ?_
        simp [moved, placed, placedFrom]
    _ = (ts.map (placedFrom 0)).map moved := by rw [h]
    _ = ts.map fun t => (t.kind, t.value, t.position + (place : ℤ)) := by
        rw [List.map_map]
        refine List.map_congr_left fun t _ => ?_
        simp [moved, placedFrom]

/-- Behind a text and some blanks another text has its tokens, moved by what stands in front of it. -/
theorem Scans.spaced {left blanks right : List Char} {before ts : List Token} {last : Token}
    (hleft : Scans 0 left (before ++ [last])) (hne : blanks ≠ [])
    (hblanks : ∀ c ∈ blanks, isBlank c = true) (hright : Scans 0 right ts) :
    ∃ us, Scans 0 (left ++ (blanks ++ right)) (before ++ us) ∧
      us.map Token.placed =
        ts.map fun t => (t.kind, t.value, t.position + ((left.length + blanks.length : ℕ) : ℤ)) := by
  obtain ⟨us, hus, hplaces⟩ := hright.moved (left.length + blanks.length)
  refine ⟨us, hleft.join ?_ ?_, Token.map_placed_of_placedFrom hplaces⟩
  · exact blanks_append hblanks (by rwa [Nat.zero_add])
  · -- a word of the first text ends at the first blank
    obtain ⟨c, cs, rfl⟩ := List.exists_cons_of_ne_nil hne
    simpa using isBoundary_of_isBlank (hblanks c List.mem_cons_self)

/-- **Blanks between two texts keep their tokens apart.** The tokens of the whole are those of the
first text without its end mark, followed by those of the second, with the same kinds and texts and
moved by what stands in front of them. Lines and columns move with them, unless the last blank and
the first character of the second text become one line break. -/
theorem tokenize_spaced (left right : String) {blanks : String} (hne : blanks ≠ "")
    (hblanks : ∀ c ∈ blanks.toList, isBlank c = true) :
    ∃ before last ts us, tokenize left = .ok (before ++ [last]) ∧ last.kind = .eof ∧
      tokenize right = .ok ts ∧ tokenize (left ++ blanks ++ right) = .ok (before ++ us) ∧
      us.map Token.placed =
        ts.map (fun t => (t.kind, t.value, t.position + ((left.length + blanks.length : ℕ) : ℤ))) ∧
      (¬(blanks.toList.getLast? = some '\r' ∧ right.toList.head? = some '\n') →
        us = ts.map (Token.movedBehind (left ++ blanks).toList)) := by
  have hne' : blanks.toList ≠ [] := mt String.toList_eq_nil_iff.mp hne
  have hfront : (left ++ blanks).toList.length = left.length + blanks.length := by
    rw [String.toList_append, List.length_append, String.length_toList, String.length_toList]
  obtain ⟨ls, hls, (hleft : Scans 0 left.toList ls)⟩ := (Cursor.start left).tokens_scans
  obtain ⟨before, last, rfl, hlast, -⟩ := hleft.closed
  obtain ⟨ts, hts, (hright : Scans 0 right.toList ts)⟩ := (Cursor.start right).tokens_scans
  obtain ⟨ws, hws, hwhole⟩ := (Cursor.start (left ++ blanks ++ right)).tokens_scans
  obtain ⟨us, hjoined, hplaces⟩ := hleft.spaced hne' hblanks hright
  rw [← List.append_assoc, ← String.toList_append, ← String.toList_append] at hjoined
  -- what is read in the whole falls into two parts with the kinds, texts and places of the joined
  have hunique : ws.map Token.placed = before.map Token.placed ++ us.map Token.placed := by
    rw [← List.map_append, Token.placed_eq]
    exact hwhole.unique hjoined
  obtain ⟨front, behind, rfl, hfrontPlaces, hbehindPlaces⟩ := List.map_eq_append_iff.mp hunique
  rw [hplaces, String.length_toList, String.length_toList] at hbehindPlaces
  -- lines and columns are those of the places, in the whole and in each text
  have hstands := standsIn_of_tokenize hws
  rw [List.forall_mem_append, String.toList_append] at hstands
  obtain rfl : front = before := by
    have hlies := ((@scans_iff left last before [] left.toList rfl).mp hleft).1
    have hbefore := (List.forall_mem_append.mp (standsIn_of_tokenize hls)).1
    rw [String.toList_append, List.append_assoc] at hstands
    have hmap := Token.eq_map_of_map_eq id hfrontPlaces fun u hu t ht hplaced =>
      (hstands.1 u hu).eq_of_front (hbefore t ht) hplaced (hlies t ht).first_lt
    rwa [List.map_id] at hmap
  refine ⟨front, last, ts, behind, hls, hlast, hts, hws, hbehindPlaces, fun hpair => ?_⟩
  have hpair : Unpaired (left ++ blanks).toList right.toList := by
    rwa [Unpaired, String.toList_append, List.getLast?_append_of_ne_nil _ hne']
  refine Token.eq_map_of_map_eq _ hbehindPlaces fun u hu t ht hplaced => ?_
  rw [← hfront] at hplaced
  exact (hstands.2 u hu).eq_movedBehind hpair (standsIn_of_tokenize hts t ht) hplaced

/-- A carriage return at the end of the first text and the line feed in front of the blanks are one
line break, so `b` comes into the third line, and `c` into the fourth. -/
theorem tokenize_spaced_break :
    let blanks := "\n\n "
    (blanks ≠ "" ∧ ∀ c ∈ blanks.toList, isBlank c = true) ∧ ∃ ts, tokenize "b\n c" = .ok ts ∧
      tokenize ("a\r" ++ blanks ++ "b\n c") =
        .ok (⟨.identifier, "a", 0, 1, 1⟩ :: ts.map (Token.movedBehind ("a\r" ++ blanks).toList)) := by
  intro blanks
  have hne : blanks ≠ "" := by decide
  have hblanks : ∀ c ∈ blanks.toList, isBlank c = true := by simp [blanks, isBlank]
  refine ⟨⟨hne, hblanks⟩, ?_⟩
  obtain ⟨before, last, ts, us, hleft, -, hts, hwhole, -, hmoved⟩ :=
    tokenize_spaced "a\r" "b\n c" hne hblanks
  have hread : tokenize "a\r" = .ok ([⟨.identifier, "a", 0, 1, 1⟩] ++ [⟨.eof, "", 2, 2, 1⟩]) := by cbv
  rw [hread, Except.ok.injEq] at hleft
  rw [hmoved (by simp [blanks]), ← List.append_inj_left' hleft rfl] at hwhole
  exact ⟨ts, hts, hwhole⟩

end TagFilter
