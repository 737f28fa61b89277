import TagFilter.CommandLine

/-!
# What the arguments of a call ask for

`Asks` says which arguments ask for which command, without reading them from left to right: general
switches in front, the name of a command, and behind it switches and operands in any mixture. A call
with such arguments performs the command (`run_of_asks`). The settings that earlier calls have left
behind do not count: whether filters are shown as well is told by the general switches of this call.

* `Leads` — general switches in front of a command;
* `Mixes` — switches and operands behind it;
* `Asks` — the arguments of a whole call.
-/

namespace TagFilter.CommandLine

/-- General switches stand in front of the name of a command. A lone `--` may end them. -/
inductive Leads : List Switch → List String → Prop where
  | nothing : Leads [] []
  | ended : Leads [] ["--"]
  | switch {arg : String} {args : List String} {switch : Switch} {switches : List Switch}
    (looks : looksLikeOption arg = true) (reads : generalSwitch? arg = some switch)
    (others : Leads switches args) : Leads (switch :: switches) (arg :: args)

/-- Switches and operands are mixed, each sort in its own order. An operand does not look like an
option, unless it stands behind a lone `--`; there everything is an operand. -/
inductive Mixes (verb : Verb) : List Switch → List String → List String → Prop where
  | nothing : Mixes verb [] [] []
  | ended (operands : List String) : Mixes verb [] operands ("--" :: operands)
  | switch {arg : String} {operands args : List String} {switch : Switch} {switches : List Switch}
    (reads : verb.switch? arg = some switch) (others : Mixes verb switches operands args) :
    Mixes verb (switch :: switches) operands (arg :: args)
  | operand {arg : String} {operands args : List String} {switches : List Switch}
    (plain : looksLikeOption arg = false) (others : Mixes verb switches operands args) :
    Mixes verb switches (arg :: operands) (arg :: args)

/-- The arguments ask for a command and for no help; `verbose` tells whether filters are to be shown
as well. -/
inductive Asks : List String → Bool → Command → Prop where
  | intro {front rest operands : List String} {name : String} {verb : Verb}
    {general switches : List Switch} {verbose : Bool} {command : Command}
    (leads : Leads general front) (names : Verb.ofName? name = some verb)
    (mixes : Mixes verb switches operands rest)
    (noHelp : .help ∉ general) (noHelpBehind : .help ∉ switches)
    (shows : verbose = decide (.verbose ∈ general))
    (means : verb.command? switches operands = some command) :
    Asks (front ++ name :: rest) verbose command

variable {verb : Verb} {switches : List Switch} {operands args front : List String}
  {arg name : String} {command : Command} {verbose : Bool}

/-! ### Reading them -/

theorem ne_dashes_of_plain (h : looksLikeOption arg = false) : arg ≠ "--" := by
  rintro rfl
  exact absurd h (by decide)

theorem ne_dashes_of_general {switch : Switch} (h : generalSwitch? arg = some switch) :
    arg ≠ "--" := by
  rintro rfl
  rw [show generalSwitch? "--" = none by decide] at h
  cases h

/-- The name of a command is no option. -/
theorem plain_of_name (h : Verb.ofName? name = some verb) : looksLikeOption name = false := by
  unfold Verb.ofName? at h
  split at h
  case h_4 => cases h
  all_goals decide

/-- A switch of a command is one of three words. -/
theorem looks_of_switch {switch : Switch} (h : verb.switch? arg = some switch) :
    looksLikeOption arg = true ∧ arg ≠ "--" := by
  have hwords : arg = "--help" ∨ arg = "--json" ∨ arg = "--check" := by
    unfold Verb.switch? at h
    split at h
    next hhelp => exact .inl hhelp
    next =>
      split at h
      next hjson => exact .inr (.inl hjson.2)
      next =>
        split at h
        next hcheck => exact .inr (.inr hcheck.2)
        next => cases h
  rcases hwords with rfl | rfl | rfl <;> decide

/-- Switches in front are read up to the name of a command. -/
theorem generalOptions?_of_leads (h : Leads switches front) (hname : looksLikeOption name = false) :
    generalOptions? (front ++ name :: args) = some (switches, name :: args) := by
  induction h with
  | nothing => simp [generalOptions?, hname, ne_dashes_of_plain hname]
  | ended => simp [generalOptions?]
  | switch looks reads _ ih =>
    simp [generalOptions?, looks, reads, ih, ne_dashes_of_general reads]

/-- **Switches and operands are told apart**, in whatever mixture they stand. -/
theorem options?_of_mixes (h : Mixes verb switches operands args) :
    verb.options? args = some (switches, operands) := by
  induction h with
  | nothing => rfl
  | ended operands => simp [Verb.options?]
  | switch reads _ ih =>
    obtain ⟨looks, hne⟩ := looks_of_switch reads
    simp [Verb.options?, looks, reads, ih, hne]
  | operand plain _ ih => simp [Verb.options?, plain, ih, ne_dashes_of_plain plain]

/-- **A call performs the command that its arguments ask for.** What earlier calls have left behind
does not matter; what this call leaves behind is told by its own arguments. -/
theorem run_of_asks (h : Asks args verbose command) (s : Settings) :
    run s args = (perform ⟨verbose⟩ command, ⟨verbose⟩) := by
  obtain ⟨leads, names, mixes, noHelp, noHelpBehind, rfl, means⟩ := h
  simp only [run, generalOptions?_of_leads leads (plain_of_name names), if_neg noHelp, names,
    runCommand, options?_of_mixes mixes, if_neg noHelpBehind, means]

/-! ### Nothing else performs a command -/

/-- What is read as general switches stands in front of the other arguments. -/
theorem exists_leads {others : List String} (h : generalOptions? args = some (switches, others)) :
    ∃ front, args = front ++ others ∧ Leads switches front := by
  induction args generalizing switches with
  | nil =>
    cases h
    exact ⟨[], rfl, .nothing⟩
  | cons arg args ih =>
    rw [generalOptions?] at h
    split at h
    next hended =>
      cases h
      exact ⟨["--"], by rw [hended]; rfl, .ended⟩
    next =>
      split at h
      next looks =>
        simp only [Option.bind_eq_bind, Option.pure_def, Option.bind_eq_some_iff, Option.some.injEq,
          Prod.mk.injEq, Prod.exists] at h
        obtain ⟨switch, reads, found, rest, hfound, rfl, rfl⟩ := h
        obtain ⟨front, rfl, leads⟩ := ih hfound
        exact ⟨arg :: front, rfl, .switch looks reads leads⟩
      next =>
        -- the name of a command stands here, and it is left with the other arguments
        cases h
        exact ⟨[], rfl, .nothing⟩

/-- What is read as switches and operands is a mixture of them. -/
theorem mixes_of_options? (h : verb.options? args = some (switches, operands)) :
    Mixes verb switches operands args := by
  induction args generalizing switches operands with
  | nil =>
    cases h
    exact .nothing
  | cons arg args ih =>
    rw [Verb.options?] at h
    split at h
    next hended =>
      cases h
      exact hended ▸ .ended _
    next =>
      split at h
      next looks =>
        simp only [Option.bind_eq_bind, Option.pure_def, Option.bind_eq_some_iff, Option.some.injEq,
          Prod.mk.injEq, Prod.exists] at h
        obtain ⟨switch, reads, found, rest, hfound, rfl, rfl⟩ := h
        exact .switch reads (ih hfound)
      next plain =>
        simp only [Option.bind_eq_bind, Option.pure_def, Option.bind_eq_some_iff, Option.some.injEq,
          Prod.mk.injEq, Prod.exists] at h
        obtain ⟨found, rest, hfound, rfl, rfl⟩ := h
        exact .operand (Bool.not_eq_true _ ▸ plain) (ih hfound)

/-- **A call that performs a command was asked to**: every other call is answered by an explanation,
or its arguments make no sense. -/
theorem exists_asks_of_done {s : Settings} {exitCode : Nat} {output errors : String}
    (h : (run s args).1 = .done exitCode output errors) :
    ∃ verbose command, Asks args verbose command := by
  -- every way out of `run` is another report, up to the one on which a command is performed
  unfold run at h
  split at h
  next => cases h
  next general others hgeneral =>
    split at h
    next => cases h
    next noHelp =>
      split at h
      next => cases h
      next name rest =>
        split at h
        next =>
          simp only [withoutCommand] at h
          split at h
          next => cases h
          next => split at h <;> cases h
        next verb names =>
          simp only [runCommand] at h
          split at h
          next => cases h
          next switches operands hoptions =>
            split at h
            next => cases h
            next noHelpBehind =>
              split at h
              next => cases h
              next command means =>
                obtain ⟨front, rfl, leads⟩ := exists_leads hgeneral
                exact ⟨_, _, .intro leads names (mixes_of_options? hoptions) noHelp noHelpBehind
                  rfl means⟩

/-! ### Every command can be asked for -/

/-- General switches that ask for filters to be shown, or do not. -/
theorem leads_verbose (verbose : Bool) :
    ∃ general : List Switch, Leads general (if verbose then ["-v"] else []) ∧
      .help ∉ general ∧ verbose = decide (.verbose ∈ general) := by
  cases verbose with
  | false => exact ⟨[], .nothing, by decide, by decide⟩
  | true => exact ⟨[.verbose], .switch (by decide) (by decide) .nothing, by decide, by decide⟩

/-- The evaluation of any text for any tags can be asked for. -/
theorem asks_eval (text : String) (subjects : List String) (verbose check : Bool) :
    Asks ((if verbose then ["-v"] else []) ++
        "eval" :: ((if check then ["--check"] else []) ++ "--" :: text :: subjects))
      verbose (.eval text subjects check) := by
  obtain ⟨general, leads, noHelp, shows⟩ := leads_verbose verbose
  cases check with
  | false => exact .intro leads rfl (.ended _) noHelp (by decide) shows rfl
  | true => exact .intro leads rfl (.switch rfl (.ended _)) noHelp (by decide) shows rfl

/-- The filter of any text can be asked for, as a picture or as a document. -/
theorem asks_parse (text : String) (verbose json : Bool) :
    Asks ((if verbose then ["-v"] else []) ++
        "parse" :: ((if json then ["--json"] else []) ++ ["--", text]))
      verbose (.parse text json) := by
  obtain ⟨general, leads, noHelp, shows⟩ := leads_verbose verbose
  cases json with
  | false => exact .intro leads rfl (.ended _) noHelp (by decide) shows rfl
  | true => exact .intro leads rfl (.switch rfl (.ended _)) noHelp (by decide) shows rfl

end TagFilter.CommandLine
