import TagFilter.Proofs.CommandLine.Arguments
import TagFilter.Proofs.Document.RoundTrip
import TagFilter.Proofs.Evaluation.Simulation
import TagFilter.Proofs.Filter.Pointing

/-!
# The commands agree with each other

What the commands print about a text fits together, and fits what the library says about it
(`CommandLine.calls_agree`). A text that spells no filter is refused by all of them in the same
words. Otherwise an evaluation prints the value, behind the picture if this very call asks for it;
and the printed document, up to the line break at its end, describes the filter of the text.

* `CommandLine.Always` — what a command comes to, however it is asked for and after any calls;
* `perform_refused` — the line in which a text is refused;
* `evalReport_eq` — what an evaluation prints;
* `Filter.ofText_line` — a document may end with a line break.
-/

namespace TagFilter

open Grammar

namespace Filter

variable {f : Filter} {r : Refusal} {text : String}

/-- A refused text is refused with a report that knows the line and the column. -/
theorem exists_report_of_error (h : parse text = .error r) :
    ∃ (d : Diagnostic) (line column : Int),
      r.diagnostic? = some d ∧ d.line = some line ∧ d.column = some column := by
  obtain ⟨ts, hts, hscans⟩ := (Cursor.start text).tokens_scans
  obtain ⟨body, last, rfl, hlast, hbody⟩ := hscans.closed
  rw [parse, tokenize, hts] at h
  obtain ⟨fault, rfl, -⟩ := exists_fault_of_error hbody hlast h
  exact ⟨fault.diagnostic, _, _, rfl, rfl, rfl⟩

/-- A document that ends with a line break describes the same filter. -/
theorem ofText_line (layout : Json.Layout) (h : f.depth ≤ depthLimit) :
    ofText (f.toJson.toText layout ++ "\n") = .ok f := by
  rw [depth_eq_height] at h
  exact ofTextWithin_toText (Nat.le_trans h (by decide)) rfl

/-- A picture has a line at least, the one for the root. -/
theorem picture_ne_nil (f : Filter) : f.picture ≠ [] := by
  rw [picture, Branch.lines, Outline.ofFilter, Outline.branchAt, Branch.linesFrom]
  exact List.cons_ne_nil _ _

end Filter

/-- The line for a reader, if the place is known. -/
theorem Diagnostic.summary_eq {d : Diagnostic} {line column : Int} (hline : d.line = some line)
    (hcolumn : d.column = some column) :
    d.summary = "Error: line " ++ toString line ++ ", column " ++ toString column ++ ": " ++
      d.message := by
  rw [summary, location, hline, hcolumn]
  simp only [← String.append_assoc]
  rfl

namespace CommandLine

variable {verbose check json : Bool} {text : String} {subjects : List String} {f : Filter}
  {command : Command} {settings : Settings}

/-- However the command is asked for, and whatever earlier calls have left behind: the call ends like
this. -/
def Always (verbose : Bool) (command : Command) (report : Report) : Prop :=
  ∀ (s : Settings) (args : List String), Asks args verbose command →
    run s args = (report, ⟨verbose⟩)

theorem always_perform (verbose : Bool) (command : Command) :
    Always verbose command (perform ⟨verbose⟩ command) := fun s _ hasks => run_of_asks hasks s

/-- The commands for which the text has to spell a filter. -/
inductive Command.Parses (text : String) : Command → Prop where
  | parse (json : Bool) : Parses text (.parse text json)
  | eval (subjects : List String) (check : Bool) : Parses text (.eval text subjects check)

/-! ### Lines -/

theorem unlines_append (lines others : List String) :
    unlines (lines ++ others) = unlines lines ++ unlines others := by
  simp [unlines, String.join_append]

theorem unlines_singleton (line : String) : unlines [line] = line ++ "\n" := by
  simp [unlines, String.join]

/-- Something is printed if there is a line to print. -/
theorem unlines_ne_empty {lines : List String} (h : lines ≠ []) : unlines lines ≠ "" := by
  obtain ⟨line, lines, rfl⟩ := List.exists_cons_of_ne_nil h
  intro hempty
  rw [← List.singleton_append, unlines_append, unlines_singleton] at hempty
  simpa using congrArg String.toList hempty

/-! ### What the commands print -/

/-- **A refused text is refused in one line**, by every command that reads it as a filter. -/
theorem perform_refused {r : Filter.Refusal} {d : Diagnostic} {line column : Int}
    (hparse : Filter.parse text = .error r) (hreport : r.diagnostic? = some d)
    (hline : d.line = some line) (hcolumn : d.column = some column)
    (hcommand : command.Parses text) :
    perform settings command = .done 2 "" ("Error: line " ++ toString line ++ ", column " ++
      toString column ++ ": " ++ d.message ++ "\n") := by
  have hperform : perform settings command = .ofRefusal r := by
    cases hcommand <;> simp only [perform, hparse]
  rw [hperform, Report.ofRefusal, hreport]
  simp only [Report.failure, Diagnostic.summary_eq hline hcolumn]

/-- **An evaluation prints the value**, behind the picture if it is wanted. -/
theorem evalReport_eq (settings : Settings) (f : Filter) (subjects : List String) (check : Bool) :
    evalReport settings f subjects check =
      .done (if check && !f.holds subjects then 1 else 0)
        ((if settings.verbose then unlines f.picture else "") ++
          if f.holds subjects then "true\n" else "false\n") "" := by
  have hpicture (wanted : Bool) : unlines (if wanted then f.picture else []) =
      if wanted then unlines f.picture else "" := by cases wanted <;> rfl
  have hvalue (value : Bool) : unlines [if value then "true" else "false"] =
      if value then "true\n" else "false\n" := by cases value <;> rfl
  have heval : f.evaluate (.several subjects) = .ok (f.holds subjects) := f.evaluate_eq_holds _
  simp only [evalReport, heval, unlines_append, hpicture, hvalue]

theorem perform_picture (hparse : Filter.parse text = .ok f) :
    perform settings (.parse text false) = .done 0 (unlines f.picture) "" := by
  simp only [perform, hparse, Bool.false_eq_true, if_false]

theorem perform_deep (hparse : Filter.parse text = .ok f) (h : Filter.depthLimit < f.depth) :
    perform settings (.parse text true) =
      .failure 2 (Filter.TooDeep.diagnostic ⟨f.depth⟩).summary := by
  simp only [perform, hparse, if_true, Filter.write_eq_error h]

theorem perform_document (hparse : Filter.parse text = .ok f) (h : f.depth ≤ Filter.depthLimit) :
    perform settings (.parse text true) =
      .done 0 (f.toJson.toText (.indented 2) ++ "\n") "" := by
  simp only [perform, hparse, if_true, Filter.write_eq_ok h, unlines_singleton]

/-- **The commands agree about every text**, with each other and with the library, whatever calls
came before. They refuse a text with the same exit code and in the same line, which tells the place.
If the text spells a filter, then its picture is printed for it, its value is printed alone or behind
that picture, as this call asks, and its document is printed unless the filter is too deep. -/
theorem calls_agree (text : String) (subjects : List String) :
    (∀ r, Filter.parse text = .error r →
      ∃ (d : Diagnostic) (line column : Int),
        r.diagnostic? = some d ∧ d.line = some line ∧ d.column = some column ∧
        ∀ verbose, ∀ command : Command, command.Parses text →
          Always verbose command (.done 2 "" ("Error: line " ++ toString line ++ ", column " ++
            toString column ++ ": " ++ d.message ++ "\n"))) ∧
    ∀ f, Filter.parse text = .ok f →
      ∃ (shown : String) (value : Bool),
        shown ≠ "" ∧ f.evaluate (.several subjects) = .ok value ∧
        (∀ verbose, Always verbose (.parse text false) (.done 0 shown "")) ∧
        (∀ verbose check, Always verbose (.eval text subjects check)
          (.done (if check && !value then 1 else 0)
            ((if verbose then shown else "") ++ if value then "true\n" else "false\n") "")) ∧
        (100 < f.depth → ∃ line, ∀ verbose,
          Always verbose (.parse text true) (.done 2 "" line)) ∧
        (f.depth ≤ 100 → ∃ document, Filter.ofText document = .ok f ∧ ∀ verbose,
          Always verbose (.parse text true) (.done 0 document "")) := by
  refine ⟨fun r hparse => ?_, fun f hparse => ?_⟩
  · obtain ⟨d, line, column, hreport, hline, hcolumn⟩ := Filter.exists_report_of_error hparse
    refine ⟨d, line, column, hreport, hline, hcolumn, fun verbose command hcommand => ?_⟩
    rw [← perform_refused hparse hreport hline hcolumn hcommand]
    exact always_perform verbose command
  · -- the picture that is shown is the same with and without a value behind it
    refine ⟨unlines f.picture, f.holds subjects, unlines_ne_empty f.picture_ne_nil,
      f.evaluate_eq_holds _, fun verbose => ?_, fun verbose check => ?_, fun hdeep => ?_,
      fun hdepth => ?_⟩
    · rw [← perform_picture hparse]
      exact always_perform verbose _
    · have heval : perform ⟨verbose⟩ (.eval text subjects check) =
          evalReport ⟨verbose⟩ f subjects check := by simp only [perform, hparse]
      rw [← evalReport_eq ⟨verbose⟩, ← heval]
      exact always_perform verbose _
    · refine ⟨(Filter.TooDeep.diagnostic ⟨f.depth⟩).summary ++ "\n", fun verbose => ?_⟩
      rw [← Report.failure, ← perform_deep hparse hdeep]
      exact always_perform verbose _
    · refine ⟨_, Filter.ofText_line (.indented 2) hdepth, fun verbose => ?_⟩
      rw [← perform_document hparse hdepth]
      exact always_perform verbose _

/-- A conjunction that is not met, with every option given, and after such a call a text that ends
too soon. -/
theorem calls_agree_unmet :
    (∃ shown, shown ≠ "" ∧ run .initial ["-v", "eval", "--check", "--", "a and b", "a"] =
      (.done 1 (shown ++ "false\n") "", ⟨true⟩)) ∧
    ∃ message, run ⟨true⟩ ["eval", "--", "a and"] =
      (.done 2 "" ("Error: line 1, column 6: " ++ message ++ "\n"), ⟨false⟩) := by
  constructor
  · have hparse : Filter.parse "a and b" = .ok (.and (.identifier "a") (.identifier "b")) := by cbv
    obtain ⟨shown, value, hshown, hvalue, -, heval, -, -⟩ :=
      (calls_agree "a and b" ["a"]).2 _ hparse
    obtain rfl : false = value := by
      rw [Filter.evaluate_eq_holds] at hvalue
      exact Except.ok.inj hvalue
    exact ⟨shown, hshown, heval true true _ _ (asks_eval "a and b" ["a"] true true)⟩
  · let r : Filter.Refusal := .stopped (.fault ⟨.operand, ⟨.eof, "", 5, 1, 6⟩⟩)
    have hparse : Filter.parse "a and" = .error r := by cbv
    obtain ⟨d, line, column, hreport, hline, hcolumn, hrefused⟩ :=
      (calls_agree "a and" []).1 r hparse
    obtain rfl : r.diagnostic?.get (by decide) = d := by simp [hreport]
    obtain rfl : 1 = line := Option.some.inj hline
    obtain rfl : 6 = column := Option.some.inj hcolumn
    exact ⟨_, hrefused false _ (.eval [] false) _ _ (asks_eval "a and" [] false false)⟩

end CommandLine

end TagFilter
