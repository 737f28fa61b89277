import TagFilter.Document.Writing
import TagFilter.Evaluation.Selector
import TagFilter.Outline.Picture
import TagFilter.Table

/-!
# The command line

```
[-v | --verbose] tokens EXPRESSION
[-v | --verbose] parse EXPRESSION [--json]
[-v | --verbose] eval EXPRESSION [SUBJECT]... [--check]
```

Options of a command may stand anywhere after it, and a lone `--` ends them. The general options
stand before the command; `--` ends them as well, but where the name of a command is missing after
it, help can still be asked for.

* `CommandLine.Command` — what can be asked for;
* `CommandLine.options?`, `CommandLine.command?` — how arguments are read;
* `CommandLine.perform` — what a command prints and how it ends;
* `CommandLine.run` — a whole call. Settings are kept from call to call, and every call that gets as
  far as a command sets them anew.
-/

namespace TagFilter.CommandLine

/-- An option: a word that is a switch. -/
inductive Switch where
  | verbose
  | help
  | json
  | check
  deriving DecidableEq, Repr

/-- What can be asked for. -/
inductive Command where
  /-- Show the tokens of a text. -/
  | tokens (text : String)
  /-- Show the filter that a text spells, as a picture or as a document. -/
  | parse (text : String) (json : Bool)
  /-- Evaluate a filter for the given tags; on request, the way the call ends tells the value. -/
  | eval (text : String) (subjects : List String) (check : Bool)
  deriving DecidableEq, Repr

/-- The names of the commands. -/
inductive Verb where
  | tokens
  | parse
  | eval
  deriving DecidableEq, Repr

/-- The command of a given name. -/
def Verb.ofName? : String → Option Verb
  | "tokens" => some tokens
  | "parse" => some parse
  | "eval" => some eval
  | _ => none

/-- How a call ends. -/
inductive Report where
  /-- An explanation of the commands is wanted. -/
  | help
  /-- The arguments make no sense. -/
  | misuse
  /-- A command ended with this exit code and this text on the two outputs. -/
  | done (exitCode : Nat) (output errors : String)
  deriving DecidableEq, Repr

/-- What is kept from one call to the next. -/
structure Settings where
  verbose : Bool
  deriving DecidableEq, Repr

/-- The settings before the first call. -/
def Settings.initial : Settings := ⟨false⟩

/-! ### Reading the arguments -/

/-- Does an argument stand where an option could, and look like one? A single dash does not. -/
def looksLikeOption (arg : String) : Bool :=
  match arg.toList with
  | '-' :: _ :: _ => true
  | _ => false

/-- The general switch that an argument is. Several short ones may be run together. -/
def generalSwitch? (arg : String) : Option Switch :=
  if arg = "--verbose" then some .verbose
  else if arg = "--help" then some .help
  else
    match arg.toList with
    | '-' :: letters => if letters.all (· = 'v') then some .verbose else none
    | _ => none

/-- The switch of a command that an argument is. -/
def Verb.switch? (verb : Verb) (arg : String) : Option Switch :=
  if arg = "--help" then some .help
  else if verb = .parse ∧ arg = "--json" then some .json
  else if verb = .eval ∧ arg = "--check" then some .check
  else none

/-- The general switches in front of a command, and what follows them. -/
def generalOptions? : List String → Option (List Switch × List String)
  | [] => some ([], [])
  | arg :: args =>
    if arg = "--" then some ([], args)
    else if looksLikeOption arg then do
      let switch ← generalSwitch? arg
      let (switches, others) ← generalOptions? args
      pure (switch :: switches, others)
    -- the name of a command ends the general options
    else some ([], arg :: args)

/-- The switches among the arguments of a command, and the other arguments. -/
def Verb.options? (verb : Verb) : List String → Option (List Switch × List String)
  | [] => some ([], [])
  | arg :: args =>
    if arg = "--" then some ([], args)
    else if looksLikeOption arg then do
      let switch ← verb.switch? arg
      let (switches, others) ← verb.options? args
      pure (switch :: switches, others)
    else do
      let (switches, others) ← verb.options? args
      pure (switches, arg :: others)

/-- The command that a name, switches and other arguments stand for. -/
def Verb.command? (verb : Verb) (switches : List Switch) (args : List String) : Option Command :=
  match verb, args with
  | .tokens, [text] => some (.tokens text)
  | .parse, [text] => some (.parse text (.json ∈ switches))
  | .eval, text :: subjects => some (.eval text subjects (.check ∈ switches))
  | _, _ => none

/-! ### Commands -/

/-- Lines of text, each ended. -/
def unlines (lines : List String) : String := String.join (lines.map (· ++ "\n"))

/-- A command that ends with a report on standard error. -/
def Report.failure (exitCode : Nat) (line : String) : Report := .done exitCode "" (line ++ "\n")

/-- The end of a command whose text spells no filter. -/
def Report.ofRefusal (why : Filter.Refusal) : Report :=
  match why.diagnostic? with
  | some d => .failure 2 d.summary
  | none => .failure 1 why.message

/-- What the evaluation of a filter prints, and how it ends. -/
def evalReport (settings : Settings) (f : Filter) (subjects : List String) (check : Bool) :
    Report :=
  match f.evaluate (.several subjects) with
  | .error _ => .failure 1 "no value"
  | .ok value =>
    let picture := if settings.verbose then f.picture else []
    .done (if check && !value then 1 else 0)
      (unlines (picture ++ [if value then "true" else "false"])) ""

/-- What a command prints, and how it ends. -/
def perform (settings : Settings) : Command → Report
  | .tokens text =>
    match tokenize text with
    | .error fault => .ofRefusal (.unreadable fault)
    | .ok ts => .done 0 (unlines (Table.ofTokens ts).lines) ""
  | .parse text json =>
    match Filter.parse text with
    | .error why => .ofRefusal why
    | .ok f =>
      if json then
        match f.write (.indented 2) with
        | .error deep => .failure 2 deep.diagnostic.summary
        | .ok document => .done 0 (unlines [document]) ""
      else .done 0 (unlines f.picture) ""
  | .eval text subjects check =>
    match Filter.parse text with
    | .error why => .ofRefusal why
    | .ok f => evalReport settings f subjects check

/-- The part of a call from the name of the command on. -/
def runCommand (settings : Settings) (verb : Verb) (args : List String) : Report :=
  match verb.options? args with
  | none => .misuse
  | some (switches, others) =>
    -- whoever asks for help need not get the other arguments right
    if .help ∈ switches then .help
    else
      match verb.command? switches others with
      | none => .misuse
      | some command => perform settings command

/-- A call in which other arguments stand where the name of a command is wanted. They can only be
general options, and of these only a request for help is granted. -/
def withoutCommand (args : List String) : Report :=
  match generalOptions? args with
  | none => .misuse
  | some (switches, _) => if .help ∈ switches then .help else .misuse

/-- A whole call. -/
def run (settings : Settings) (args : List String) : Report × Settings :=
  match generalOptions? args with
  | none => (.misuse, settings)
  | some (switches, others) =>
    if .help ∈ switches then (.help, settings)
    else
      let chosen : Settings := ⟨.verbose ∈ switches⟩
      match others with
      | [] => (.help, chosen)
      | name :: args =>
        match Verb.ofName? name with
        | none => (withoutCommand others, settings)
        | some verb => (runCommand chosen verb args, chosen)

/-- An explanation of the commands. -/
def usage : List String :=
  ["Usage: [-v | --verbose] COMMAND",
    "",
    "  tokens EXPRESSION                      show the tokens of a filter expression",
    "  parse EXPRESSION [--json]              show its expression tree",
    "  eval EXPRESSION [SUBJECT]... [--check] evaluate it against tags"]

end TagFilter.CommandLine
