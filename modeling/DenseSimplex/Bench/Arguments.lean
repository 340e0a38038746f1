/-
  DenseSimplex.Bench.Arguments
  ────────────────────────────
  **THE COMMAND LINE OF THE BENCHMARK.**

  Every option has a long name and a value, after an equals sign or as the
  next word; `--verbose` alone has none.  An option is given at most once.
  A value that is a word of its own does not begin with a dash, unless it
  is a dash.  There are no other words; two dashes end the options.

  Words are read from the left, so what is wrong behind a word that asks
  for the help page does not matter.
-/
import DenseSimplex.Settings

namespace DenseSimplex

/-- The entry types that the benchmark can run with. -/
inductive Precision where
  | single
  | double
  deriving DecidableEq, Repr

namespace Precision

/-- The name of a precision in the benchmark's heading. -/
def name : Precision → String
  | .single => "F32"
  | .double => "F64"

/-- The word for a precision on the command line. -/
def keyword : Precision → String
  | .single => "f32"
  | .double => "f64"

/-- All precisions. -/
def all : List Precision := [.single, .double]

/-- The precision with a word for it. -/
def ofKeyword? (word : String) : Option Precision := all.find? fun p => p.keyword = word

end Precision

/-- What the command line asks for. -/
structure Arguments where
  vars : Nat := 60
  leRows : Nat := 40
  eqRows : Nat := 10
  density : Float := 0.5
  trials : Nat := 5
  seed : Nat := 12345
  precision : Precision := .double
  budget : Option Nat := none
  progressMs : Option Nat := none
  saveSummary : Option String := none
  baseline : Option String := none
  maxRegression : Float := 0.25
  verbose : Bool := false

/-- Why a command line asks for no run. -/
inductive Refusal where
  /-- It asks for the help page. -/
  | help
  | malformed
  deriving DecidableEq, Repr

namespace Arguments

/-! ## §1. Options. -/

/-- A path, which is not empty. -/
def path? (value : String) : Option String := if value.isEmpty then none else some value

/-- A step budget, which is at least one. -/
def budget? (value : String) : Option Nat :=
  (readWord value.toList).bind fun n => if n = 0 then none else some n

/-- The arguments with the value of one more option; none if there is no
such option or the value is not one of its. -/
def withOption (a : Arguments) (name value : String) : Option Arguments :=
  let word := readWord value.toList
  let float := readFloat value.toList
  match name with
  | "vars" => word.map fun v => { a with vars := v }
  | "le-rows" => word.map fun v => { a with leRows := v }
  | "eq-rows" => word.map fun v => { a with eqRows := v }
  | "density" => float.map fun v => { a with density := v }
  | "trials" => word.map fun v => { a with trials := v }
  | "seed" => word.map fun v => { a with seed := v }
  | "precision" => (Precision.ofKeyword? value).map fun v => { a with precision := v }
  | "budget" => (budget? value).map fun v => { a with budget := some v }
  | "progress-ms" => word.map fun v => { a with progressMs := some v }
  | "save-summary" => (path? value).map fun v => { a with saveSummary := some v }
  | "baseline" => (path? value).map fun v => { a with baseline := some v }
  | "max-regression" => float.map fun v => { a with maxRegression := v }
  | _ => none

/-- A word of the command line as an option: its name, and its value if one
is attached. -/
def splitOption (word : String) : Option (String × Option String) :=
  match word.toList with
  | '-' :: '-' :: rest =>
      let name := String.ofList (rest.takeWhile (· != '='))
      match rest.dropWhile (· != '=') with
      | _ :: value => some (name, some (String.ofList value))
      | [] => some (name, none)
  | _ => none

/-- Whether a word can be the value of the option before it. -/
def isValue (word : String) : Bool := word = "-" || !(word.toList.head? == some '-')

/-- Whether a word asks for the help page; the short form may have more
letters behind it. -/
def isHelp (word : String) : Bool := word = "--help" || word.toList.take 2 == ['-', 'h']

/-- Read the words of a command line, some options having been given
already. -/
def read (given : List String) (a : Arguments) : List String → Except Refusal Arguments
  | [] => .ok a
  | ["--"] => .ok a
  | word :: rest =>
      if isHelp word then .error .help
      else
        match splitOption word with
        | none => .error .malformed
        | some (name, attached) =>
            -- an option that is given twice is an error, even with the same value
            if name ∈ given then .error .malformed
            else if name = "verbose" then
              if attached.isSome then .error .malformed
              else read (name :: given) { a with verbose := true } rest
            else
              match attached, rest with
              | some value, rest =>
                  match a.withOption name value with
                  | some a => read (name :: given) a rest
                  | none => .error .malformed
              | none, value :: rest =>
                  -- not even a word for help can stand for a missing value
                  if isValue value then
                    match a.withOption name value with
                    | some a => read (name :: given) a rest
                    | none => .error .malformed
                  else .error .malformed
              | none, [] => .error .malformed

/-- What a command line asks for. -/
def parse (words : List String) : Except Refusal Arguments := read [] {} words

/-- The arguments of a command line, if it asks for a run. -/
def parse? (words : List String) : Option Arguments := (parse words).toOption

end Arguments

/-! ## §2. The help page. -/

/-- An option on the help page: how it is written, and what it is for. -/
structure OptionHelp where
  usage : String
  about : String
  deriving DecidableEq, Repr

namespace OptionHelp

/-- What stands for the value of an option: its name in capitals. -/
def placeholder (name : String) : String :=
  name.map fun c => if c = '-' then '_' else c.toUpper

/-- An option that has a value. -/
def valued (name about : String) : OptionHelp := ⟨s!"      --{name} <{placeholder name}>", about⟩

/-- Some more about an option, in square brackets. -/
def note (o : OptionHelp) (subject text : String) : OptionHelp :=
  let noted := s!"[{subject}: {text}]"
  { o with about := if o.about.isEmpty then noted else s!"{o.about} {noted}" }

/-- The value of an option that is not given. -/
def standard (o : OptionHelp) (text : String) : OptionHelp := o.note "default" text

/-- The lines of an option. -/
def lines (o : OptionHelp) : List String := [o.usage, "          " ++ o.about]

end OptionHelp

namespace Arguments

/-- The options, with the values that they have when they are not given. -/
def options : List OptionHelp :=
  let a : Arguments := {}
  [(OptionHelp.valued "vars" "Structural variables per instance").standard (toString a.vars),
   (OptionHelp.valued "le-rows" "Inequality rows per instance").standard (toString a.leRows),
   (OptionHelp.valued "eq-rows"
      "Equality rows (one artificial each, capped at `vars`)").standard (toString a.eqRows),
   (OptionHelp.valued "density"
      "Probability that a constraint entry is nonzero").standard (Binary.display a.density),
   (OptionHelp.valued "trials" "").standard (toString a.trials),
   (OptionHelp.valued "seed"
      "Seed of the first trial; trial i uses seed + i").standard (toString a.seed),
   ((OptionHelp.valued "precision" "").standard a.precision.keyword).note "possible values"
      (", ".intercalate (Precision.all.map Precision.keyword)),
   OptionHelp.valued "budget"
      "Fixed phase-2 step budget per invocation (default: random 1..=1000)",
   OptionHelp.valued "progress-ms"
      "Log a progress line from a monitor thread every N milliseconds",
   OptionHelp.valued "save-summary" "Write the perf summary as JSON",
   OptionHelp.valued "baseline" "Compare against a saved perf summary",
   (OptionHelp.valued "max-regression"
      "Allowed per-step slowdown against the baseline").standard (Binary.display a.maxRegression),
   ⟨"      --verbose", ""⟩,
   ⟨"  -h, --help", "Print help"⟩]

/-- The help page. -/
def helpLines : List String :=
  ["Run the pivot kernel on synthetic two-phase LPs", "",
   "Usage: samplex-bench [OPTIONS]", "", "Options:"] ++ options.flatMap OptionHelp.lines

end Arguments

end DenseSimplex
