import MutantGate.Json.Reader
import MutantGate.Json.Record
import MutantGate.IR.JsonForm
import MutantGate.Lowering
import MutantGate.Storage.Directory
import MutantGate.Target
import MutantGate.Text.Utf8
/-!
# Settings

What can be set for a run, and the values that hold where nothing is set.  Settings
are read from a JSON file; a record and each of its fields may be left out.
-/

namespace MutantGate

/-- Functions and operators to be left out, by name and id. -/
structure ExclusionNames where
  functions : List String
  operators : List String
  deriving DecidableEq, Repr

/-- Is nothing left out? -/
def ExclusionNames.isEmpty (x : ExclusionNames) : Bool :=
  x.functions.isEmpty && x.operators.isEmpty

/-- The forms of log lines. -/
inductive LogFormat where
  | text
  | json
  deriving DecidableEq, Repr

/-- The name of a form. -/
def LogFormat.name : LogFormat → String
  | .text => "text"
  | .json => "json"

/-- The form with a given name. -/
def LogFormat.ofName? (s : String) : Option LogFormat :=
  [LogFormat.text, .json].find? fun f => f.name == s

/-- Which log lines are written, and in which form. -/
structure Logging where
  directives : String
  format : LogFormat
  deriving DecidableEq, Repr

/-- Everything that can be set. -/
structure Settings where
  target : Target
  lowering : LoweringOptions
  exclusions : ExclusionNames
  logging : Logging
  deriving DecidableEq, Repr

/-- What holds where nothing is set. -/
def Settings.default : Settings where
  target := .host
  lowering := .default
  exclusions := ⟨[], []⟩
  logging := ⟨"info", .text⟩

/-! ## Reading -/

open Json

def Optimization.ofJson? (v : Json) : Option Optimization :=
  (choice? v).bind Optimization.ofName?

def LogFormat.ofJson? (v : Json) : Option LogFormat := (choice? v).bind LogFormat.ofName?

def Target.ofJson? (v : Json) : Option Target := do
  match ← record? ["triple", "opt_level"] v with
  | ⟨_, [triple, optimization]⟩ =>
    some
      { triple := ← defaulted? (optional? text?) Target.host.triple triple
        optimization :=
          ← defaulted? Optimization.ofJson? Target.host.optimization optimization }
  | _ => none

def LoweringOptions.ofJson? (v : Json) : Option LoweringOptions := do
  match ← record? ["max_memory_pages", "export_functions"] v with
  | ⟨_, [maxPages, exportFunctions]⟩ =>
    some
      { maxPages := ← defaulted? index32? LoweringOptions.default.maxPages maxPages
        exportFunctions :=
          ← defaulted? bool? LoweringOptions.default.exportFunctions exportFunctions }
  | _ => none

def ExclusionNames.ofJson? (v : Json) : Option ExclusionNames := do
  match ← record? ["exclude_functions", "exclude_mutators"] v with
  | ⟨_, [functions, operators]⟩ =>
    some
      { functions := ← defaulted? (list? text?) [] functions
        operators := ← defaulted? (list? text?) [] operators }
  | _ => none

def Logging.ofJson? (v : Json) : Option Logging := do
  match ← record? ["filter", "format"] v with
  | ⟨_, [directives, format]⟩ =>
    some
      { directives := ← defaulted? text? Settings.default.logging.directives directives
        format := ← defaulted? LogFormat.ofJson? Settings.default.logging.format format }
  | _ => none

def Settings.ofJson? (v : Json) : Option Settings := do
  match ← record? ["target", "compiler", "filter", "logging"] v with
  | ⟨_, [target, lowering, exclusions, logging]⟩ =>
    some
      { target := ← defaulted? Target.ofJson? Settings.default.target target
        lowering := ← defaulted? LoweringOptions.ofJson? Settings.default.lowering lowering
        exclusions :=
          ← defaulted? ExclusionNames.ofJson? Settings.default.exclusions exclusions
        logging := ← defaulted? Logging.ofJson? Settings.default.logging logging }
  | _ => none

/-! ## Files -/

namespace Settings

/-- Refuses settings under which no module can have memory. -/
def check (s : Settings) : Except Failure Unit :=
  if s.lowering.maxPages = 0 then
    .error (.config (.closed "compiler.max_memory_pages must be at least 1"))
  else .ok ()

/-- The settings in a text; what is wrong with JSON is left to say. -/
def ofText (path text : String) : Except Failure Settings :=
  match (parse? text).bind Settings.ofJson? with
  | none => .error (.config (.unfinished s!"{path}: "))
  | some s => s.check.map fun () => s

/-- The settings in a file of which this is the content. -/
def ofFile (path : String) (content : Except FileFault (List UInt8)) :
    Except Failure Settings :=
  match content with
  | .error fault => .error (.io fault.message)
  | .ok bytes =>
    match Utf8.decode bytes with
    | .error _ => .error (.io "stream did not contain valid UTF-8")
    | .ok text => ofText path text

end Settings

end MutantGate
