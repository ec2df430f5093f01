import MutantGate.LogDirectives
import MutantGate.Validation
/-!
# The command line

The program is called with a group and the path of a module, and may be given a file of
settings, a file for the result, and the form of log lines:

    mutator-validator [--config FILE] [--emit-wasm FILE] [--log-format text|json] GROUP MODULE

The value of an option is the next argument or follows an equals sign.  Behind two
dashes that stand alone nothing is an option.  A call that is not of this form does
nothing; any other call ends with an exit code and, if it failed, with a diagnostic.

## What is left outside

The words in which a call is told that it is not of this form, and log lines.  Log directives are
looked at as far as it takes to know whether the call goes on (`LogDirectives`).
-/

namespace MutantGate

/-! ## Arguments -/

/-- The options of the program. -/
inductive OptionName where
  | config
  | emitWasm
  | logFormat
  deriving DecidableEq, Repr

namespace OptionName

/-- The word for an option, without its dashes. -/
def word : OptionName → String
  | .config => "config"
  | .emitWasm => "emit-wasm"
  | .logFormat => "log-format"

/-- The option with a given word. -/
def ofWord? (s : String) : Option OptionName :=
  [OptionName.config, .emitWasm, .logFormat].find? fun o => o.word == s

end OptionName

/-- What an argument can be. -/
inductive Token where
  | plain (text : String)
  /-- Two dashes that stand alone. -/
  | endOfOptions
  /-- Two dashes, a word, and the value behind an equals sign if there is one. -/
  | option (word : String) (value : Option String)
  /-- A single dash and more. -/
  | short (text : String)
  deriving DecidableEq, Repr

/-- What an argument is, as long as options are possible. -/
def Token.ofArgument (s : String) : Token :=
  match s.toList with
  | ['-', '-'] => .endOfOptions
  | '-' :: '-' :: cs =>
    let word := String.ofList (cs.takeWhile fun c => c != '=')
    match cs.dropWhile fun c => c != '=' with
    | [] => .option word none
    | _ :: value => .option word (some (String.ofList value))
  | '-' :: _ :: _ => .short s
  | _ => .plain s

/-- Options with their values and the other arguments, each in the order given. -/
structure RawArguments where
  options : List (OptionName × String)
  plain : List String
  deriving DecidableEq, Repr

namespace RawArguments

/-- With an option in front. -/
def withOption (o : OptionName) (value : String) (r : RawArguments) : RawArguments :=
  { r with options := (o, value) :: r.options }

/-- With an argument in front that is no option. -/
def withPlain (s : String) (r : RawArguments) : RawArguments := { r with plain := s :: r.plain }

/-- Takes options and other arguments apart.  The value of an option in the next
argument may not look like an option itself. -/
def ofList? : List String → Option RawArguments
  | [] => some ⟨[], []⟩
  | s :: args =>
    match Token.ofArgument s with
    | .plain text => (ofList? args).map (withPlain text)
    | .endOfOptions => some ⟨[], args⟩
    | .short _ => none
    | .option word value =>
      match OptionName.ofWord? word, value, args with
      | none, _, _ => none
      | some o, some v, args => (ofList? args).map (withOption o v)
      | some _, none, [] => none
      | some o, none, next :: args =>
        match Token.ofArgument next with
        | .plain v => (ofList? args).map (withOption o v)
        | _ => none

/-- The value of an option that may be given once; a second one is refused. -/
def value? (r : RawArguments) (o : OptionName) : Option (Option String) :=
  match r.options.filter fun p => p.1 == o with
  | [] => some none
  | [p] => some (some p.2)
  | _ => none

end RawArguments

/-- A call of the program. -/
structure Arguments where
  group : String
  module : String
  config : Option String
  emitWasm : Option String
  logFormat : Option LogFormat
  deriving DecidableEq, Repr

/-- A path that is not empty. -/
def pathArgument? (s : String) : Option String := if s.isEmpty then none else some s

/-- What may be missing, but has to be right if it is there. -/
def optionalArgument? {α : Type} (read? : String → Option α) :
    Option String → Option (Option α)
  | none => some none
  | some s => (read? s).map some

/-- The call that arguments stand for. -/
def Arguments.ofList? (args : List String) : Option Arguments := do
  let raw ← RawArguments.ofList? args
  match raw.plain with
  | [group, module] =>
    some
      { group
        module := ← pathArgument? module
        config := ← optionalArgument? pathArgument? (← raw.value? .config)
        emitWasm := ← optionalArgument? pathArgument? (← raw.value? .emitWasm)
        logFormat := ← optionalArgument? LogFormat.ofName? (← raw.value? .logFormat) }
  | _ => none

/-! ## Diagnostics -/

/-- Why a call failed. -/
inductive CommandFailure where
  | settings (path : String) (cause : Failure)
  | directives (cause : DirectiveFault)
  | setup (cause : Failure)
  | run (cause : Failure)
  deriving DecidableEq, Repr

/-- The words for a failed call.  What the system says about a file of settings is given
twice, in the failure and as its cause. -/
def CommandFailure.wording : CommandFailure → Wording
  | .settings path (.io text) =>
    .closed s!"usage: cannot read config {path}: {(Failure.io text).message}: {text}"
  | .settings path cause => cause.wording.following s!"usage: cannot read config {path}: "
  | .directives cause => .closed cause.message
  | .setup cause => cause.wording.following s!"{cause.stage.name}: "
  | .run cause => cause.wording.following s!"{cause.stage.name} stage failed: "

/-- The diagnostic for a failed call: one line, or less if its end is left to say. -/
def CommandFailure.diagnostic (f : CommandFailure) : String :=
  if f.wording.isOpen then f.wording.text else f.wording.text ++ "\n"

/-! ## Calls -/

/-- What a call leaves besides files. -/
structure CallResult where
  exitCode : UInt8
  output : String
  diagnostic : Option String
  deriving DecidableEq, Repr

namespace CallResult

/-- A call that was not understood. -/
def misused : CallResult := ⟨2, "", none⟩

/-- A call that broke off without a diagnostic. -/
def brokenOff : CallResult := ⟨101, "", none⟩

/-- A call that failed behind some output. -/
def failed (output : String) (f : CommandFailure) : CallResult := ⟨1, output, some f.diagnostic⟩

/-- A call of which everything has been done. -/
def succeeded (output : String) : CallResult := ⟨0, output, none⟩

/-- The end of a call whose run went like this. -/
def ofRun (r : Run) : CallResult :=
  match r.outcome with
  | .ok _ => succeeded r.output
  | .error cause => failed r.output (.run cause)

end CallResult

namespace Arguments

/-- Settings under the options of a call: its form of log lines wins. -/
def adjust (a : Arguments) (s : Settings) : Settings :=
  { s with logging.format := a.logFormat.getD s.logging.format }

/-- The settings of a call: those of the file if there is one, adjusted. -/
def settings {m : Type → Type} [Monad m] (a : Arguments) (files : FileAccess m) :
    m (Except CommandFailure Settings) := do
  match a.config with
  | none => return .ok (a.adjust .default)
  | some path =>
    match Settings.ofFile path (← files.read path) with
    | .error cause => return .error (.settings path cause)
    | .ok s => return .ok (a.adjust s)

/-- Makes a call with its settings. -/
def callWith {m : Type → Type} [Monad m] (a : Arguments) (files : FileAccess m)
    (generator : CodeGenerator) (s : Settings) : m CallResult :=
  match LogDirectives.check s.logging.directives with
  | .error .splitCharacter => return .brokenOff
  | .error (.refused cause) => return .failed "" (.directives cause)
  | .ok () =>
    match Validator.ofSettings s generator with
    | .error cause => return .failed "" (.setup cause)
    | .ok v => return .ofRun (← v.runOn files a.emitWasm a.group a.module)

/-- Makes a call. -/
def call {m : Type → Type} [Monad m] (a : Arguments) (files : FileAccess m)
    (generator : CodeGenerator) : m CallResult := do
  match ← a.settings files with
  | .error f => return .failed "" f
  | .ok s => a.callWith files generator s

end Arguments

/-- Calls the program with arguments. -/
def command {m : Type → Type} [Monad m] (args : List String) (files : FileAccess m)
    (generator : CodeGenerator := .simple) : m CallResult :=
  match Arguments.ofList? args with
  | none => return .misused
  | some a => a.call files generator

end MutantGate
