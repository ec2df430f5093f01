/-!
# Failures of a validation run

Every stage of a run reports its failures in one type.  A failure knows the
stage it belongs to and the words in which it is reported.  Some failures are
explained by a component outside this library (the grammar of JSON, the code
generator); their text stops where that explanation would begin, and is marked
as open.

## What is left outside

The words of those components.  Which stage a failure reports, and which stage it should report, is
compared in `Proofs.RunFailures`.
-/

namespace MutantGate

/-- The part of a run that a failure is reported under. -/
inductive Stage where
  | usage
  | load
  | resolution
  | apply
  | verify
  | compile
  deriving DecidableEq, Repr

/-- The words for a stage in the final diagnostic. -/
def Stage.name : Stage → String
  | .usage => "usage"
  | .load => "load"
  | .resolution => "mutator resolution"
  | .apply => "apply"
  | .verify => "verify"
  | .compile => "compile"

/-- What is said about a failure.  After an open text nothing more may be
printed: the explanation that would follow belongs to someone else. -/
structure Wording where
  text : String
  isOpen : Bool
  deriving DecidableEq, Repr

namespace Wording

/-- A text that says all there is to say. -/
def closed (text : String) : Wording := ⟨text, false⟩

/-- A text that an outside explanation would continue. -/
def unfinished (text : String) : Wording := ⟨text, true⟩

/-- The same wording behind a lead. -/
def following (lead : String) (w : Wording) : Wording := ⟨lead ++ w.text, w.isOpen⟩

end Wording

/-- Everything that can stop a run. -/
inductive Failure where
  | io (text : String)
  | serialization (reason : Wording)
  | usage (text : String)
  | load (path : String) (reason : Wording)
  | unknownGroup (name : String)
  | application (mutant : String) (reason : String)
  | verification (module : String) (details : String)
  | compilation (module : String) (reason : Wording)
  | config (reason : Wording)
  | invalidState (text : String)
  deriving DecidableEq, Repr

namespace Failure

/-- The stage a failure is reported under. -/
def stage : Failure → Stage
  | .usage _ | .config _ => .usage
  | .io _ | .serialization _ | .load .. => .load
  | .unknownGroup _ => .resolution
  | .application .. | .invalidState _ => .apply
  | .verification .. => .verify
  | .compilation .. => .compile

/-- The words of a failure, open if its reason is. -/
def wording : Failure → Wording
  | .io text => .closed s!"IO error: {text}"
  | .serialization reason => reason.following "Serialization error: "
  | .usage text => .closed s!"Usage error: {text}"
  | .load path reason => reason.following s!"Failed to load module {path}: "
  | .unknownGroup name => .closed s!"Unknown mutator group: {name}"
  | .application mutant reason => .closed s!"Cannot apply mutation {mutant}: {reason}"
  | .verification module details => .closed s!"Module {module} failed verification:\n{details}"
  | .compilation module reason => reason.following s!"Failed to compile module {module}: "
  | .config reason => reason.following "Invalid configuration: "
  | .invalidState text => .closed s!"Invalid state: {text}"

/-- The words of a failure as plain text. -/
def message (f : Failure) : String := f.wording.text

end Failure

end MutantGate
