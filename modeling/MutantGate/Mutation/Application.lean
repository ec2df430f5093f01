import MutantGate.Failure
import MutantGate.Mutation.Point
/-!
# Applying mutants

Applying a mutant replaces one instruction of the clone that was reserved for it, and
records that this has been done.  Either everything needed is there, or nothing is
changed.

## What is proved elsewhere

When a mutant is applied and what that changes (`Proofs.ApplicationOutcome`), and that the order in
which mutants are applied makes no difference (`Proofs.ApplicationOrder`).
-/

namespace MutantGate

/-- Why a mutant was not applied. -/
inductive ApplicationObstacle where
  /-- The module of the point is not loaded. -/
  | notLoaded (id : ModuleId)
  /-- No clones have been reserved in the module. -/
  | notPrepared (identifier : String)
  /-- No clone has been reserved for the mutant. -/
  | noClone
  /-- The mutant was applied before. -/
  | alreadyApplied
  /-- The clone has no instruction at the place of the point. -/
  | noInstruction (l : Location)
  /-- The operator does not offer the replacement. -/
  | refused (reason : Operator.Refusal)
  deriving DecidableEq, Repr

/-- The words for an obstacle. -/
def ApplicationObstacle.message : ApplicationObstacle → String
  | .notLoaded id => s!"{moduleText id} is not loaded"
  | .notPrepared identifier => s!"mutations were not prepared for {identifier}"
  | .noClone => "no function was prepared for this mutant"
  | .alreadyApplied => "mutation was already applied"
  | .noInstruction l => s!"no instruction at {l.text}"
  | .refused reason => reason.message

/-- An obstacle as a failure of the mutant it was met with. -/
def ApplicationObstacle.failure (mutant : String) (o : ApplicationObstacle) : Failure :=
  .application mutant o.message

/-- A module after a mutant has been applied in it. -/
def LoadedModule.apply (l : LoadedModule) (p : Point) :
    Except ApplicationObstacle LoadedModule :=
  if !l.isPrepared then .error (.notPrepared l.identifier)
  else
    match l.clone? p.identifier with
    | none => .error .noClone
    | some clone =>
      if l.isApplied p.identifier then .error .alreadyApplied
      else
        let place : Location := { p.location with function := clone }
        match l.module.instruction? place with
        | none => .error (.noInstruction place)
        | some i =>
          match p.operator.mutate p.variant i with
          | .error e => .error (.refused e)
          | .ok j =>
            .ok ({ l with module := l.module.setInstruction place j }.markApplied p.identifier)

/-- A program after a mutant has been applied in it. -/
def Program.apply (program : Program) (p : Point) : Except ApplicationObstacle Program :=
  match program.module? p.module with
  | none => .error (.notLoaded p.module)
  | some l => (l.apply p).map fun l' => program.modifyModule p.module fun _ => l'

/-- A program after mutants have been applied one after the other, up to the first
that was not. -/
def Program.applyAll : List Point → Program → Program × Except Failure Unit
  | [], program => (program, .ok ())
  | p :: ps, program =>
    match program.apply p with
    | .error e => (program, .error (e.failure p.identifier))
    | .ok program => applyAll ps program

end MutantGate
