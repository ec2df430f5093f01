import MutantGate.CodeGenerator
import MutantGate.Lowering
/-!
# Compilation

A module is compiled by lowering it to WebAssembly and handing that to the generator of
machine code.  Three things can go wrong here, and each has a failure of its own:

* the target is refused, because the generator knows no such machine or cannot be set up for
  it; this is a fault of the settings, and no module is looked at;
* the module cannot be lowered;
* the generator refuses the lowered module.

Why the generator refuses something it says itself, and its reason is passed on as it is.

## What is left outside

What the generator refuses, and what its code does.  Of a refusal it is proved which stage it
belongs to (`Proofs.PipelineSuccess`), of a lowered module what it does (`Proofs.LoweredRuns`) and
that it is valid (`Proofs.LoweredModule`); of the machine code nothing is proved.
-/

namespace MutantGate

/-- Refuses a target that names a machine the generator does not know. -/
def Target.findMachine (t : Target) (generator : CodeGenerator) : Except Failure Unit :=
  match t.triple with
  | none => .ok ()
  | some triple =>
    (generator.findMachine triple).mapError fun reason =>
      .config (reason.following s!"unsupported target '{triple}': ")

/-- Refuses a target for which the generator makes no code. -/
def Target.check (t : Target) (generator : CodeGenerator := .simple) : Except Failure Unit :=
  match t.findMachine generator with
  | .error e => .error e
  | .ok () =>
    (generator.setUp t).mapError fun reason =>
      .config (reason.following "failed to create engine: ")

/-- What is left of a compiled module: its WebAssembly form and its machine code. -/
structure Artifact where
  wasm : Wasm.Module
  native : List UInt8

/-- Lowering and generation of machine code for one target. -/
structure Toolchain where
  generator : CodeGenerator
  target : Target
  options : LoweringOptions

/-- Lowers a module and generates its machine code. -/
def Toolchain.compile (t : Toolchain) (m : Module) : Except Failure Artifact :=
  match lower t.options m with
  | .error o => .error (o.failure m.name)
  | .ok w =>
    match t.generator.generate t.target w with
    | .error reason => .error (.compilation m.name reason)
    | .ok native => .ok ⟨w, native⟩

end MutantGate
