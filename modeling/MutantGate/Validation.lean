import MutantGate.Compilation
import MutantGate.IR.Diagnosis
import MutantGate.Mutation.Application
import MutantGate.Mutation.Discovery
import MutantGate.Mutation.Group
import MutantGate.Mutation.Isolation
import MutantGate.Settings
import MutantGate.Storage.Access
import MutantGate.Storage.ModuleFile
import MutantGate.Wasm.Bytes
/-!
# Validation

A run asks whether every mutant of a group can be made of a module.  It resolves the
group, loads the module, finds the mutation points and says how many there are; then
it isolates and applies all mutants, verifies the result and compiles it.  The first
failure ends it, so nothing is compiled that has not been verified.

## What is left outside

Log lines, and the machine code that is made: of each compiled module the first part is kept for the
file, and the second is only asked to exist.  Runs are described as a whole in `Proofs.RunEffects`
and their failures in `Proofs.RunFailures`; that a well-formed module passes all stages up to the
code generator is `Proofs.PipelineSuccess`.
-/

namespace MutantGate

/-! ## The gate -/

/-- Refuses a module with which something is wrong; the details have one line for each
diagnostic. -/
def Module.verify (m : Module) (identifier : String) : Except Failure Unit :=
  if m.isWellFormed then .ok ()
  else
    .error (.verification identifier
      ("\n".intercalate (m.diagnostics.map fun d => "  " ++ d.text)))

/-- Refuses modules of which one is refused. -/
def verifyModules : List LoadedModule → Except Failure Unit
  | [] => .ok ()
  | l :: ls =>
    match l.module.verify l.identifier with
    | .error e => .error e
    | .ok () => verifyModules ls

/-- Compiles modules, up to the first that is refused. -/
def compileModules (t : Toolchain) : List LoadedModule → Except Failure (List Artifact)
  | [] => .ok []
  | l :: ls =>
    match t.compile l.module with
    | .error e => .error e
    | .ok a => (compileModules t ls).map (a :: ·)

/-! ## Validators -/

/-- Settings fit for a run, what they leave out of the search, and the generator that makes
machine code. -/
structure Validator where
  settings : Settings
  exclusions : Exclusions
  generator : CodeGenerator

/-- A program and the mutation points found in it. -/
structure Findings where
  program : Program
  points : List Point

/-- The line that says how many mutants there are. -/
def Findings.report (f : Findings) : String := s!"Found {f.points.length} mutants\n"

/-- What a run that nothing stopped leaves: how many mutants there were, and the
modules with all of them. -/
structure Verdict where
  mutants : Nat
  compiled : List Artifact

/-- What can be seen of a run: what it printed and how it ended. -/
structure Run where
  output : String
  outcome : Except Failure Verdict

namespace Validator

/-- The validator with the given settings. -/
def ofSettings (s : Settings) (generator : CodeGenerator := .simple) : Except Failure Validator :=
  match s.check with
  | .error e => .error e
  | .ok () =>
    (Exclusions.ofNames s.exclusions.functions s.exclusions.operators).map fun x =>
      ⟨s, x, generator⟩

/-- The toolchain for the target of the settings. -/
def toolchain (v : Validator) : Toolchain :=
  ⟨v.generator, v.settings.target, v.settings.lowering⟩

/-- The mutation points of all functions of a program. -/
def discover (v : Validator) (operators : List Operator) (p : Program) : List Point :=
  MutantGate.discover operators v.exclusions.filter p (candidates p)

/-- Resolves a group, loads a module from the content of its file, and searches it. -/
def search (v : Validator) (group path : String) (content : Except FileFault (List UInt8)) :
    Except Failure Findings :=
  match resolve [group] with
  | .error e => .error e
  | .ok operators =>
    match (Program.empty Module.currentVersion).load path content with
    | .error o => .error (o.failure path)
    | .ok program => .ok ⟨program, v.discover operators program⟩

/-- Isolates and applies all mutants. -/
def mutate (p : Program) (points : List Point) : Except Failure Program :=
  match p.isolate points with
  | (_, .error o) => .error o.failure
  | (p, .ok ()) =>
    match Program.applyAll points p with
    | (_, .error e) => .error e
    | (p, .ok ()) => .ok p

/-- Verifies all modules, then compiles them. -/
def accept (v : Validator) (p : Program) : Except Failure (List Artifact) :=
  match verifyModules p.modules with
  | .error e => .error e
  | .ok () =>
    match v.settings.target.check v.generator with
    | .error e => .error e
    | .ok () => compileModules v.toolchain p.modules

/-- Makes and checks all mutants found. -/
def conclude (v : Validator) (f : Findings) : Except Failure Verdict :=
  match mutate f.program f.points with
  | .error e => .error e
  | .ok p => (v.accept p).map fun compiled => ⟨f.points.length, compiled⟩

/-- A whole run over a module, given the content of its file. -/
def run (v : Validator) (group path : String) (content : Except FileFault (List UInt8)) : Run :=
  match v.search group path content with
  | .error e => ⟨"", .error e⟩
  | .ok f => ⟨f.report, v.conclude f⟩

end Validator

/-- Writes the WebAssembly form of the first compiled module to a file, if a path is given for
it. -/
def Run.emit {m : Type → Type} [Monad m] (files : FileAccess m) (path? : Option String)
    (r : Run) : m Run :=
  match r.outcome, path? with
  | .ok ⟨_, a :: _⟩, some path => do
    match ← files.write path a.wasm.bytes with
    | .ok () => return r
    | .error fault => return { r with outcome := .error (.io fault.message) }
  | _, _ => return r

/-- A run over a file of which the result may be written to another one. -/
def Validator.runOn {m : Type → Type} [Monad m] (v : Validator) (files : FileAccess m)
    (emitTo? : Option String) (group path : String) : m Run := do
  let content ← files.read path
  (v.run group path content).emit files emitTo?

end MutantGate
