import MutantGate.IR.Module
/-!
# Programs

A program is the modules of one run.  Each has a number, counted up from zero, the
identifier it is reported under, and the state of its mutation: the clones that were
reserved for its mutants, once that has happened, and the mutants already applied.

## What is proved elsewhere

That no two modules of a program have the same number, and that each goes its own way
(`Proofs.ModuleIndependence`); that its accounts agree after any calls (`Proofs.Bookkeeping`).
-/

namespace MutantGate

/-- The number of a module in its program. -/
abbrev ModuleId := Nat

/-- The text of a module number. -/
def moduleText (id : ModuleId) : String := s!"module#{id}"

/-- A function of a module of a program. -/
structure FunctionRef where
  module : ModuleId
  function : Nat
  deriving DecidableEq, Repr

/-- The text of a reference to a function. -/
def FunctionRef.text (r : FunctionRef) : String := s!"{moduleText r.module}:fn{r.function}"

/-- A module of a program. -/
structure LoadedModule where
  id : ModuleId
  identifier : String
  module : Module
  /-- For each mutant the function reserved for it, once the module is prepared. -/
  clones : Option (List (String × Nat))
  /-- The mutants already applied, each once. -/
  applied : List String
  deriving DecidableEq, Repr

namespace LoadedModule

/-- Have clones been reserved? -/
def isPrepared (l : LoadedModule) : Bool := l.clones.isSome

/-- The function reserved for a mutant. -/
def clone? (l : LoadedModule) (mutant : String) : Option Nat :=
  l.clones.bind fun cs => cs.lookup mutant

/-- Records the reserved clones, if that has not happened before. -/
def setClones? (l : LoadedModule) (clones : List (String × Nat)) : Option LoadedModule :=
  if l.isPrepared then none else some { l with clones := some clones }

/-- Has a mutant been applied? -/
def isApplied (l : LoadedModule) (mutant : String) : Bool := l.applied.contains mutant

/-- Records that a mutant has been applied. -/
def markApplied (l : LoadedModule) (mutant : String) : LoadedModule :=
  if l.isApplied mutant then l else { l with applied := l.applied ++ [mutant] }

/-- How many mutants have been applied. -/
def appliedCount (l : LoadedModule) : Nat := l.applied.length

end LoadedModule

/-- The modules of a run and the version they are read in. -/
structure Program where
  formatVersion : UInt32
  nextId : ModuleId
  modules : List LoadedModule
  deriving DecidableEq, Repr

namespace Program

/-- A program without modules. -/
def empty (formatVersion : UInt32) : Program := ⟨formatVersion, 0, []⟩

/-- Adds a module under the next number. -/
def add (p : Program) (m : Module) (identifier : String) : Program :=
  { p with
    nextId := p.nextId + 1
    modules := p.modules ++ [⟨p.nextId, identifier, m, none, []⟩] }

/-- The module with a number. -/
def module? (p : Program) (id : ModuleId) : Option LoadedModule :=
  p.modules.find? fun l => l.id == id

/-- Changes the module with a number. -/
def modifyModule (p : Program) (id : ModuleId) (change : LoadedModule → LoadedModule) : Program :=
  { p with modules := p.modules.map fun l => if l.id == id then change l else l }

/-- The function a reference leads to. -/
def function? (p : Program) (r : FunctionRef) : Option Function :=
  (p.module? r.module).bind fun l => l.module.functions[r.function]?

end Program

end MutantGate
