import MutantGate.Mutation.Filter
import MutantGate.Mutation.Point
/-!
# The search for mutation points

Candidates are looked at in order, their instructions in order, and for each
instruction the operators in order; every replacement an operator offers is a point.
What the filter does not allow is passed over before anything is counted, so a
filtered search numbers its points as a smaller search would.

## What is proved elsewhere

That the list is complete, in order and numbered as it should be (`Proofs.FoundPoints`), and what a
filter takes away from it (`Proofs.NarrowedSearch`).
-/

namespace MutantGate

/-- A function to be searched.  No tests are run, so none is known to reach it and
all candidates weigh the same. -/
structure Candidate where
  function : FunctionRef
  test : Option String
  weight : Nat
  deriving DecidableEq, Repr

/-- A function as a candidate. -/
def Candidate.of (r : FunctionRef) : Candidate := ⟨r, none, 1⟩

/-- All functions of a program, module by module. -/
def candidates (p : Program) : List Candidate :=
  p.modules.flatMap fun l =>
    (List.range l.module.functions.length).map fun f => Candidate.of ⟨l.id, f⟩

/-- The operators with the numbers of the replacements they offer for an instruction. -/
def choices (operators : List Operator) (filter : Filter) (i : Instruction) :
    List (Operator × Nat) :=
  (operators.filter filter.allowsOperator).flatMap fun o =>
    (List.range (o.replacementCount i)).map fun variant => (o, variant)

/-- The points of an instruction. -/
def instructionPoints (operators : List Operator) (filter : Filter) (l : LoadedModule)
    (function : String) (location : Location) (i : Instruction) : List Point :=
  if filter.allowsInstruction i then
    (choices operators filter i).zipIdx.map fun ((o, variant), index) =>
      Point.ofMatch l.id l.identifier function location o index variant
  else []

/-- The points of a function. -/
def functionPoints (operators : List Operator) (filter : Filter) (l : LoadedModule)
    (index : Nat) (f : Function) : List Point :=
  if filter.allowsFunction f then
    f.instructions.flatMap fun (block, instruction, i) =>
      instructionPoints operators filter l f.name ⟨index, block, instruction⟩ i
  else []

/-- The points of a candidate; a candidate that is not there has none. -/
def candidatePoints (operators : List Operator) (filter : Filter) (p : Program)
    (c : Candidate) : List Point :=
  match p.module? c.function.module with
  | none => []
  | some l =>
    match l.module.functions[c.function.function]? with
    | none => []
    | some f => functionPoints operators filter l c.function.function f

/-- The points of all candidates. -/
def discover (operators : List Operator) (filter : Filter) (p : Program)
    (cs : List Candidate) : List Point :=
  cs.flatMap (candidatePoints operators filter p)

end MutantGate
