import MutantGate.Failure
import MutantGate.Mutation.Operator
/-!
# What is left out of a search

A filter says which functions, instructions and operators a search may use.  The
filter of a configuration excludes functions by name and operators by their ids;
an id that no operator has is refused, as it would exclude nothing.
-/

namespace MutantGate

/-- What a search may use. -/
structure Filter where
  allowsFunction : Function → Bool
  allowsInstruction : Instruction → Bool
  allowsOperator : Operator → Bool

/-- The filter that lets everything pass. -/
def Filter.acceptAll : Filter := ⟨fun _ => true, fun _ => true, fun _ => true⟩

/-- Functions and operators that are left out. -/
structure Exclusions where
  functions : List String
  operators : List Operator
  deriving DecidableEq, Repr

namespace Exclusions

/-- The operators with the given ids, or the first id that no operator has. -/
def operatorsOfIds : List String → Except Failure (List Operator)
  | [] => .ok []
  | id :: ids =>
    match Operator.ofId? id with
    | none => .error (.config (.closed s!"unknown mutator '{id}' in filter"))
    | some o => (operatorsOfIds ids).map (o :: ·)

/-- The exclusions of functions by name and operators by id. -/
def ofNames (functions ids : List String) : Except Failure Exclusions :=
  (operatorsOfIds ids).map fun operators => ⟨functions, operators⟩

/-- The filter that leaves out the excluded functions and operators. -/
def filter (x : Exclusions) : Filter where
  allowsFunction f := !x.functions.contains f.name
  allowsInstruction _ := true
  allowsOperator o := !x.operators.contains o

end Exclusions

end MutantGate
