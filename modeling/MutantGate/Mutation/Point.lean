import MutantGate.Mutation.Operator
import MutantGate.Program
/-!
# Mutation points

A mutation point is one replacement of one instruction: where it is, by which
operator, and which of the operator's replacements.  All points of an instruction are counted
together; the operator, the module, the function, the place and that count make up
the name of the mutant.
-/

namespace MutantGate

/-- One replacement of one instruction. -/
structure Point where
  module : ModuleId
  location : Location
  operator : Operator
  /-- The number of the point among those of its instruction. -/
  index : Nat
  /-- The number of the replacement among those its operator offers. -/
  variant : Nat
  identifier : String
  deriving DecidableEq, Repr

namespace Point

/-- The name of a mutant. -/
def identify (o : Operator) (module function : String) (l : Location) (index : Nat) : String :=
  s!"{o.id}:{module}:{function}:{l.block}:{l.instruction}:{index}"

/-- A point under the name that follows from what it is. -/
def ofMatch (id : ModuleId) (module function : String) (l : Location) (o : Operator)
    (index variant : Nat) : Point :=
  ⟨id, l, o, index, variant, identify o module function l index⟩

/-- The function a point is in. -/
def function (p : Point) : FunctionRef := ⟨p.module, p.location.function⟩

end Point

end MutantGate
