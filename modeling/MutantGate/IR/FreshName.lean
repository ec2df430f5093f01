import MutantGate.IR.Module
/-!
# Names not yet in use

A new function gets the stem of its name if no function has it, and otherwise the
stem with the least number that makes it new.  Of the first candidates, one more than
there are functions, at least one is new, since they are pairwise different; so the
search has a bound that can be read off the module.

## What is proved elsewhere

That the name is new, that it is the first new one, and that a search without a bound ends at it too
(`Proofs.FreshNames`).
-/

namespace MutantGate

/-- The candidates for a name: the stem, then the stem with 1, 2, and so on. -/
def nameCandidate (stem : String) : Nat → String
  | 0 => stem
  | n + 1 => s!"{stem}.{n + 1}"

/-- Does a function of the module have the name? -/
def Module.hasFunction (m : Module) (name : String) : Bool := (m.findFunction? name).isSome

/-- The first candidate that no function of the module has as its name. -/
def Module.freshName (m : Module) (stem : String) : String :=
  ((List.range (m.functions.length + 1)).find? fun n =>
    !m.hasFunction (nameCandidate stem n)).elim stem (nameCandidate stem)

end MutantGate
