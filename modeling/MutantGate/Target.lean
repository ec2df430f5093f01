/-!
# Targets

What machine code is generated for: a machine, by its triple, and how hard the code
generator tries.  A triple is any text here; which texts name a machine is known to the code
generator alone.
-/

namespace MutantGate

/-- How hard the code generator tries. -/
inductive Optimization where
  | none
  | speed
  | speedAndSize
  deriving DecidableEq, Repr

namespace Optimization

/-- All levels. -/
def all : List Optimization := [.none, .speed, .speedAndSize]

/-- The name of a level in settings. -/
def name : Optimization → String
  | .none => "none"
  | .speed => "speed"
  | .speedAndSize => "speed_and_size"

/-- The level with a given name. -/
def ofName? (s : String) : Option Optimization := all.find? fun o => o.name == s

end Optimization

/-- A machine, or the one this runs on, and an optimization level. -/
structure Target where
  triple : Option String
  optimization : Optimization
  deriving DecidableEq, Repr

namespace Target

/-- The machine this runs on, with code made to be fast. -/
def host : Target := ⟨none, .speed⟩

/-- Is the target the machine this runs on, without being named? -/
def isHost (t : Target) : Bool := t.triple.isNone

end Target

end MutantGate
