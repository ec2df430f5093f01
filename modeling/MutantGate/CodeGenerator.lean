import MutantGate.Failure
import MutantGate.Target
import MutantGate.Wasm.Bytes
/-!
# The generator of machine code

Machine code is made by a component outside this library.  A run asks three things of it, and
only in this order:

* whether it knows a machine by its triple, if the target names one;
* whether it can be set up for the target;
* what the machine code of a module is.

Each answer can be a refusal, and its reason is the component's own.  `CodeGenerator` is the
interface to these answers, as `FileAccess` is the one to files.  A run is written against it,
and which machines and modules a generator takes is left outside: what is proved of runs holds
of every generator.

`CodeGenerator.simple` is the generator of the calls that name no other.
-/

namespace MutantGate

/-- A generator of machine code: its answers, and its reasons where it refuses. -/
structure CodeGenerator where
  /-- Looks up the machine with a triple. -/
  findMachine : String → Except Wording Unit
  /-- Gets ready for a target whose machine has been found. -/
  setUp : Target → Except Wording Unit
  /-- The machine code of a module for a target. -/
  generate : Target → Wasm.Module → Except Wording (List UInt8)

namespace CodeGenerator

/-- A generator for the machine this runs on, which is known by one triple.  It takes modules
whose memory cannot outgrow 32-bit addresses, leaves them in their WebAssembly form, and gives
no reasons. -/
def simple : CodeGenerator where
  findMachine triple :=
    if triple = "x86_64-unknown-linux-gnu" then .ok () else .error (.unfinished "")
  setUp _ := .ok ()
  generate _ w :=
    if w.maxPages ≤ Wasm.addressablePages then .ok w.bytes else .error (.unfinished "")

end CodeGenerator

end MutantGate
