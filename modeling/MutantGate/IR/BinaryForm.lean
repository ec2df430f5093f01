import MutantGate.Binary.Format
import MutantGate.IR.Module
/-!
# The binary form of a module

The binary form gives the fields of a record one behind the other.  Alternatives are
numbered in the order in which their types declare them.  Bytes behind a complete
module are not looked at.

## What is proved elsewhere

That a module is read from its own bytes and from no others (`Proofs.BinaryModules`).
-/

namespace MutantGate

open Binary Format

/-- A register, as its number. -/
def Register.format : Format Register := byte.convert Register.index Register.mk

/-- A word, in its two's complement. -/
def wordFormat : Format Word :=
  (fixed 4).convert BitVec.toNat (BitVec.ofNat 32)

/-- A single-precision number, as its pattern. -/
def Binary32.format : Format Binary32 := word32.convert Binary32.bits Binary32.mk

/-- An operation, by its place in the order of operations. -/
def Opcode.format : Format Opcode := oneOf Opcode.all

/-- A return type, by its place. -/
def ReturnType.format : Format ReturnType := oneOf [.void, .int]

/-- A constant, behind the number of its kind. -/
def Value.format : Format Value where
  write
    | .int w => (choice 3).write 0 ++ wordFormat.write w
    | .float x => (choice 3).write 1 ++ Binary32.format.write x
    | .bool b => (choice 3).write 2 ++ truth.write b
  read bs := do
    let (kind, bs) ← (choice 3).read bs
    match kind with
    | 0 => (wordFormat.read bs).map fun p => (.int p.1, p.2)
    | 1 => (Binary32.format.read bs).map fun p => (.float p.1, p.2)
    | _ => (truth.read bs).map fun p => (.bool p.1, p.2)

/-- An operand, behind the number of its kind. -/
def Operand.format : Format Operand where
  write
    | .register r => (choice 5).write 0 ++ Register.format.write r
    | .immediate v => (choice 5).write 1 ++ Value.format.write v
    | .block i => (choice 5).write 2 ++ word32.write i
    | .function i => (choice 5).write 3 ++ word32.write i
    | .switch i => (choice 5).write 4 ++ word32.write i
  read bs := do
    let (kind, bs) ← (choice 5).read bs
    match kind with
    | 0 => (Register.format.read bs).map fun p => (.register p.1, p.2)
    | 1 => (Value.format.read bs).map fun p => (.immediate p.1, p.2)
    | 2 => (word32.read bs).map fun p => (.block p.1, p.2)
    | 3 => (word32.read bs).map fun p => (.function p.1, p.2)
    | _ => (word32.read bs).map fun p => (.switch p.1, p.2)

/-- An instruction: operation, destination, operands. -/
def Instruction.format : Format Instruction :=
  (Opcode.format.both ((optional Register.format).both (list Operand.format))).convert
    (fun i => (i.opcode, i.dest, i.operands)) (fun p => ⟨p.1, p.2.1, p.2.2⟩)

/-- A function: name, counts of parameters and local variables, blocks, return type. -/
def Function.format : Format Function :=
  (text.both (word64.both (word64.both
      ((list (list Instruction.format)).both ReturnType.format)))).convert
    (fun f => (f.name, f.params, f.locals, f.blocks, f.returns))
    (fun p => ⟨p.1, p.2.1, p.2.2.1, p.2.2.2.1, p.2.2.2.2⟩)

/-- A module: name, functions, memory size, version, switches. -/
def Module.format : Format Module :=
  (text.both ((list Function.format).both (word64.both (word32.both (list text))))).convert
    (fun m => (m.name, m.functions, m.memoryWords, m.version, m.switches))
    (fun p => ⟨p.1, p.2.1, p.2.2.1, p.2.2.2.1, p.2.2.2.2⟩)

/-- The bytes of a module. -/
def Module.toBytes (m : Module) : List UInt8 := Module.format.write m

/-- The module at the start of a list of bytes. -/
def Module.ofBytes (bs : List UInt8) : Except Binary.Fault Module :=
  (Module.format.read bs).map Prod.fst

end MutantGate
