import MutantGate.IR.Instruction
/-!
# Modules

A module is a list of functions over one memory and a list of named switches.  A
function is a list of blocks; control enters at block 0 and leaves each block
through its last instruction.  Functions, blocks, instructions and switches are
referred to by their position.
-/

namespace MutantGate

/-- A run of instructions entered at its start only. -/
abbrev Block := List Instruction

/-- What a function gives back. -/
inductive ReturnType where
  | void
  | int
  deriving DecidableEq, Repr

/-- The name of a return type. -/
def ReturnType.name : ReturnType → String
  | .void => "Void"
  | .int => "Int"

/-- A function. -/
structure Function where
  name : String
  params : UInt64
  locals : UInt64
  blocks : List Block
  returns : ReturnType
  deriving DecidableEq, Repr

/-- A compilation unit; the memory is measured in words of four bytes. -/
structure Module where
  name : String
  functions : List Function
  memoryWords : UInt64
  version : UInt32
  switches : List String
  deriving DecidableEq, Repr

/-- The position of an instruction in a module. -/
structure Location where
  function : Nat
  block : Nat
  instruction : Nat
  deriving DecidableEq, Repr

/-- The text of a position. -/
def Location.text (l : Location) : String := s!"{l.function}:{l.block}:{l.instruction}"

/-- The terminator that closes a block, if the block is closed. -/
def Block.terminator? (b : Block) : Option Instruction :=
  b.getLast?.filter fun i => i.opcode.isTerminator

namespace Function

/-- A function with one empty block and no local variables. -/
def empty (name : String) (params : UInt64) (returns : ReturnType) : Function :=
  ⟨name, params, 0, [[]], returns⟩

/-- Parameters and local variables together; the count is kept in 64 bits. -/
def registers (f : Function) : UInt64 := f.params + f.locals

/-- The instruction at a block and an index. -/
def instruction? (f : Function) (block index : Nat) : Option Instruction :=
  f.blocks[block]?.bind fun b => b[index]?

/-- Puts an instruction in the place of the one at a block and an index. -/
def setInstruction (f : Function) (block index : Nat) (i : Instruction) : Function :=
  { f with blocks := f.blocks.modify block fun b => b.set index i }

/-- Appends an instruction to a block. -/
def pushInstruction (f : Function) (block : Nat) (i : Instruction) : Function :=
  { f with blocks := f.blocks.modify block fun b => b ++ [i] }

/-- Takes the last instruction of a block away. -/
def popInstruction (f : Function) (block : Nat) : Function :=
  { f with blocks := f.blocks.modify block List.dropLast }

/-- Appends a block. -/
def pushBlock (f : Function) (b : Block) : Function := { f with blocks := f.blocks ++ [b] }

/-- The instructions in order, each with its block and its index in the block. -/
def instructions (f : Function) : List (Nat × Nat × Instruction) :=
  f.blocks.zipIdx.flatMap fun (b, block) => b.zipIdx.map fun (i, index) => (block, index, i)

/-- How many instructions there are. -/
def instructionCount (f : Function) : Nat := f.blocks.flatten.length

end Function

namespace Module

/-- The version of the representation that modules are made in. -/
def currentVersion : UInt32 := 1

/-- A module without functions. -/
def empty (name : String) : Module := ⟨name, [], 256, currentVersion, []⟩

/-- Appends a function. -/
def pushFunction (m : Module) (f : Function) : Module :=
  { m with functions := m.functions ++ [f] }

/-- Appends a switch. -/
def pushSwitch (m : Module) (name : String) : Module :=
  { m with switches := m.switches ++ [name] }

/-- Changes the function at an index. -/
def modifyFunction (m : Module) (index : Nat) (change : Function → Function) : Module :=
  { m with functions := m.functions.modify index change }

/-- The index of the first function with a name. -/
def findFunction? (m : Module) (name : String) : Option Nat :=
  m.functions.findIdx? fun f => f.name == name

/-- The instruction at a position. -/
def instruction? (m : Module) (l : Location) : Option Instruction :=
  m.functions[l.function]?.bind fun f => f.instruction? l.block l.instruction

/-- Puts an instruction in the place of the one at a position. -/
def setInstruction (m : Module) (l : Location) (i : Instruction) : Module :=
  m.modifyFunction l.function fun f => f.setInstruction l.block l.instruction i

/-- How many instructions there are. -/
def instructionCount (m : Module) : Nat := (m.functions.flatMap Function.blocks).flatten.length

end Module

end MutantGate
