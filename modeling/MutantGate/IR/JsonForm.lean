import MutantGate.IR.Module
import MutantGate.Json.Reader
import MutantGate.Json.Record
import MutantGate.Json.Writer
import MutantGate.Number.Reading
/-!
# The JSON form of a module

Each type of the representation has a JSON form, given by a writer and a reader.
The writer gives every field of a record by name.  The reader also takes records by
position, lets a missing destination be none and missing switches be no switches,
and skips fields it does not know.

## What is proved elsewhere

That a written module is read back exactly if all numbers in it are finite (`Proofs.JsonModules`).
What is read from texts of other writers is not said there.
-/

namespace MutantGate

/-! ## Writing -/

/-- Numbers in JSON have a signed exponent from `10 ^ 13` on and one below
`10 ^ -6`, and of two equally short decimals the one with the even last digit is
taken. -/
def Binary32.jsonLayout : Layout := ⟨-6, 13, .plus, .toEven⟩

/-- A single-precision number, or null if it is not finite. -/
def Binary32.toJson (x : Binary32) : Json :=
  match jsonLayout.numeral? x with
  | some n => .num n
  | none => .null

/-- A register, by its number. -/
def Register.toJson (r : Register) : Json := .ofNat r.index.toNat

def Value.toJson : Value → Json
  | .int w => .object [("Int", .ofInt w.toInt)]
  | .float x => .object [("Float", x.toJson)]
  | .bool b => .object [("Bool", .bool b)]

def Operand.toJson : Operand → Json
  | .register r => .object [("Register", r.toJson)]
  | .immediate v => .object [("Immediate", v.toJson)]
  | .block i => .object [("BlockIndex", .ofNat i.toNat)]
  | .function i => .object [("FunctionIndex", .ofNat i.toNat)]
  | .switch i => .object [("Switch", .ofNat i.toNat)]

def Instruction.toJson (i : Instruction) : Json :=
  .object
    [("opcode", .text i.opcode.name),
      ("dest", .ofOption Register.toJson i.dest),
      ("operands", .arr (i.operands.map Operand.toJson))]

def Block.toJson (b : Block) : Json :=
  .object [("instructions", .arr (b.map Instruction.toJson))]

def Function.toJson (f : Function) : Json :=
  .object
    [("name", .text f.name), ("num_params", .ofNat f.params.toNat),
      ("num_locals", .ofNat f.locals.toNat), ("blocks", .arr (f.blocks.map Block.toJson)),
      ("return_type", .text f.returns.name)]

def Module.toJson (m : Module) : Json :=
  .object
    [("name", .text m.name), ("functions", .arr (m.functions.map Function.toJson)),
      ("memory_size", .ofNat m.memoryWords.toNat), ("version", .ofNat m.version.toNat),
      ("switches", .arr (m.switches.map Json.text))]

/-! ## Reading -/

open Json

/-- A single-precision number in the range of double precision. -/
def Binary32.ofJson? : Json → Option Binary32
  | .num n => n.toBinary32?
  | _ => none

/-- A register number. -/
def Register.ofJson? (v : Json) : Option Register :=
  (natBelow? UInt8.size v).map fun n => ⟨n.toUInt8⟩

/-- A count or an index of 32 bits. -/
def index32? (v : Json) : Option UInt32 := (natBelow? UInt32.size v).map Nat.toUInt32

/-- A count of 64 bits. -/
def count64? (v : Json) : Option UInt64 := (natBelow? UInt64.size v).map Nat.toUInt64

def Value.ofJson? (v : Json) : Option Value := do
  let (name, content) ← tagged? v
  match name with
  | "Int" => (intIn? (-0x80000000) 0x80000000 content).map fun i => .int (BitVec.ofInt 32 i)
  | "Float" => (Binary32.ofJson? content).map .float
  | "Bool" => (bool? content).map .bool
  | _ => none

def Operand.ofJson? (v : Json) : Option Operand := do
  let (name, content) ← tagged? v
  match name with
  | "Register" => (Register.ofJson? content).map .register
  | "Immediate" => (Value.ofJson? content).map .immediate
  | "BlockIndex" => (index32? content).map .block
  | "FunctionIndex" => (index32? content).map .function
  | "Switch" => (index32? content).map .switch
  | _ => none

def Opcode.ofJson? (v : Json) : Option Opcode := (choice? v).bind Opcode.ofName?

/-- The destination of an instruction; by name it may be missing, by position not. -/
def destination? (isPositional : Bool) (field : Option Json) : Option (Option Register) :=
  if isPositional then required? (optional? Register.ofJson?) field
  else defaulted? (optional? Register.ofJson?) none field

def Instruction.ofJson? (v : Json) : Option Instruction := do
  match ← record? ["opcode", "dest", "operands"] v with
  | ⟨isPositional, [opcode, dest, operands]⟩ =>
    some
      { opcode := ← required? Opcode.ofJson? opcode
        dest := ← destination? isPositional dest
        operands := ← required? (list? Operand.ofJson?) operands }
  | _ => none

def Block.ofJson? (v : Json) : Option Block := do
  match ← record? ["instructions"] v with
  | ⟨_, [instructions]⟩ => required? (list? Instruction.ofJson?) instructions
  | _ => none

def ReturnType.ofJson? (v : Json) : Option ReturnType :=
  match choice? v with
  | some "Void" => some .void
  | some "Int" => some .int
  | _ => none

def Function.ofJson? (v : Json) : Option Function := do
  match ← record? ["name", "num_params", "num_locals", "blocks", "return_type"] v with
  | ⟨_, [name, params, locals, blocks, returns]⟩ =>
    some
      { name := ← required? text? name
        params := ← required? count64? params
        locals := ← required? count64? locals
        blocks := ← required? (list? Block.ofJson?) blocks
        returns := ← required? ReturnType.ofJson? returns }
  | _ => none

def Module.ofJson? (v : Json) : Option Module := do
  match ← record? ["name", "functions", "memory_size", "version", "switches"] v with
  | ⟨_, [name, functions, memory, version, switches]⟩ =>
    some
      { name := ← required? text? name
        functions := ← required? (list? Function.ofJson?) functions
        memoryWords := ← required? count64? memory
        version := ← required? index32? version
        switches := ← defaulted? (list? text?) [] switches }
  | _ => none

/-! ## Texts -/

/-- The JSON text of a module. -/
def Module.toJsonText (m : Module) : String := m.toJson.render

/-- The module in a JSON text. -/
def Module.ofJsonText? (text : String) : Option Module := (parse? text).bind Module.ofJson?

end MutantGate
