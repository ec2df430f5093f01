import MutantGate.IR.Opcode
import MutantGate.Number.Layout
/-!
# Instructions

An instruction has an operation, perhaps a destination register, and a list of
operands of any kind and number: whether they fit the operation is decided later
and elsewhere, so that ill-formed modules can be spoken of as well.
-/

namespace MutantGate

/-- A parameter or local variable of a function. -/
structure Register where
  index : UInt8
  deriving DecidableEq, Repr

/-- A constant.  Where a word is needed each kind has one. -/
inductive Value where
  | int (w : Word)
  | float (x : Binary32)
  | bool (b : Bool)
  deriving DecidableEq, Repr

/-- What an instruction works on. -/
inductive Operand where
  | register (r : Register)
  | immediate (v : Value)
  | block (index : UInt32)
  | function (index : UInt32)
  | switch (index : UInt32)
  deriving DecidableEq, Repr

/-- One instruction. -/
structure Instruction where
  opcode : Opcode
  dest : Option Register
  operands : List Operand
  deriving DecidableEq, Repr

/-! ## Constants as words and truth values -/

namespace Value

/-- The word a constant stands for. -/
def toWord : Value → Word
  | .int w => w
  | .float x => x.truncate
  | .bool b => if b then 1 else 0

/-- The truth value a constant stands for: everything but zero is true. -/
def toBool : Value → Bool
  | .int w => w != 0
  | .float x => !x.isZero
  | .bool b => b

/-- Numbers in instructions have a point or an exponent and no signs but minus; from
`10 ^ 16` on and below `10 ^ -4` they are written with an exponent, and of two
equally short decimals the greater one is taken. -/
def layout : Layout := ⟨-4, 16, .implicit, .up⟩

/-- The text of a single-precision constant. -/
def floatText (x : Binary32) : String :=
  match layout.numeral? x with
  | some n => n.text
  | none =>
    if x.magnitude = .infinite then (if x.isNegative then "-inf" else "inf") else "NaN"

/-- The text of a constant. -/
def text : Value → String
  | .int w => toString w.toInt
  | .float x => floatText x
  | .bool b => toString b

end Value

/-! ## Operands -/

/-- The text of a register. -/
def Register.text (r : Register) : String := s!"r{r.index.toNat}"

namespace Operand

/-- Can the operand be loaded as a word? -/
def isValue : Operand → Bool
  | .register _ | .immediate _ => true
  | _ => false

/-- The text of an operand. -/
def text : Operand → String
  | .register r => r.text
  | .immediate v => v.text
  | .block i => s!"bb{i.toNat}"
  | .function i => s!"@{i.toNat}"
  | .switch i => s!"switch{i.toNat}"

end Operand

/-! ## Instructions -/

namespace Instruction

/-- An operation without destination and operands. -/
def bare (opcode : Opcode) : Instruction := ⟨opcode, none, []⟩

/-- An operation on two registers. -/
def binary (opcode : Opcode) (dest a b : Register) : Instruction :=
  ⟨opcode, some dest, [.register a, .register b]⟩

/-- An operation on one register. -/
def unary (opcode : Opcode) (dest a : Register) : Instruction :=
  ⟨opcode, some dest, [.register a]⟩

/-- Puts a constant into a register. -/
def const (dest : Register) (v : Value) : Instruction := ⟨.const, some dest, [.immediate v]⟩

/-- Puts the word at an address into a register. -/
def load (dest address : Register) : Instruction := unary .load dest address

/-- Puts a register into the word at an address. -/
def store (address value : Register) : Instruction :=
  ⟨.store, none, [.register address, .register value]⟩

/-- Goes to a block. -/
def branch (target : UInt32) : Instruction := ⟨.branch, none, [.block target]⟩

/-- Goes to a block if a register is not zero, and else to the next block. -/
def branchIf (condition : Register) (target : UInt32) : Instruction :=
  ⟨.branchIf, none, [.register condition, .block target]⟩

/-- Calls a function with the given registers as arguments. -/
def call (callee : UInt32) (dest : Option Register) (args : List Register) : Instruction :=
  ⟨.call, dest, .function callee :: args.map .register⟩

/-- Puts the state of a switch into a register. -/
def readSwitch (dest : Register) (index : UInt32) : Instruction :=
  ⟨.readSwitch, some dest, [.switch index]⟩

/-- Does nothing. -/
def nop : Instruction := bare .nop

/-- Leaves a function that has no value. -/
def retVoid : Instruction := bare .ret

/-- Leaves a function with the value of a register. -/
def ret (value : Register) : Instruction := ⟨.ret, none, [.register value]⟩

/-- The function that a call names as its first operand. -/
def callee? (i : Instruction) : Option UInt32 :=
  match i.opcode, i.operands with
  | .call, .function f :: _ => some f
  | _, _ => none

/-- The text of an instruction: destination, operation and operands. -/
def text (i : Instruction) : String :=
  (match i.dest with | some d => s!"{d.text} = " | none => "")
    ++ i.opcode.mnemonic
    ++ (if i.operands.isEmpty then "" else " " ++ ", ".intercalate (i.operands.map Operand.text))

end Instruction

end MutantGate
