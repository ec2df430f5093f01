import MutantGate.IR.Module
/-!
# Violations and where they are

What can be wrong with a module, one constructor to a rule, and the words for each.
A diagnostic is a violation at a place: the module, a function, a block of a
function, or an instruction of a block.
-/

namespace MutantGate

/-- What can be wrong with a module. -/
inductive Violation where
  /-- A function has the empty name. -/
  | emptyName
  /-- An earlier function has the same name. -/
  | duplicateFunction (name : String)
  /-- An earlier switch has the same name. -/
  | duplicateSwitch (name : String)
  /-- A function has no blocks. -/
  | noBlocks
  /-- A block has no instructions. -/
  | emptyBlock
  /-- A block ends with an instruction that does not close it. -/
  | openEnd (i : Instruction)
  /-- An instruction that closes a block stands before its end. -/
  | earlyEnd (i : Instruction)
  /-- The destination is no register of the function. -/
  | destOutOfRange (r : Register) (registers : Nat)
  /-- An operand is no register of the function. -/
  | operandOutOfRange (r : Register) (registers : Nat)
  /-- An operand is no word. -/
  | notAValue (o : Operand)
  /-- A call passes the wrong number of arguments. -/
  | argumentCount (callee : String) (passed : Nat) (expected : Nat)
  /-- A call of a function without value has a destination. -/
  | voidCallDest (callee : String)
  /-- A call names a function that is not there. -/
  | missingCallee (index : Nat)
  /-- A call names no function. -/
  | noCallee
  /-- A return gives back too many or too few values. -/
  | returnCount (found : Nat) (returns : ReturnType)
  /-- An operation has too many or too few operands. -/
  | operandCount (opcode : Opcode) (expected : Nat) (found : Nat)
  /-- A branch has too many or too few operands. -/
  | branchCount (found : Nat)
  /-- A branch names a block that is not there. -/
  | missingTarget (index : Nat)
  /-- A branch names no block. -/
  | noTarget
  /-- A conditional branch has no block to go on with. -/
  | noFallthrough
  /-- A switch that is read is not there. -/
  | missingSwitch (index : Nat)
  /-- A switch read has other operands than one switch. -/
  | badSwitchRead
  /-- An operation without result has a destination. -/
  | unexpectedDest (opcode : Opcode)
  deriving DecidableEq, Repr

/-- The words for a violation. -/
def Violation.message : Violation → String
  | .emptyName => "function with empty name"
  | .duplicateFunction name => s!"duplicate function name '{name}'"
  | .duplicateSwitch name => s!"duplicate switch name '{name}'"
  | .noBlocks => "has no basic blocks"
  | .emptyBlock => "is empty"
  | .openEnd i => s!"block ends with non-terminator '{i.text}'"
  | .earlyEnd i => s!"terminator '{i.text}' in the middle of a block"
  | .destOutOfRange r n => s!"destination {r.text} out of range ({n} registers)"
  | .operandOutOfRange r n => s!"operand {r.text} out of range ({n} registers)"
  | .notAValue o => s!"operand '{o.text}' is not a register or immediate"
  | .argumentCount callee passed expected =>
    s!"call to '{callee}' passes {passed} arguments, expected {expected}"
  | .voidCallDest callee => s!"call to void function '{callee}' has a destination"
  | .missingCallee i => s!"call to missing function @{i}"
  | .noCallee => "call without function index"
  | .returnCount found returns =>
    s!"return with {found} operands in function returning {returns.name}"
  | .operandCount opcode expected found =>
    s!"{opcode.mnemonic} expects {expected} operands, found {found}"
  | .branchCount found => s!"br expects 1 operand, found {found}"
  | .missingTarget i => s!"branch target bb{i} does not exist"
  | .noTarget => "branch without block target"
  | .noFallthrough => "br_if in the last block has no fallthrough"
  | .missingSwitch i => s!"switch{i} does not exist"
  | .badSwitchRead => "switch read expects a single switch operand"
  | .unexpectedDest opcode => s!"{opcode.mnemonic} cannot have a destination"

/-- Where a violation is. -/
inductive Place where
  | module
  | function (name : String)
  | block (function : String) (block : Nat)
  | instruction (function : String) (block : Nat) (index : Nat)
  deriving DecidableEq, Repr

namespace Place

/-- The name of the function a place is in. -/
def function? : Place → Option String
  | .module => none
  | .function name | .block name _ | .instruction name .. => some name

/-- The block a place is in. -/
def block? : Place → Option Nat
  | .module | .function _ => none
  | .block _ b | .instruction _ b _ => some b

/-- The instruction a place is at. -/
def instruction? : Place → Option Nat
  | .instruction _ _ i => some i
  | _ => none

/-- The words in front of a message: nothing for the module itself. -/
def lead : Place → String
  | .module => ""
  | .function name => s!"function '{name}': "
  | .block name b => s!"function '{name}' block {b}: "
  | .instruction name b i => s!"function '{name}' block {b} instruction {i}: "

end Place

/-- A violation at its place. -/
structure Diagnostic where
  place : Place
  violation : Violation
  deriving DecidableEq, Repr

/-- The text of a diagnostic. -/
def Diagnostic.text (d : Diagnostic) : String := d.place.lead ++ d.violation.message

end MutantGate
