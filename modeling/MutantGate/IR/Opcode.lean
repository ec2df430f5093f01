/-!
# Operation codes

The operations of the intermediate representation, in the order that fixes their
number in the binary form, with the classes that the other parts of the library ask
for and the names they are written under.
-/

namespace MutantGate

/-- The operation of an instruction. -/
inductive Opcode where
  | add
  | sub
  | mul
  | div
  | mod
  | neg
  | abs
  | min
  | max
  | eq
  | ne
  | lt
  | le
  | gt
  | ge
  | and
  | or
  | not
  | xor
  | const
  | copy
  | load
  | store
  | branch
  | branchIf
  | call
  | ret
  | readSwitch
  | nop
  deriving DecidableEq, Repr

namespace Opcode

/-- All operations, in order. -/
def all : List Opcode :=
  [.add, .sub, .mul, .div, .mod, .neg, .abs, .min, .max, .eq, .ne, .lt, .le, .gt, .ge, .and, .or,
    .not, .xor, .const, .copy, .load, .store, .branch, .branchIf, .call, .ret, .readSwitch, .nop]

/-- The word for an operation in the text of an instruction. -/
def mnemonic : Opcode → String
  | .add => "add"
  | .sub => "sub"
  | .mul => "mul"
  | .div => "div"
  | .mod => "mod"
  | .neg => "neg"
  | .abs => "abs"
  | .min => "min"
  | .max => "max"
  | .eq => "eq"
  | .ne => "ne"
  | .lt => "lt"
  | .le => "le"
  | .gt => "gt"
  | .ge => "ge"
  | .and => "and"
  | .or => "or"
  | .not => "not"
  | .xor => "xor"
  | .const => "const"
  | .copy => "copy"
  | .load => "load"
  | .store => "store"
  | .branch => "br"
  | .branchIf => "br_if"
  | .call => "call"
  | .ret => "ret"
  | .readSwitch => "switch"
  | .nop => "nop"

/-- The name of an operation in the JSON form of a module. -/
def name : Opcode → String
  | .add => "Add"
  | .sub => "Sub"
  | .mul => "Mul"
  | .div => "Div"
  | .mod => "Mod"
  | .neg => "Neg"
  | .abs => "Abs"
  | .min => "Min"
  | .max => "Max"
  | .eq => "Eq"
  | .ne => "Ne"
  | .lt => "Lt"
  | .le => "Le"
  | .gt => "Gt"
  | .ge => "Ge"
  | .and => "And"
  | .or => "Or"
  | .not => "Not"
  | .xor => "Xor"
  | .const => "LoadConst"
  | .copy => "Copy"
  | .load => "Load"
  | .store => "Store"
  | .branch => "Branch"
  | .branchIf => "BranchIf"
  | .call => "Call"
  | .ret => "Return"
  | .readSwitch => "ReadSwitch"
  | .nop => "Nop"

/-- The operation with a given name. -/
def ofName? (s : String) : Option Opcode := all.find? fun o => o.name == s

/-- Does the operation steer which instruction comes next? -/
def isControlFlow : Opcode → Bool
  | .branch | .branchIf | .call | .ret => true
  | _ => false

/-- Does the operation close a block? -/
def isTerminator : Opcode → Bool
  | .branch | .branchIf | .ret => true
  | _ => false

/-- Is the operation one of the five of arithmetic with two operands? -/
def isBinaryArithmetic : Opcode → Bool
  | .add | .sub | .mul | .div | .mod => true
  | _ => false

/-- Does the operation compare two numbers? -/
def isComparison : Opcode → Bool
  | .eq | .ne | .lt | .le | .gt | .ge => true
  | _ => false

/-- May an instruction with this operation have a destination?  For a call that
depends on the function called, and the answer here is no. -/
def producesValue : Opcode → Bool
  | .store | .branch | .branchIf | .ret | .nop | .call => false
  | _ => true

/-- How many operands the operation takes.  A call takes its arguments besides, and
a return the value of a function that has one. -/
def operandCount : Opcode → Nat
  | .neg | .not | .abs | .copy | .load | .const | .branch | .call | .readSwitch => 1
  | .ret | .nop => 0
  | _ => 2

end Opcode

end MutantGate
