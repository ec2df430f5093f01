import MutantGate.IR.Violation
/-!
# The diagnosis of a module

All violations of a module in a fixed order: names of functions, names of switches,
then function by function, block by block, instruction by instruction.  A module
without violations is well-formed, and only such a module is handed on.  A function
without blocks and a block without instructions have nothing further to look at;
nothing else hides a violation.

## What is proved elsewhere

That the diagnosis decides a statement of the rules that does not mention it, with no rule hiding
another one (`Proofs.Conformance`).  Where registers are too many to be counted it does not:
`Proofs.RegisterCounts` has the exact bound.
-/

namespace MutantGate

/-! ## Operands -/

/-- Operands that would have to be words and are none. -/
def valueViolations (operands : List Operand) : List Violation :=
  (operands.filter fun o => !o.isValue).map .notAValue

/-- What is wrong with the target of a branch. -/
def targetViolations (f : Function) : Option Operand → List Violation
  | some (.block i) => if i.toNat < f.blocks.length then [] else [.missingTarget i.toNat]
  | _ => [.noTarget]

/-- What is wrong with the registers an instruction names. -/
def registerViolations (f : Function) (i : Instruction) : List Violation :=
  let n := f.registers.toNat
  (match i.dest with
    | some r => if r.index.toNat < n then [] else [.destOutOfRange r n]
    | none => [])
  ++ i.operands.filterMap fun o =>
    match o with
    | .register r => if r.index.toNat < n then none else some (.operandOutOfRange r n)
    | _ => none

/-! ## One operation at a time -/

/-- A call: the callee is there, gets as many arguments as it takes, all of them
words, and has a value if the call has a destination. -/
def callViolations (m : Module) (i : Instruction) : List Violation :=
  match i.operands with
  | .function index :: args =>
    match m.functions[index.toNat]? with
    | some callee =>
      (if args.length = callee.params.toNat then []
        else [.argumentCount callee.name args.length callee.params.toNat])
      ++ valueViolations args
      ++ (if callee.returns = .void ∧ i.dest.isSome then [.voidCallDest callee.name] else [])
    | none => [.missingCallee index.toNat]
  | _ => [.noCallee]

/-- How many values a function gives back. -/
def ReturnType.count : ReturnType → Nat
  | .void => 0
  | .int => 1

/-- A return: as many values as the function gives back. -/
def returnViolations (f : Function) (i : Instruction) : List Violation :=
  (if i.operands.length = f.returns.count then []
    else [.returnCount i.operands.length f.returns])
  ++ valueViolations i.operands

/-- A branch: one operand, a block. -/
def branchViolations (f : Function) (i : Instruction) : List Violation :=
  (if i.operands.length = 1 then [] else [.branchCount i.operands.length])
  ++ targetViolations f i.operands.head?

/-- A conditional branch: a word and a block, and a block to go on with. -/
def branchIfViolations (f : Function) (block : Nat) (i : Instruction) : List Violation :=
  (if i.operands.length = 2 then [] else [.operandCount .branchIf 2 i.operands.length])
  ++ valueViolations (i.operands.take 1)
  ++ targetViolations f i.operands[1]?
  ++ (if block + 1 < f.blocks.length then [] else [.noFallthrough])

/-- A switch read: one operand, a switch of the module. -/
def switchViolations (m : Module) (i : Instruction) : List Violation :=
  match i.operands with
  | [.switch index] =>
    if index.toNat < m.switches.length then [] else [.missingSwitch index.toNat]
  | _ => [.badSwitchRead]

/-- Every other operation: its number of operands, all of them words. -/
def plainViolations (i : Instruction) : List Violation :=
  (if i.operands.length = i.opcode.operandCount then []
    else [.operandCount i.opcode i.opcode.operandCount i.operands.length])
  ++ valueViolations i.operands

/-- What is wrong with the operands of an instruction in a block of a function. -/
def operandViolations (m : Module) (f : Function) (block : Nat) (i : Instruction) :
    List Violation :=
  match i.opcode with
  | .call => callViolations m i
  | .ret => returnViolations f i
  | .branch => branchViolations f i
  | .branchIf => branchIfViolations f block i
  | .readSwitch => switchViolations m i
  | _ => plainViolations i

/-- A destination where there is no result; calls have a rule of their own. -/
def destViolations (i : Instruction) : List Violation :=
  if i.opcode ≠ .call ∧ i.opcode.producesValue = false ∧ i.dest.isSome then
    [.unexpectedDest i.opcode]
  else []

/-- What is wrong with an instruction in a block of a function, wherever in the
block it stands. -/
def instructionViolations (m : Module) (f : Function) (block : Nat) (i : Instruction) :
    List Violation :=
  registerViolations f i ++ operandViolations m f block i ++ destViolations i

/-- A terminator stands at the end of a block and nowhere else. -/
def closingViolations (isLast : Bool) (i : Instruction) : List Violation :=
  match isLast, i.opcode.isTerminator with
  | true, false => [.openEnd i]
  | false, true => [.earlyEnd i]
  | _, _ => []

/-! ## Blocks, functions and the module -/

/-- The diagnostics of a block. -/
def blockDiagnostics (m : Module) (f : Function) (block : Nat) (b : Block) : List Diagnostic :=
  if b.isEmpty then [⟨.block f.name block, .emptyBlock⟩]
  else
    b.zipIdx.flatMap fun (i, index) =>
      (closingViolations (index + 1 == b.length) i ++ instructionViolations m f block i).map
        fun v => ⟨.instruction f.name block index, v⟩

/-- The diagnostics of a function. -/
def functionDiagnostics (m : Module) (f : Function) : List Diagnostic :=
  if f.blocks.isEmpty then [⟨.function f.name, .noBlocks⟩]
  else f.blocks.zipIdx.flatMap fun (b, block) => blockDiagnostics m f block b

/-- The violations of a list of names that is to have no repetitions; each name that
has been there before gives one. -/
def repeated (violation : String → Violation) (before : List String) :
    List String → List Violation
  | [] => []
  | s :: names =>
    (if s ∈ before then [violation s] else []) ++ repeated violation (s :: before) names

/-- What is wrong with the names of the functions: empty names are not compared. -/
def nameViolations (before : List String) : List String → List Violation
  | [] => []
  | s :: names =>
    if s.isEmpty then .emptyName :: nameViolations before names
    else (if s ∈ before then [.duplicateFunction s] else []) ++ nameViolations (s :: before) names

/-- All diagnostics of a module, in order. -/
def Module.diagnostics (m : Module) : List Diagnostic :=
  (nameViolations [] (m.functions.map Function.name)
      ++ repeated .duplicateSwitch [] m.switches).map (fun v => ⟨.module, v⟩)
    ++ m.functions.flatMap (functionDiagnostics m)

/-- A module with which nothing is wrong. -/
def Module.isWellFormed (m : Module) : Bool := m.diagnostics.isEmpty

/-- Writes a line for each diagnostic to a sink, if one is given, and says whether there
were none.  A sink that refuses a line does not change the answer. -/
def Module.report {σ : Type} (m : Module) (sink? : Option (String → StateM σ Bool)) :
    StateM σ Bool := do
  if let some sink := sink? then
    m.diagnostics.forM fun d => discard (sink (d.text ++ "\n"))
  return m.isWellFormed

end MutantGate
