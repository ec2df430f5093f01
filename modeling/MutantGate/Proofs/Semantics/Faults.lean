import MutantGate.IR.Diagnosis
import MutantGate.Lowering
import MutantGate.Mutation.Operator
/-!
# Faults

The parts of a list that the library looks at are found by patterns, and what a pattern does not
find is answered for.  Here they are found by number: an element, what lies in front of a place
and what lies behind it; a length is taken less one; and a case may be held impossible.  Each of
these has a domain, and outside of it there is no answer but a fault, which nothing catches.

What is wrong with a module, the code for it, and what an operator makes of an instruction are
put in this form a second time, with the looks and the questions before them in the order in which
they are made: that no fault occurs can only be owed to this order, for nothing is asked of a
module beforehand.

## What is left outside

All other parts of the library, of which there is no second form.  That the two forms agree is the
theorem of `Proofs.NoFaults`; nothing else is proved of the form here.
-/

namespace MutantGate

/-- What comes of a partial operation outside its domain. -/
inductive Fault where
  /-- A list has no such element. -/
  | noElement (index length : Nat)
  /-- A list ends in front of the place from which on it is looked at. -/
  | startBehindEnd (start length : Nat)
  /-- A list ends in front of the place up to which it is looked at. -/
  | stopBehindEnd (stop length : Nat)
  /-- More is taken away than there is. -/
  | belowZero (a b : Nat)
  /-- A case that was held impossible. -/
  | impossibleCase
  deriving DecidableEq, Repr

/-- What may be refused with a reason, or come to a fault. -/
abbrev Attempt (ε α : Type) := ExceptT ε (Except Fault) α

namespace Attempt

variable {ε ε' α β : Type}

/-- An answer or a refusal, and no fault. -/
def of (x : Except ε α) : Attempt ε α := ExceptT.mk (.ok x)

/-- After an answer an attempt goes on. -/
theorem of_ok_bind (a : α) (k : α → Attempt ε β) : (of (.ok a) >>= k) = k a := rfl

/-- Inside of its domain a partial operation gives an answer. -/
theorem lift_ok_bind (a : α) (k : α → Attempt ε β) :
    (ExceptT.lift (.ok a : Except Fault α) >>= k) = k a := rfl

/-- A refusal may be put in other words. -/
theorem adapt_of (rename : ε → ε') (x : Except ε α) :
    ExceptT.adapt rename (of x) = of (x.mapError rename) := rfl

end Attempt

namespace Checked

/-! ## Partial operations -/

section Operations

variable {α β : Type}

/-- The element with a number. -/
def elementAt (xs : List α) (index : Nat) : Except Fault α :=
  match xs[index]? with
  | some x => .ok x
  | none => .error (.noElement index xs.length)

/-- A list with another element in a place that it has. -/
def setAt (xs : List α) (index : Nat) (x : α) : Except Fault (List α) :=
  if index < xs.length then .ok (xs.set index x) else .error (.noElement index xs.length)

/-- A list from a place on, which may be its end. -/
def sliceFrom (xs : List α) (start : Nat) : Except Fault (List α) :=
  if start ≤ xs.length then .ok (xs.drop start) else .error (.startBehindEnd start xs.length)

/-- A list up to a place, which may be its end. -/
def sliceTo (xs : List α) (stop : Nat) : Except Fault (List α) :=
  if stop ≤ xs.length then .ok (xs.take stop) else .error (.stopBehindEnd stop xs.length)

/-- A difference that is a natural number. -/
def minus (a b : Nat) : Except Fault Nat := if b ≤ a then .ok (a - b) else .error (.belowZero a b)

/-- What there is for each element, in order, up to the first fault. -/
def flatMap (k : α → Except Fault (List β)) : List α → Except Fault (List β)
  | [] => .ok []
  | x :: xs => do
    let bs ← k x
    return bs ++ (← flatMap k xs)

end Operations

/-! ## Diagnosis -/

/-- A call: the arguments are looked at where there is a callee for them. -/
def callViolations (m : Module) (i : Instruction) : Except Fault (List Violation) :=
  match i.operands.head? with
  | some (.function index) =>
    match m.functions[index.toNat]? with
    | some callee => do
      let args ← sliceFrom i.operands 1
      return (if args.length = callee.params.toNat then []
          else [.argumentCount callee.name args.length callee.params.toNat])
        ++ valueViolations args
        ++ (if callee.returns = .void ∧ i.dest.isSome then [.voidCallDest callee.name] else [])
    | none => return [.missingCallee index.toNat]
  | _ => return [.noCallee]

/-- A conditional branch: the condition is looked at if there is one. -/
def branchIfViolations (f : Function) (block : Nat) (i : Instruction) :
    Except Fault (List Violation) := do
  let condition ← sliceTo i.operands (min i.operands.length 1)
  return (if i.operands.length = 2 then [] else [.operandCount .branchIf 2 i.operands.length])
    ++ valueViolations condition
    ++ targetViolations f i.operands[1]?
    ++ (if block + 1 < f.blocks.length then [] else [.noFallthrough])

/-- The operands of the other operations are gone through one by one. -/
def operandViolations (m : Module) (f : Function) (block : Nat) (i : Instruction) :
    Except Fault (List Violation) :=
  match i.opcode with
  | .call => callViolations m i
  | .branchIf => branchIfViolations f block i
  | _ => return MutantGate.operandViolations m f block i

/-- What is wrong with an instruction. -/
def instructionViolations (m : Module) (f : Function) (block : Nat) (i : Instruction) :
    Except Fault (List Violation) := do
  let violations ← operandViolations m f block i
  return registerViolations f i ++ violations ++ destViolations i

/-- The diagnostics of a block: the number of its last instruction is found by a difference. -/
def blockDiagnostics (m : Module) (f : Function) (block : Nat) (b : Block) :
    Except Fault (List Diagnostic) :=
  if b.isEmpty then return [⟨.block f.name block, .emptyBlock⟩]
  else do
    let last ← minus b.length 1
    b.zipIdx |> flatMap fun (i, index) => do
      let violations ← instructionViolations m f block i
      return (closingViolations (index == last) i ++ violations).map
        fun v => ⟨.instruction f.name block index, v⟩

/-- The diagnostics of a function. -/
def functionDiagnostics (m : Module) (f : Function) : Except Fault (List Diagnostic) :=
  if f.blocks.isEmpty then return [⟨.function f.name, .noBlocks⟩]
  else f.blocks.zipIdx |> flatMap fun (b, block) => blockDiagnostics m f block b

/-- All diagnostics of a module. -/
def diagnostics (m : Module) : Except Fault (List Diagnostic) := do
  let ofFunctions ← m.functions |> flatMap (functionDiagnostics m)
  return (nameViolations [] (m.functions.map Function.name)
      ++ repeated .duplicateSwitch [] m.switches).map (fun v => ⟨.module, v⟩)
    ++ ofFunctions

/-! ## Lowering -/

/-- A store: the address is pushed before the value is looked at. -/
def lowerStore (i : Instruction) : Attempt BodyObstacle (List Wasm.Instr) := do
  let a ← Attempt.of (pushAddress i.operands.head?)
  let value ← ExceptT.lift (sliceFrom i.operands 1)
  let v ← Attempt.of (pushOperands value)
  return a ++ v ++ [.store]

/-- A call: the callee is found before the arguments are looked at. -/
def lowerCall (m : Module) (i : Instruction) : Attempt BodyObstacle (List Wasm.Instr) :=
  match i.callee? with
  | none => throw (.noCallee i)
  | some index =>
    match m.functions[index.toNat]? with
    | none => throw (.missingCallee index.toNat)
    | some callee => do
      let args ← ExceptT.lift (sliceFrom i.operands 1)
      let a ← Attempt.of (pushOperands args)
      return a ++ .call index :: (if callee.returns = .int then [takeResult i.dest] else [])

/-- A conditional branch: the target, which stands second, is found before the condition is
looked at. -/
def lowerBranchIf (selector : UInt32) (block : Nat) (i : Instruction) :
    Attempt BodyObstacle (List Wasm.Instr) := do
  let t ← Attempt.of (branchTarget i.operands[1]?)
  let condition ← ExceptT.lift (sliceTo i.operands 1)
  let c ← Attempt.of (pushOperands condition)
  return .const t :: .const (BitVec.ofNat 32 (block + 1)) :: c ++ .select :: restart selector

/-- The code for an instruction; the operands of the other operations are gone through one by
one, or asked for the first of them. -/
def lowerInstruction (m : Module) (selector : UInt32) (block : Nat) (i : Instruction) :
    Attempt BodyObstacle (List Wasm.Instr) :=
  match i.opcode with
  | .store => lowerStore i
  | .call => lowerCall m i
  | .branchIf => lowerBranchIf selector block i
  | _ => Attempt.of (MutantGate.lowerInstruction m selector block i)

/-- The code for the instructions of a block. -/
def lowerInstructions (m : Module) (selector : UInt32) (block : Nat) :
    List Instruction → Attempt BodyObstacle (List Wasm.Instr)
  | [] => return []
  | i :: is => do
    let c ← lowerInstruction m selector block i
    return c ++ (← lowerInstructions m selector block is)

/-- The code for blocks that are numbered from `block` on. -/
def lowerBlocks (m : Module) (selector : UInt32) (block : Nat) :
    List Block → Attempt BodyObstacle (List Wasm.Instr)
  | [] => return []
  | b :: bs => do
    let c ← lowerInstructions m selector block b
    return whenSelected selector block c ++ (← lowerBlocks m selector (block + 1) bs)

/-- The code for a function. -/
def lowerFunction (m : Module) (f : Function) : Attempt BodyObstacle Wasm.Func := do
  let code ← lowerBlocks m f.selector 0 f.blocks
  return {
    params := f.params.toNat
    hasResult := f.returns == .int
    locals := f.locals.toUInt32 + 1
    body := [.loop code, .unreachable] }

/-- The code for functions. -/
def lowerFunctions (m : Module) : List Function → Attempt Obstacle (List Wasm.Func)
  | [] => return []
  | f :: fs => do
    let g ← (lowerFunction m f).adapt (.body f.name)
    return g :: (← lowerFunctions m fs)

/-- The module in WebAssembly. -/
def lower (options : LoweringOptions) (m : Module) : Attempt Obstacle Wasm.Module := do
  let pages ← Attempt.of (memoryPages options.maxPages m)
  let functions ← lowerFunctions m m.functions
  return {
    functions
    minPages := pages
    maxPages := max options.maxPages.toNat pages
    globals := m.switches.length
    exports := moduleExports options m }

/-! ## Mutating -/

/-- The operations that an operator exchanges, if that is what it does. -/
def swap? : Operator → Option (Opcode × Opcode)
  | .addToSub => some (.add, .sub)
  | .subToAdd => some (.sub, .add)
  | .mulToDiv => some (.mul, .div)
  | .divToMul => some (.div, .mul)
  | .remToDiv => some (.mod, .div)
  | .minusToNoop => some (.neg, .copy)
  | .eqToNe => some (.eq, .ne)
  | .neToEq => some (.ne, .eq)
  | .ltToGe => some (.lt, .ge)
  | .geToLt => some (.ge, .lt)
  | .gtToLe => some (.gt, .le)
  | .leToGt => some (.le, .gt)
  | .andToOr => some (.and, .or)
  | .orToAnd => some (.or, .and)
  | .xorToOr => some (.xor, .or)
  | .removeNegation => some (.not, .copy)
  | _ => none

/-- The constant that an instruction loads, if it is all that is loaded. -/
def scalar? (i : Instruction) : Option Value :=
  match i.opcode, i.operands with
  | .const, [.immediate v] => some v
  | _, _ => none

/-- How many replacements an operator has that does not exchange operations. -/
def otherCount (o : Operator) (i : Instruction) : Nat :=
  match o with
  | .removeVoidCall => if i.opcode = .call ∧ i.dest.isNone then 1 else 0
  | .replaceCall => if i.opcode = .call ∧ i.dest.isSome then 1 else 0
  | .replaceScalar =>
    match scalar? i with
    | some (.int _) => 2
    | some (.bool _) => 1
    | _ => 0
  | .noMutation => if i.opcode.isBinaryArithmetic then 1 else 0
  | _ => 0

/-- How many replacements there are, counted without making them. -/
def available (o : Operator) (i : Instruction) : Nat :=
  match swap? o with
  | some (old, _) => if i.opcode = old then 1 else 0
  | none => otherCount o i

/-- The constant with a number in the place of the one that is loaded. -/
def otherValue (variant : Nat) (i : Instruction) : Attempt Operator.Refusal Value :=
  match scalar? i with
  | some (.int w) => do
    let word ← ExceptT.lift (elementAt (Operator.otherWords w) variant)
    return .int word
  | some (.bool b) => return .bool !b
  | _ => throw (.mismatch .replaceScalar i)

/-- A replacement by an operator that does not exchange operations, for a number that has been
compared with how many there are. -/
def rewrite (o : Operator) (variant : Nat) (i : Instruction) :
    Attempt Operator.Refusal Instruction :=
  match o with
  | .removeVoidCall => return .nop
  | .replaceCall =>
    match i.dest with
    | some d => return .const d (.int Operator.replacedResult)
    | none => throw (.mismatch .replaceCall i)
  | .replaceScalar => do
    let v ← otherValue variant i
    let operands ← ExceptT.lift (setAt i.operands 0 (.immediate v))
    return { i with operands }
  | .noMutation => return i
  | _ => ExceptT.lift (.error .impossibleCase)

/-- The replacement with a number: what there is is counted first. -/
def mutate (o : Operator) (variant : Nat) (i : Instruction) :
    Attempt Operator.Refusal Instruction :=
  if available o i = 0 then throw (.mismatch o i)
  else if available o i ≤ variant then throw (.noSuchVariant o i (available o i) variant)
  else
    match swap? o with
    | some (_, new) => return { i with opcode := new }
    | none => rewrite o variant i

end Checked

end MutantGate
