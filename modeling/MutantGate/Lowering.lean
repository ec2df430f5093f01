import MutantGate.Failure
import MutantGate.IR.Module
import MutantGate.Wasm.Module
/-!
# Lowering to WebAssembly

A function becomes a loop over a local variable that selects the block to run:

    loop
      select = 0 ? if  block 0  end
      select = 1 ? if  block 1  end
      ...
    end
    unreachable

Registers are local variables, so register `r` is local `r` and the selector comes
behind all registers.  A branch sets the selector and starts the loop anew; as every
block ends with a branch or a return, the last instruction is never reached.  With
`[x]` for the code that pushes operand `x`:

    d = op a, b        [a] [b] op, set d
    d = min a, b       [a] [b] [a] [b] less-than, select, set d
    d = neg a          0 [a] subtract, set d
    d = abs a          [a] 0 [a] subtract [a] 0 at-least, select, set d
    d = load a         [a] 2 shift-left, load, set d
    store a, b         [a] 2 shift-left [b] store
    d = call f, a, b   [a] [b] call f, set d
    br t               t, set selector, restart
    br_if c, t         t, next block, [c] select, set selector, restart
    ret a              [a] return

Memory addresses count words, so they are multiplied by four.  A result without
destination is dropped.  The same code is produced for instructions that are not
well-formed as long as it can be; where it cannot, the first obstacle is reported.

## What is proved elsewhere

That the code does what the function does (`Proofs.LoweredRuns`), that every round of the loop runs
one block (`Proofs.DispatchLoop`), that a lowered module is valid and for what memory a module is
refused (`Proofs.LoweredModule`).  All of these hold as long as the counts fit 32 bits; where they
do not, `Proofs.RegisterCounts` and `Proofs.WordAddressing` say what goes wrong.
-/

namespace MutantGate

/-- How a module is lowered: the greatest memory, in pages, and whether functions are
visible under their names. -/
structure LoweringOptions where
  maxPages : UInt32
  exportFunctions : Bool
  deriving DecidableEq, Repr

/-- One page and visible functions. -/
def LoweringOptions.default : LoweringOptions := ⟨1, true⟩

/-! ## Obstacles -/

/-- Why there is no code for a function body. -/
inductive BodyObstacle where
  | notAValue (o : Operand)
  | noAddress
  | noTarget
  | noCallee (i : Instruction)
  | missingCallee (index : Nat)
  | badSwitchRead (i : Instruction)
  deriving DecidableEq, Repr

/-- The words for an obstacle in a body. -/
def BodyObstacle.message : BodyObstacle → String
  | .notAValue o => s!"operand '{o.text}' is not a value"
  | .noAddress => "memory access without address"
  | .noTarget => "branch without block target"
  | .noCallee i => s!"call without callee '{i.text}'"
  | .missingCallee i => s!"call to missing function @{i}"
  | .badSwitchRead i => s!"malformed switch read '{i.text}'"

/-- Why a module cannot be lowered. -/
inductive Obstacle where
  /-- The memory has more bytes than 64 bits count. -/
  | memoryUncountable (words : Nat) (limit : Nat)
  /-- The memory needs more pages than there may be. -/
  | memoryTooLarge (words : Nat) (pages : Nat) (limit : Nat)
  /-- A function body has no code. -/
  | body (function : String) (reason : BodyObstacle)
  deriving DecidableEq, Repr

/-- The words for an obstacle. -/
def Obstacle.message : Obstacle → String
  | .memoryUncountable words limit =>
    s!"memory of {words} words needs too many pages, limit is {limit}"
  | .memoryTooLarge words pages limit =>
    s!"memory of {words} words needs {pages} pages, limit is {limit}"
  | .body function reason => s!"function '{function}': {reason.message}"

/-- An obstacle as a failure of the module it was met in. -/
def Obstacle.failure (module : String) (o : Obstacle) : Failure :=
  .compilation module (.closed o.message)

/-! ## Operands and results -/

/-- Pushes an operand. -/
def pushOperand : Operand → Except BodyObstacle Wasm.Instr
  | .register r => .ok (.localGet r.index.toUInt32)
  | .immediate v => .ok (.const v.toWord)
  | o => .error (.notAValue o)

/-- Pushes operands in order. -/
def pushOperands : List Operand → Except BodyObstacle (List Wasm.Instr)
  | [] => .ok []
  | o :: os =>
    match pushOperand o, pushOperands os with
    | .error e, _ => .error e
    | _, .error e => .error e
    | .ok i, .ok is => .ok (i :: is)

/-- Pushes the byte address of a word. -/
def pushAddress : Option Operand → Except BodyObstacle (List Wasm.Instr)
  | none => .error .noAddress
  | some o => (pushOperand o).map fun i => [i, .const 2, .binary .shl]

/-- Takes the result into the destination, or drops it. -/
def takeResult (dest : Option Register) : Wasm.Instr :=
  match dest with
  | some r => .localSet r.index.toUInt32
  | none => .drop

/-- The number of the block that an operand names. -/
def branchTarget : Option Operand → Except BodyObstacle Word
  | some (.block i) => .ok i.toBitVec
  | _ => .error .noTarget

/-- Goes to the block whose number is on the stack. -/
def restart (selector : UInt32) : List Wasm.Instr := [.localSet selector, .br 1]

/-! ## Instructions -/

/-- An operation that WebAssembly has. -/
def lowerDirect (op : Wasm.BinaryOp) (i : Instruction) : Except BodyObstacle (List Wasm.Instr) :=
  (pushOperands i.operands).map fun a => a ++ [.binary op, takeResult i.dest]

/-- The lesser or greater of two words, by a comparison that picks the first. -/
def lowerExtremum (picksFirst : Wasm.BinaryOp) (i : Instruction) :
    Except BodyObstacle (List Wasm.Instr) :=
  (pushOperands i.operands).map fun a =>
    a ++ a ++ [.binary picksFirst, .select, takeResult i.dest]

/-- A call; the result of a function that has one is taken. -/
def lowerCall (m : Module) (i : Instruction) : Except BodyObstacle (List Wasm.Instr) :=
  match i.operands with
  | .function index :: args =>
    match m.functions[index.toNat]? with
    | none => .error (.missingCallee index.toNat)
    | some callee =>
      (pushOperands args).map fun a =>
        a ++ .call index :: (if callee.returns = .int then [takeResult i.dest] else [])
  | _ => .error (.noCallee i)

/-- The code for an instruction in a block. -/
def lowerInstruction (m : Module) (selector : UInt32) (block : Nat) (i : Instruction) :
    Except BodyObstacle (List Wasm.Instr) :=
  match i.opcode with
  | .add => lowerDirect .add i
  | .sub => lowerDirect .sub i
  | .mul => lowerDirect .mul i
  | .div => lowerDirect .divS i
  | .mod => lowerDirect .remS i
  | .eq => lowerDirect .eq i
  | .ne => lowerDirect .ne i
  | .lt => lowerDirect .ltS i
  | .le => lowerDirect .leS i
  | .gt => lowerDirect .gtS i
  | .ge => lowerDirect .geS i
  | .and => lowerDirect .and i
  | .or => lowerDirect .or i
  | .xor => lowerDirect .xor i
  | .min => lowerExtremum .ltS i
  | .max => lowerExtremum .gtS i
  | .neg =>
    (pushOperands i.operands).map fun a =>
      .const 0 :: a ++ [.binary .sub, takeResult i.dest]
  | .abs =>
    (pushOperands i.operands).map fun a =>
      a ++ .const 0 :: a ++ .binary .sub :: a
        ++ [.const 0, .binary .geS, .select, takeResult i.dest]
  | .not => (pushOperands i.operands).map fun a => a ++ [.eqz, takeResult i.dest]
  | .const | .copy => (pushOperands i.operands).map fun a => a ++ [takeResult i.dest]
  | .load => (pushAddress i.operands.head?).map fun a => a ++ [.load, takeResult i.dest]
  | .store =>
    match pushAddress i.operands.head?, pushOperands i.operands.tail with
    | .error e, _ => .error e
    | _, .error e => .error e
    | .ok a, .ok v => .ok (a ++ v ++ [.store])
  | .readSwitch =>
    match i.operands with
    | .switch index :: _ => .ok [.globalGet index, takeResult i.dest]
    | _ => .error (.badSwitchRead i)
  | .nop => .ok [.nop]
  | .call => lowerCall m i
  | .branch => (branchTarget i.operands.head?).map fun t => .const t :: restart selector
  | .branchIf =>
    match branchTarget i.operands[1]?, pushOperands (i.operands.take 1) with
    | .error e, _ => .error e
    | _, .error e => .error e
    | .ok t, .ok c =>
      .ok (.const t :: .const (BitVec.ofNat 32 (block + 1)) :: c ++ .select :: restart selector)
  | .ret => (pushOperands i.operands).map fun a => a ++ [.ret]

/-! ## Blocks, functions and the module -/

/-- The code for the instructions of a block, up to the first obstacle. -/
def lowerInstructions (m : Module) (selector : UInt32) (block : Nat) :
    List Instruction → Except BodyObstacle (List Wasm.Instr)
  | [] => .ok []
  | i :: is =>
    match lowerInstruction m selector block i, lowerInstructions m selector block is with
    | .error e, _ => .error e
    | _, .error e => .error e
    | .ok c, .ok cs => .ok (c ++ cs)

/-- Runs code if the selector has a given value. -/
def whenSelected (selector : UInt32) (block : Nat) (code : List Wasm.Instr) : List Wasm.Instr :=
  [.localGet selector, .const (BitVec.ofNat 32 block), .binary .eq, .ifThen code]

/-- The code for blocks that are numbered from `block` on. -/
def lowerBlocks (m : Module) (selector : UInt32) (block : Nat) :
    List Block → Except BodyObstacle (List Wasm.Instr)
  | [] => .ok []
  | b :: bs =>
    match lowerInstructions m selector block b, lowerBlocks m selector (block + 1) bs with
    | .error e, _ => .error e
    | _, .error e => .error e
    | .ok c, .ok cs => .ok (whenSelected selector block c ++ cs)

/-- The local variable that selects the block, behind all registers. -/
def Function.selector (f : Function) : UInt32 := f.registers.toUInt32

/-- The code for a function: its local variables are those of the function and the
selector. -/
def lowerFunction (m : Module) (f : Function) : Except BodyObstacle Wasm.Func :=
  (lowerBlocks m f.selector 0 f.blocks).map fun code =>
    { params := f.params.toNat
      hasResult := f.returns == .int
      locals := f.locals.toUInt32 + 1
      body := [.loop code, .unreachable] }

/-- The code for functions, up to the first obstacle. -/
def lowerFunctions (m : Module) : List Function → Except Obstacle (List Wasm.Func)
  | [] => .ok []
  | f :: fs =>
    match lowerFunction m f with
    | .error e => .error (.body f.name e)
    | .ok g => (lowerFunctions m fs).map (g :: ·)

/-- The pages that a number of words needs, at least one. -/
def pagesFor (words : Nat) : Nat := max 1 ((4 * words + (Wasm.pageBytes - 1)) / Wasm.pageBytes)

/-- The pages of a module, if they are countable and within the limit. -/
def memoryPages (limit : UInt32) (m : Module) : Except Obstacle Nat :=
  let words := m.memoryWords.toNat
  if UInt64.size ≤ 4 * words then .error (.memoryUncountable words limit.toNat)
  else if limit.toNat < pagesFor words then
    .error (.memoryTooLarge words (pagesFor words) limit.toNat)
  else .ok (pagesFor words)

/-- What a module makes visible: its functions, its memory, its switches.  The names
are in spaces of their own, so no two of them collide if those of the module do not. -/
def moduleExports (options : LoweringOptions) (m : Module) : List Wasm.Export :=
  (if options.exportFunctions then
      m.functions.zipIdx.map fun (f, index) => ⟨"fn:" ++ f.name, .function, index⟩
    else [])
  ++ ⟨"memory", .memory, 0⟩
  :: m.switches.zipIdx.map fun (s, index) => ⟨"switch:" ++ s, .global, index⟩

/-- The module in WebAssembly; the memory is checked before the functions. -/
def lower (options : LoweringOptions) (m : Module) : Except Obstacle Wasm.Module :=
  match memoryPages options.maxPages m with
  | .error e => .error e
  | .ok pages =>
    (lowerFunctions m m.functions).map fun functions =>
      { functions
        minPages := pages
        maxPages := max options.maxPages.toNat pages
        globals := m.switches.length
        exports := moduleExports options m }

end MutantGate
