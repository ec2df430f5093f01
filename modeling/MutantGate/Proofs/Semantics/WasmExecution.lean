import MutantGate.Proofs.Semantics.Outcome
import MutantGate.Wasm.Module
/-!
# Running WebAssembly

What the instructions of WebAssembly do.  A body works on a stack of words, on the local
variables of its function and on the memory, and gives a flow: on behind the body, out of
a number of the constructs around it, or out of the function.  The body of a loop or a
conditional starts with an empty stack of its own; leaving it by a branch drops what it
has there, and a branch to a loop enters the loop again.

As for the intermediate representation, `Module.call` follows a call under a bound on the
depth of calls and on the rounds of every loop.

## What is left outside

Instructions that no module is lowered to, values of other types than 32-bit words, and memory that
grows.  Machine code is not described: what is proved of lowered modules is about WebAssembly, and
it holds of machine code as far as a generator keeps to that.
-/

namespace MutantGate.Wasm

/-- The result of an operation on two words. -/
def BinaryOp.compute : BinaryOp → Word → Word → Outcome Word
  | .eq, a, b => .ok (wordOfBool (a == b))
  | .ne, a, b => .ok (wordOfBool (a != b))
  | .ltS, a, b => .ok (wordOfBool (a.slt b))
  | .gtS, a, b => .ok (wordOfBool (b.slt a))
  | .leS, a, b => .ok (wordOfBool (a.sle b))
  | .geS, a, b => .ok (wordOfBool (b.sle a))
  | .add, a, b => .ok (a + b)
  | .sub, a, b => .ok (a - b)
  | .mul, a, b => .ok (a * b)
  | .divS, a, b => quotient a b
  | .remS, a, b => remainder a b
  | .and, a, b => .ok (a &&& b)
  | .or, a, b => .ok (a ||| b)
  | .xor, a, b => .ok (a ^^^ b)
  | .shl, a, b => .ok (a <<< (b.toNat % 32))

/-- The stack, its top first, the local variables and the memory. -/
structure State where
  stack : List Word
  locals : List Word
  memory : Memory

/-- Where an instruction leads: on, out of a number of constructs, or out of the function
with what is on the stack. -/
inductive Flow where
  | next (s : State)
  | branch (depth : Nat) (s : State)
  | ret (stack : List Word) (memory : Memory)

/-- What a body sees of its module while it runs: the functions with what a call of them
does, and the values of the globals. -/
structure Surroundings where
  functions : List Func
  globals : List Word
  callees : Callees

/-- Leaves a construct around which the given stack was kept. -/
def Flow.leave (outer : List Word) : Flow → Flow
  | .next s => .next { s with stack := s.stack ++ outer }
  | .branch 0 s => .next { s with stack := outer }
  | .branch (d + 1) s => .branch d s
  | .ret stack m => .ret stack m

/-- Runs the body of a loop, again as long as it branches to the loop, through at most
the given number of rounds. -/
def runLoop (body : State → Outcome Flow) : Nat → State → Outcome Flow
  | 0, _ => .error .unfinished
  | n + 1, s => do
    match ← body { s with stack := [] } with
    | .branch 0 t => runLoop body n { t with stack := s.stack }
    | flow => return flow.leave s.stack

/-! ## Instructions that work on the stack -/

namespace State

/-- Pushes a word. -/
def push (s : State) (w : Word) : State := { s with stack := w :: s.stack }

/-- Calls a function with the words on top of the stack, the last argument first. -/
def call (σ : Surroundings) (f : Nat) (s : State) : Outcome Flow := do
  let g ← .ofOption .stuck σ.functions[f]?
  if g.params ≤ s.stack.length then
    match ← σ.callees f (s.stack.take g.params).reverse s.memory with
    | (some w, m) => return .next ⟨w :: s.stack.drop g.params, s.locals, m⟩
    | (none, m) => return .next ⟨s.stack.drop g.params, s.locals, m⟩
  else .error .stuck

/-- Reads the word at a byte address. -/
def load (s : State) : Outcome Flow :=
  match s.stack with
  | a :: rest => do
    let w ← .ofOption .trap (s.memory.word? a.toNat)
    return .next { s with stack := w :: rest }
  | _ => .error .stuck

/-- Writes a word to a byte address. -/
def store (s : State) : Outcome Flow :=
  match s.stack with
  | w :: a :: rest => do
    let m ← .ofOption .trap (s.memory.setWord? a.toNat w)
    return .next ⟨rest, s.locals, m⟩
  | _ => .error .stuck

/-- Picks the lower of two words if the word on top of them is not zero. -/
def select (s : State) : Outcome Flow :=
  match s.stack with
  | c :: b :: a :: rest => .ok (.next { s with stack := (if c = 0 then b else a) :: rest })
  | _ => .error .stuck

/-- Puts the word on top of the stack into a local variable. -/
def localSet (i : Nat) (s : State) : Outcome Flow :=
  match s.stack with
  | w :: rest =>
    if i < s.locals.length then
      .ok (.next { s with stack := rest, locals := s.locals.set i w })
    else .error .stuck
  | _ => .error .stuck

/-- Pushes the word from a list at an index, which has to be there. -/
def pushFrom (ws : List Word) (i : Nat) (s : State) : Outcome Flow := do
  return .next (s.push (← .ofOption .stuck ws[i]?))

/-- Replaces the two words on top of the stack, the second operand first. -/
def binary (op : BinaryOp) (s : State) : Outcome Flow :=
  match s.stack with
  | b :: a :: rest => do return .next { s with stack := (← op.compute a b) :: rest }
  | _ => .error .stuck

/-- Replaces the word on top of the stack. -/
def unary (op : Word → Word) (s : State) : Outcome Flow :=
  match s.stack with
  | a :: rest => .ok (.next { s with stack := op a :: rest })
  | _ => .error .stuck

/-- Drops the word on top of the stack. -/
def drop (s : State) : Outcome Flow :=
  match s.stack with
  | _ :: rest => .ok (.next { s with stack := rest })
  | _ => .error .stuck

end State

/-! ## Bodies -/

mutual

/-- What an instruction does. -/
def Instr.exec (σ : Surroundings) (rounds : Nat) : Instr → State → Outcome Flow
  | .unreachable, _ => .error .trap
  | .nop, s => .ok (.next s)
  | .loop body, s => runLoop (Instr.execBody σ rounds body) rounds s
  | .ifThen body, s =>
    match s.stack with
    | c :: rest =>
      if c = 0 then .ok (.next { s with stack := rest })
      else (Instr.execBody σ rounds body { s with stack := [] }).map (Flow.leave rest)
    | [] => .error .stuck
  | .br depth, s => .ok (.branch depth s)
  | .ret, s => .ok (.ret s.stack s.memory)
  | .call f, s => s.call σ f.toNat
  | .drop, s => s.drop
  | .select, s => s.select
  | .localGet i, s => s.pushFrom s.locals i.toNat
  | .localSet i, s => s.localSet i.toNat
  | .globalGet i, s => s.pushFrom σ.globals i.toNat
  | .load, s => s.load
  | .store, s => s.store
  | .const w, s => .ok (.next (s.push w))
  | .eqz, s => s.unary fun a => wordOfBool (a == 0)
  | .binary op, s => s.binary op

/-- Runs a body up to the first instruction that leads elsewhere. -/
def Instr.execBody (σ : Surroundings) (rounds : Nat) : List Instr → State → Outcome Flow
  | [], s => .ok (.next s)
  | i :: body, s => do
    match ← Instr.exec σ rounds i s with
    | .next s => Instr.execBody σ rounds body s
    | flow => return flow

end

/-! ## Functions and the module -/

/-- The result of a function with the given stack at its end. -/
def Func.result (f : Func) (stack : List Word) (m : Memory) : Outcome Returned :=
  match f.hasResult, stack with
  | false, _ => .ok (none, m)
  | true, w :: _ => .ok (some w, m)
  | true, [] => .error .stuck

/-- Runs a function on arguments, of which there have to be as many as parameters; local
variables start at zero. -/
def Func.run (σ : Surroundings) (rounds : Nat) (f : Func) (args : List Word) (m : Memory) :
    Outcome Returned :=
  if args.length = f.params then do
    match ← Instr.execBody σ rounds f.body ⟨[], args ++ List.replicate f.locals.toNat 0, m⟩ with
    | .next s | .branch 0 s => f.result s.stack s.memory
    | .ret stack m => f.result stack m
    | .branch _ _ => .error .stuck
  else .error .stuck

namespace Module

/-- What the functions of a module do, as far as a bound on the depth of calls and on the
rounds of loops shows it. -/
def call (w : Module) (globals : List Word) : Nat → Callees
  | 0, _, _, _ => .error .unfinished
  | n + 1, index, args, memory =>
    match w.functions[index]? with
    | none => .error .stuck
    | some f => f.run ⟨w.functions, globals, w.call globals n⟩ (n + 1) args memory

/-- A call of a function returns. -/
def Returns (w : Module) (globals : List Word) (index : Nat) (args : List Word)
    (memory : Memory) (r : Returned) : Prop :=
  ∃ n, w.call globals n index args memory = .ok r

/-- A call of a function traps. -/
def Traps (w : Module) (globals : List Word) (index : Nat) (args : List Word)
    (memory : Memory) : Prop :=
  ∃ n, w.call globals n index args memory = .error .trap

end Module

end MutantGate.Wasm
