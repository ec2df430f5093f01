import MutantGate.IR.Module
import MutantGate.Proofs.Semantics.Outcome
/-!
# Running a module

What the instructions of the intermediate representation do.  Registers hold words; the
parameters come first, and local variables start at zero.  Arithmetic wraps around, and
comparisons are signed.  An address counts words; it is multiplied by four as a word, so
its two highest bits are lost.

A function is run block by block.  A block that has a meaning ends with a branch or a
return, so the instructions of a block give a flow: on to the next instruction, to
another block, or out of the function.  `Module.call` follows a call under a bound, which
limits the depth of calls and the blocks that one call enters; a run returns or traps if
some bound shows it.

## What is left outside

How deep calls may be nested on a real machine.  And the memory is as large as it is: nothing makes
it grow, and how large it is at the start is up to the caller.
-/

namespace MutantGate

/-! ## Operations -/

/-- The result of an operation from words to a word. -/
def Opcode.compute : Opcode → List Word → Outcome Word
  | .add, [a, b] => .ok (a + b)
  | .sub, [a, b] => .ok (a - b)
  | .mul, [a, b] => .ok (a * b)
  | .div, [a, b] => quotient a b
  | .mod, [a, b] => remainder a b
  | .neg, [a] => .ok (-a)
  | .abs, [a] => .ok (if a.slt 0 then -a else a)
  | .min, [a, b] => .ok (if a.slt b then a else b)
  | .max, [a, b] => .ok (if b.slt a then a else b)
  | .eq, [a, b] => .ok (wordOfBool (a == b))
  | .ne, [a, b] => .ok (wordOfBool (a != b))
  | .lt, [a, b] => .ok (wordOfBool (a.slt b))
  | .le, [a, b] => .ok (wordOfBool (a.sle b))
  | .gt, [a, b] => .ok (wordOfBool (b.slt a))
  | .ge, [a, b] => .ok (wordOfBool (b.sle a))
  | .and, [a, b] => .ok (a &&& b)
  | .or, [a, b] => .ok (a ||| b)
  | .not, [a] => .ok (wordOfBool (a == 0))
  | .xor, [a, b] => .ok (a ^^^ b)
  | .const, [a] => .ok a
  | .copy, [a] => .ok a
  | _, _ => .error .stuck

/-! ## Frames -/

/-- The registers of a function that runs, and the memory. -/
structure Frame where
  registers : List Word
  memory : Memory

/-- Where an instruction leads. -/
inductive Flow where
  | next (s : Frame)
  | goto (block : Nat) (s : Frame)
  | ret (result : Returned)

/-- What a function sees of its module while it runs: the states of the switches, and
what a call of a function does. -/
structure Surroundings where
  switches : List Word
  callees : Callees

/-- The word an operand stands for. -/
def Operand.eval (registers : List Word) : Operand → Outcome Word
  | .register r => .ofOption .stuck registers[r.index.toNat]?
  | .immediate v => .ok v.toWord
  | _ => .error .stuck

/-- The words that operands stand for. -/
def evalOperands (registers : List Word) : List Operand → Outcome (List Word)
  | [] => .ok []
  | o :: os => do
    let w ← o.eval registers
    let ws ← evalOperands registers os
    return w :: ws

namespace Frame

/-- Puts a word into a destination, or drops it. -/
def put (s : Frame) (w : Word) : Option Register → Outcome Frame
  | none => .ok s
  | some r =>
    if r.index.toNat < s.registers.length then
      .ok { s with registers := s.registers.set r.index.toNat w }
    else .error .stuck

/-- Takes over the memory and the value of a call. -/
def receive (s : Frame) : Returned → Option Register → Outcome Frame
  | (some w, m), dest => { s with memory := m }.put w dest
  | (none, m), none => .ok { s with memory := m }
  | (none, _), some _ => .error .stuck

/-- The byte address of the word that an address word counts up to. -/
def byteAddress (a : Word) : Nat := (4 * a).toNat

end Frame

/-! ## Instructions -/

namespace Instruction

/-- An operation from words to a word. -/
def execPlain (i : Instruction) (s : Frame) : Outcome Flow := do
  let ws ← evalOperands s.registers i.operands
  let w ← i.opcode.compute ws
  return .next (← s.put w i.dest)

/-- A read of memory. -/
def execLoad (i : Instruction) (s : Frame) : Outcome Flow := do
  match ← evalOperands s.registers i.operands with
  | [a] =>
    let w ← .ofOption .trap (s.memory.word? (Frame.byteAddress a))
    return .next (← s.put w i.dest)
  | _ => .error .stuck

/-- A write to memory. -/
def execStore (i : Instruction) (s : Frame) : Outcome Flow := do
  match ← evalOperands s.registers i.operands with
  | [a, w] =>
    let m ← .ofOption .trap (s.memory.setWord? (Frame.byteAddress a) w)
    return .next { s with memory := m }
  | _ => .error .stuck

/-- A branch. -/
def execBranch (i : Instruction) (s : Frame) : Outcome Flow :=
  match i.operands with
  | [.block t] => .ok (.goto t.toNat s)
  | _ => .error .stuck

/-- A conditional branch in a block: to the target if the condition is not zero, and else
to the next block. -/
def execBranchIf (block : Nat) (i : Instruction) (s : Frame) : Outcome Flow :=
  match i.operands with
  | [c, .block t] => do
    let c ← c.eval s.registers
    return .goto (if c = 0 then block + 1 else t.toNat) s
  | _ => .error .stuck

/-- A call. -/
def execCall (callees : Callees) (i : Instruction) (s : Frame) : Outcome Flow :=
  match i.operands with
  | .function f :: args => do
    let ws ← evalOperands s.registers args
    let r ← callees f.toNat ws s.memory
    return .next (← s.receive r i.dest)
  | _ => .error .stuck

/-- A return from a function: with a value where the function has one. -/
def execRet (returns : ReturnType) (i : Instruction) (s : Frame) : Outcome Flow := do
  match returns, ← evalOperands s.registers i.operands with
  | .void, [] => return .ret (none, s.memory)
  | .int, [w] => return .ret (some w, s.memory)
  | _, _ => .error .stuck

/-- A read of a switch. -/
def execReadSwitch (switches : List Word) (i : Instruction) (s : Frame) : Outcome Flow :=
  match i.operands with
  | [.switch k] => do
    let w ← .ofOption .stuck switches[k.toNat]?
    return .next (← s.put w i.dest)
  | _ => .error .stuck

/-- What an instruction in a block of a function does. -/
def exec (σ : Surroundings) (returns : ReturnType) (block : Nat) (i : Instruction)
    (s : Frame) : Outcome Flow :=
  match i.opcode with
  | .load => i.execLoad s
  | .store => i.execStore s
  | .branch => i.execBranch s
  | .branchIf => i.execBranchIf block s
  | .call => i.execCall σ.callees s
  | .ret => i.execRet returns s
  | .readSwitch => i.execReadSwitch σ.switches s
  | .nop => .ok (.next s)
  | _ => i.execPlain s

end Instruction

/-! ## Blocks, functions and the module -/

/-- Runs the instructions of a block up to the first that leads elsewhere. -/
def execBlock (σ : Surroundings) (returns : ReturnType) (block : Nat) :
    List Instruction → Frame → Outcome Flow
  | [], s => .ok (.next s)
  | i :: is, s => do
    match ← i.exec σ returns block s with
    | .next s => execBlock σ returns block is s
    | flow => return flow

namespace Function

/-- Runs a function from a block on, through at most the given number of blocks. -/
def runFrom (σ : Surroundings) (f : Function) : Nat → Nat → Frame → Outcome Returned
  | 0, _, _ => .error .unfinished
  | n + 1, b, s =>
    match f.blocks[b]? with
    | none => .error .stuck
    | some is => do
      match ← execBlock σ f.returns b is s with
      | .next _ => .error .stuck
      | .goto b s => f.runFrom σ n b s
      | .ret r => return r

/-- The frame in which a function starts. -/
def entry (f : Function) (args : List Word) (m : Memory) : Frame :=
  ⟨args ++ List.replicate f.locals.toNat 0, m⟩

/-- Runs a function on arguments, of which there have to be as many as parameters. -/
def run (σ : Surroundings) (n : Nat) (f : Function) (args : List Word) (m : Memory) :
    Outcome Returned :=
  if args.length = f.params.toNat then f.runFrom σ n 0 (f.entry args m) else .error .stuck

end Function

namespace Module

/-- What the functions of a module do, as far as a bound on the depth of calls and on the
blocks entered by a call shows it. -/
def call (m : Module) (switches : List Word) : Nat → Callees
  | 0, _, _, _ => .error .unfinished
  | n + 1, index, args, memory =>
    match m.functions[index]? with
    | none => .error .stuck
    | some f => f.run ⟨switches, m.call switches n⟩ (n + 1) args memory

/-- A call of a function returns. -/
def Returns (m : Module) (switches : List Word) (index : Nat) (args : List Word)
    (memory : Memory) (r : Returned) : Prop :=
  ∃ n, m.call switches n index args memory = .ok r

/-- A call of a function traps. -/
def Traps (m : Module) (switches : List Word) (index : Nat) (args : List Word)
    (memory : Memory) : Prop :=
  ∃ n, m.call switches n index args memory = .error .trap

end Module

/-- A sum, and a function that calls it with its argument twice. -/
def doubling : Module :=
  let r : Nat → Operand := fun n => .register ⟨n.toUInt8⟩
  ⟨"doubling.json",
    [⟨"add", 2, 1, [[⟨.add, some ⟨2⟩, [r 0, r 1]⟩, ⟨.ret, none, [r 2]⟩]], .int⟩,
      ⟨"double", 1, 1, [[⟨.call, some ⟨1⟩, [.function 0, r 0, r 0]⟩, ⟨.ret, none, [r 1]⟩]], .int⟩],
    0, 1, []⟩

example : doubling.Returns [] 1 [5] [] (some 10, []) := ⟨2, rfl⟩

end MutantGate
