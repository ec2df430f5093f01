import MutantGate.Lowering
import MutantGate.Proofs.Progress
import MutantGate.Proofs.Semantics.WasmExecution
/-!
# The code for an instruction does what the instruction does

A frame is represented by the local variables of the lowered function: its registers and,
behind them, the selector.  On the representation of a frame, with an empty stack, the
code for an instruction gives the representation of what the instruction gives, provided
that nothing is wrong with the instruction and its registers are there.

The operations from words to a word share their beginning, which pushes the operands, and
their end, which takes the result; each adds what lies between.

## What is proved

For each operation, in every frame and under every bound on calls: the code gives the flow that
stands for the flow of the instruction (`Simulates`), whether that leads on, to another block or out
of the function, or traps.  The functions that are called may be any, as long as the lowered code
sees the same of them (`Surroundings.Lowers`).

## What is left outside

Instructions with which something is wrong.  The code for them, where there is any, is a matter of
`Proofs.IsolatedCode` and `Proofs.NoFaults` only.
-/

namespace MutantGate

open Wasm (Instr)

/-! ## Representations -/

/-- The state for a frame, with words on the stack and the selector behind the
registers. -/
def Frame.toState (s : Frame) (stack : List Word) (selector : Word) : Wasm.State :=
  ⟨stack, s.registers ++ [selector], s.memory⟩

/-- The flow for a flow: another block is entered by setting the selector and leaving the
conditional around the block. -/
def Flow.toWasm (selector : Word) : Flow → Wasm.Flow
  | .next s => .next (s.toState [] selector)
  | .goto b s => .branch 1 (s.toState [] (BitVec.ofNat 32 b))
  | .ret r => .ret r.1.toList r.2

/-- The surroundings of lowered code know what those of the module know. -/
structure Surroundings.Lowers (m : Module) (σ : Surroundings) (τ : Wasm.Surroundings) :
    Prop where
  globals : τ.globals = σ.switches
  callees : τ.callees = σ.callees
  params : ∀ (g : Nat) (f : Function), m.functions[g]? = some f →
    ∃ h : Wasm.Func, τ.functions[g]? = some h ∧ h.params = f.params.toNat
  results : ∀ (g : Nat) (f : Function), m.functions[g]? = some f → ∀ args memory r,
    σ.callees g args memory = .ok r → r.1.isSome = (f.returns == .int)

/-! ## Bodies one behind the other -/

section Bodies

variable {τ : Wasm.Surroundings} {n : Nat} {a b : List Instr} {i : Instr} {s t : Wasm.State}

theorem execBody_cons_next (h : i.exec τ n s = .ok (.next t)) :
    Instr.execBody τ n (i :: b) s = Instr.execBody τ n b t := by
  simp only [Instr.execBody, h]
  rfl

theorem execBody_singleton : Instr.execBody τ n [i] s = i.exec τ n s := by
  simp only [Instr.execBody]
  cases i.exec τ n s with
  | error e => rfl
  | ok flow => cases flow <;> rfl

theorem execBody_append (a b : List Instr) (s : Wasm.State) :
    Instr.execBody τ n (a ++ b) s =
      (Instr.execBody τ n a s >>= fun flow =>
        match flow with
        | .next t => Instr.execBody τ n b t
        | flow => return flow) := by
  induction a generalizing s with
  | nil =>
      simp only [List.nil_append, Instr.execBody]
      rfl
  | cons i a ih =>
      simp only [List.cons_append, Instr.execBody]
      cases i.exec τ n s with
      | error e => rfl
      | ok flow =>
          cases flow with
          | next t => exact ih t
          | branch d t => rfl
          | ret stack m => rfl

theorem execBody_append_next (h : Instr.execBody τ n a s = .ok (.next t)) :
    Instr.execBody τ n (a ++ b) s = Instr.execBody τ n b t := by
  rw [execBody_append, h]
  rfl

end Bodies

/-! ## Operands and results -/

section Operands

variable {τ : Wasm.Surroundings} {n : Nat} {s : Frame}

/-- Code that pushes words, the last of them on top. -/
def Pushes (τ : Wasm.Surroundings) (n : Nat) (s : Frame) (code : List Instr)
    (ws : List Word) : Prop :=
  ∀ stack p, Instr.execBody τ n code (s.toState stack p) =
    .ok (.next (s.toState (ws.reverse ++ stack) p))

theorem Pushes.append {a b : List Instr} {ws vs : List Word} (ha : Pushes τ n s a ws)
    (hb : Pushes τ n s b vs) : Pushes τ n s (a ++ b) (ws ++ vs) := by
  intro stack p
  rw [execBody_append_next (ha stack p), hb]
  simp

theorem pushes_const (w : Word) : Pushes τ n s [.const w] [w] :=
  fun _ _ => rfl

/-- The value of a register or an immediate is pushed. -/
theorem pushOperand_pushes {o : Operand} (hvalue : o.isValue = true)
    (hbelow : ∀ r, o = .register r → r.index.toNat < s.registers.length) :
    ∃ c w, pushOperand o = .ok c ∧ o.eval s.registers = .ok w ∧ Pushes τ n s [c] [w] := by
  cases o with
  | register r =>
      have hr := hbelow r rfl
      refine ⟨_, s.registers[r.index.toNat], rfl, ?_, fun stack p => ?_⟩
      · simp only [Operand.eval, List.getElem?_eq_getElem hr]
        rfl
      · rw [execBody_singleton]
        simp only [Instr.exec, Wasm.State.pushFrom, Frame.toState, UInt8.toNat_toUInt32]
        rw [List.getElem?_append_left hr, List.getElem?_eq_getElem hr]
        rfl
  | immediate v => exact ⟨_, v.toWord, rfl, rfl, pushes_const _⟩
  | block _ | function _ | switch _ => cases hvalue

/-- The values of operands are pushed in order. -/
theorem pushOperands_pushes {os : List Operand} (hvalue : ∀ o ∈ os, o.isValue = true)
    (hbelow : ∀ r, .register r ∈ os → r.index.toNat < s.registers.length) :
    ∃ code ws, pushOperands os = .ok code ∧ evalOperands s.registers os = .ok ws ∧
      ws.length = os.length ∧ Pushes τ n s code ws := by
  induction os with
  | nil => exact ⟨[], [], rfl, rfl, rfl, fun _ _ => rfl⟩
  | cons o os ih =>
      obtain ⟨c, w, hc, hw, hpush⟩ := pushOperand_pushes (τ := τ) (n := n)
        (hvalue o List.mem_cons_self) fun r hr => hbelow r (hr ▸ List.mem_cons_self)
      obtain ⟨code, ws, hcode, hws, hlen, hpushes⟩ := ih
        (fun o' ho' => hvalue o' (List.mem_cons_of_mem _ ho'))
        fun r hr => hbelow r (List.mem_cons_of_mem _ hr)
      refine ⟨c :: code, w :: ws, ?_, ?_, ?_, ?_⟩
      · simp only [pushOperands, hc, hcode]
      · simp only [evalOperands, hw, hws]
        rfl
      · simp only [List.length_cons, hlen]
      · exact hpush.append hpushes

theorem Pushes.binary {code : List Instr} {a b w : Word} (op : Wasm.BinaryOp)
    (h : Pushes τ n s code [a, b]) (hop : op.compute a b = .ok w) :
    Pushes τ n s (code ++ [.binary op]) [w] := by
  intro stack p
  rw [execBody_append_next (h stack p), execBody_singleton]
  show (op.compute a b >>= fun v => .ok (Wasm.Flow.next (s.toState (v :: stack) p))) = _
  rw [hop]
  rfl

/-- The upper of three words picks one of the others. -/
theorem Pushes.select {code : List Instr} {a b c : Word} (h : Pushes τ n s code [a, b, c]) :
    Pushes τ n s (code ++ [.select]) [if c = 0 then b else a] := by
  intro stack p
  rw [execBody_append_next (h stack p)]
  rfl

theorem Pushes.eqz {code : List Instr} {a : Word} (h : Pushes τ n s code [a]) :
    Pushes τ n s (code ++ [.eqz]) [wordOfBool (a == 0)] := by
  intro stack p
  rw [execBody_append_next (h stack p)]
  rfl

/-- The word on top of the stack is taken into the destination, or dropped. -/
theorem takeResult_exec {dest : Option Register}
    (hdest : ∀ r, dest = some r → r.index.toNat < s.registers.length) (w : Word) :
    ∃ t, s.put w dest = .ok t ∧ ∀ stack p,
      (takeResult dest).exec τ n (s.toState (w :: stack) p) = .ok (.next (t.toState stack p)) := by
  cases dest with
  | none => exact ⟨s, rfl, fun _ _ => rfl⟩
  | some r =>
      have hr := hdest r rfl
      refine ⟨_, if_pos hr, fun stack p => ?_⟩
      simp only [takeResult, Instr.exec, Wasm.State.localSet, Frame.toState,
        UInt8.toNat_toUInt32, List.length_append, List.length_singleton]
      rw [if_pos (Nat.lt_succ_of_lt hr), List.set_append_left _ _ hr]

end Operands

/-! ## Operations from words to a word -/

theorem ite_wordOfBool (c : Bool) (a b : Word) :
    (if wordOfBool c = 0 then b else a) = if c then a else b := by
  cases c <;> rfl

/-- Code that gives the flow for a flow. -/
def Simulates (τ : Wasm.Surroundings) (n : Nat) (s : Frame) (code : List Instr)
    (x : Outcome Flow) : Prop :=
  ∀ p, Instr.execBody τ n code (s.toState [] p) = x.map (Flow.toWasm p)

/-- Code that leaves a word on the stack. -/
def Computes (τ : Wasm.Surroundings) (n : Nat) (s : Frame) (code : List Instr)
    (x : Outcome Word) : Prop :=
  ∀ p, Instr.execBody τ n code (s.toState [] p) = x.map fun w => .next (s.toState [w] p)

section Operations

variable {τ : Wasm.Surroundings} {n : Nat} {s : Frame} {i : Instruction} {code : List Instr}

theorem Pushes.computes {w : Word} (h : Pushes τ n s code [w]) : Computes τ n s code (.ok w) :=
  fun p => h [] p

theorem Pushes.computes_binary {a b : Word} (h : Pushes τ n s code [a, b])
    (op : Wasm.BinaryOp) : Computes τ n s (code ++ [.binary op]) (op.compute a b) := by
  intro p
  rw [execBody_append_next (h [] p), execBody_singleton]
  show (op.compute a b >>= fun w => .ok (Wasm.Flow.next (s.toState [w] p))) = _
  cases op.compute a b <;> rfl

theorem Computes.take {x : Outcome Word} {dest : Option Register} (h : Computes τ n s code x)
    (hdest : ∀ r, dest = some r → r.index.toNat < s.registers.length) :
    Simulates τ n s (code ++ [takeResult dest])
      (x >>= fun w => s.put w dest >>= fun t => .ok (.next t)) := by
  intro p
  rw [execBody_append, h]
  cases x with
  | error e => rfl
  | ok w =>
      obtain ⟨t, ht, htake⟩ := takeResult_exec (τ := τ) (n := n) hdest w
      simp only [Except.map, bind, Except.bind, ht]
      rw [execBody_singleton, htake]
      rfl

/-- An instruction whose operands are the values pushed by some code. -/
structure Operands (τ : Wasm.Surroundings) (n : Nat) (s : Frame) (i : Instruction)
    (code : List Instr) (ws : List Word) : Prop where
  pushed : pushOperands i.operands = .ok code
  eval : evalOperands s.registers i.operands = .ok ws
  length : ws.length = i.operands.length
  pushes : Pushes τ n s code ws

/-- The code for an operation is that for its operands, some code that computes the
result of it, and the taking of the result. -/
theorem Operands.plain {ws : List Word} {rest : List Instr} (h : Operands τ n s i code ws)
    (hdest : ∀ r, i.dest = some r → r.index.toNat < s.registers.length)
    (hrest : Computes τ n s rest (i.opcode.compute ws)) :
    Simulates τ n s (rest ++ [takeResult i.dest]) (i.execPlain s) := by
  have hplain : i.execPlain s =
      (i.opcode.compute ws >>= fun w => s.put w i.dest >>= fun t => .ok (.next t)) := by
    unfold Instruction.execPlain
    rw [h.eval]
    rfl
  rw [hplain]
  exact hrest.take hdest

section Plain

variable {a : List Instr} {ws : List Word}
  (h : Operands τ n s i a ws) (hdest : ∀ r, i.dest = some r → r.index.toNat < s.registers.length)
include h hdest

theorem lowerDirect_simulates {op : Wasm.BinaryOp} (hlen : i.operands.length = 2)
    (hop : ∀ x y, i.opcode.compute [x, y] = op.compute x y) (hc : lowerDirect op i = .ok code) :
    Simulates τ n s code (i.execPlain s) := by
  obtain ⟨x, y, rfl⟩ := List.length_eq_two.mp (h.length.trans hlen)
  simp only [lowerDirect, h.pushed, Except.map] at hc
  cases hc
  have hcompute := h.pushes.computes_binary op
  rw [← hop x y] at hcompute
  simpa using h.plain hdest hcompute

theorem lowerExtremum_simulates {op : Wasm.BinaryOp} {c : Word → Word → Bool}
    (hlen : i.operands.length = 2) (hpick : ∀ x y, op.compute x y = .ok (wordOfBool (c x y)))
    (hop : ∀ x y, i.opcode.compute [x, y] = .ok (if wordOfBool (c x y) = 0 then y else x))
    (hc : lowerExtremum op i = .ok code) : Simulates τ n s code (i.execPlain s) := by
  obtain ⟨x, y, rfl⟩ := List.length_eq_two.mp (h.length.trans hlen)
  simp only [lowerExtremum, h.pushed, Except.map] at hc
  cases hc
  have hcompute := (h.pushes.append (h.pushes.binary op (hpick x y))).select.computes
  rw [← hop x y] at hcompute
  simpa using h.plain hdest hcompute

theorem lowerNeg_simulates (hlen : i.operands.length = 1) (hop : i.opcode = .neg)
    (hc : ((pushOperands i.operands).map fun a =>
      .const 0 :: a ++ [.binary .sub, takeResult i.dest]) = .ok code) :
    Simulates τ n s code (i.execPlain s) := by
  simp only [h.pushed, Except.map] at hc
  cases hc
  obtain ⟨x, rfl⟩ := List.length_eq_one_iff.mp (h.length.trans hlen)
  have hcompute := ((pushes_const 0).append h.pushes).computes_binary .sub
  have hvalue : i.opcode.compute [x] = Wasm.BinaryOp.sub.compute 0 x := by
    simp [hop, Opcode.compute, Wasm.BinaryOp.compute]
  rw [← hvalue] at hcompute
  simpa using h.plain hdest hcompute

theorem lowerAbs_simulates (hlen : i.operands.length = 1) (hop : i.opcode = .abs)
    (hc : ((pushOperands i.operands).map fun a => a ++ .const 0 :: a ++ .binary .sub :: a
      ++ [.const 0, .binary .geS, .select, takeResult i.dest]) = .ok code) :
    Simulates τ n s code (i.execPlain s) := by
  simp only [h.pushed, Except.map] at hc
  cases hc
  obtain ⟨x, rfl⟩ := List.length_eq_one_iff.mp (h.length.trans hlen)
  have hnegated := ((pushes_const 0).append h.pushes).binary .sub rfl
  have htest := (h.pushes.append (pushes_const 0)).binary .geS rfl
  have hcompute := ((h.pushes.append hnegated).append htest).select.computes
  have hvalue : i.opcode.compute [x] =
      .ok (if wordOfBool ((0 : Word).sle x) = 0 then 0 - x else x) := by
    have hneg : (0 : Word) - x = -x := by simp
    rw [hop, BitVec.sle_eq_not_slt, ite_wordOfBool, hneg]
    show Except.ok (if x.slt 0 then -x else x) = _
    cases x.slt 0 <;> rfl
  rw [← hvalue] at hcompute
  simpa using h.plain hdest hcompute

theorem lowerNot_simulates (hlen : i.operands.length = 1) (hop : i.opcode = .not)
    (hc : ((pushOperands i.operands).map fun a => a ++ [.eqz, takeResult i.dest]) = .ok code) :
    Simulates τ n s code (i.execPlain s) := by
  simp only [h.pushed, Except.map] at hc
  cases hc
  obtain ⟨x, rfl⟩ := List.length_eq_one_iff.mp (h.length.trans hlen)
  have hcompute := h.pushes.eqz.computes
  have hvalue : i.opcode.compute [x] = .ok (wordOfBool (x == 0)) := by rw [hop]; rfl
  rw [← hvalue] at hcompute
  simpa using h.plain hdest hcompute

theorem lowerCopy_simulates (hlen : i.operands.length = 1)
    (hop : i.opcode = .const ∨ i.opcode = .copy)
    (hc : ((pushOperands i.operands).map fun a => a ++ [takeResult i.dest]) = .ok code) :
    Simulates τ n s code (i.execPlain s) := by
  simp only [h.pushed, Except.map] at hc
  cases hc
  obtain ⟨x, rfl⟩ := List.length_eq_one_iff.mp (h.length.trans hlen)
  have hcompute := h.pushes.computes
  have hvalue : i.opcode.compute [x] = .ok x := by
    rcases hop with hop | hop <;> rw [hop] <;> rfl
  rw [← hvalue] at hcompute
  exact h.plain hdest hcompute

end Plain

end Operations

/-! ## Memory -/

/-- Shifting by two places multiplies by four. -/
theorem shiftLeft_two_toNat (w : Word) : (w <<< 2).toNat = Frame.byteAddress w := by
  have h : w <<< 2 = 4 * w := by
    rw [BitVec.shiftLeft_eq_mul_twoPow, BitVec.mul_comm]
    rfl
  rw [h]
  rfl

section Memory

variable {τ : Wasm.Surroundings} {n : Nat} {s : Frame} {i : Instruction} {code : List Instr}

/-- The address of a word is pushed as a byte address. -/
theorem Pushes.address {c : Instr} {a : Word} (h : Pushes τ n s [c] [a]) :
    Pushes τ n s [c, .const 2, .binary .shl] [a <<< 2] :=
  (h.append (pushes_const 2)).binary .shl rfl

variable (hbelow : i.RegistersBelow s.registers.length)
  (hvalue : ∀ o ∈ i.operands, o.isValue = true)
include hbelow hvalue

theorem lowerLoad_simulates (hlen : i.operands.length = 1)
    (hc : ((pushAddress i.operands.head?).map fun a => a ++ [.load, takeResult i.dest])
      = .ok code) :
    Simulates τ n s code (i.execLoad s) := by
  obtain ⟨o, ho⟩ := List.length_eq_one_iff.mp hlen
  obtain ⟨c, a, hpush, heval, hpushes⟩ := pushOperand_pushes (τ := τ) (n := n)
    (hvalue o (ho ▸ List.mem_singleton_self o)) fun r hr => hbelow.operand r (by simp [ho, hr])
  simp only [ho, List.head?_cons, pushAddress, hpush, Except.map] at hc
  cases hc
  have hload : Computes τ n s ([c, .const 2, .binary .shl] ++ [.load])
      (.ofOption .trap (s.memory.word? (Frame.byteAddress a))) := by
    intro p
    rw [execBody_append_next (hpushes.address [] p), execBody_singleton]
    show (Outcome.ofOption .trap (s.memory.word? (a <<< 2).toNat) >>= fun w =>
      .ok (Wasm.Flow.next (s.toState [w] p))) = _
    rw [shiftLeft_two_toNat]
    cases s.memory.word? (Frame.byteAddress a) <;> rfl
  have hexec : i.execLoad s =
      (Outcome.ofOption .trap (s.memory.word? (Frame.byteAddress a)) >>= fun w =>
        s.put w i.dest >>= fun t => .ok (.next t)) := by
    simp only [Instruction.execLoad, ho, evalOperands, heval]
    rfl
  rw [hexec]
  simpa using hload.take hbelow.dest

theorem lowerStore_simulates (hlen : i.operands.length = 2)
    (hc : (match pushAddress i.operands.head?, pushOperands i.operands.tail with
      | .error e, _ => .error e
      | _, .error e => .error e
      | .ok a, .ok v => .ok (a ++ v ++ [.store])) = Except.ok code) :
    Simulates τ n s code (i.execStore s) := by
  obtain ⟨o, v, ho⟩ := List.length_eq_two.mp hlen
  obtain ⟨c, a, hpush, heval, hpushes⟩ := pushOperand_pushes (τ := τ) (n := n)
    (hvalue o (by simp [ho])) fun r hr => hbelow.operand r (by simp [ho, hr])
  obtain ⟨d, w, hpush', heval', hpushes'⟩ := pushOperand_pushes (τ := τ) (n := n)
    (hvalue v (by simp [ho])) fun r hr => hbelow.operand r (by simp [ho, hr])
  simp only [ho, List.head?_cons, List.tail_cons, pushAddress, pushOperands, hpush, hpush',
    Except.map] at hc
  cases hc
  intro p
  rw [execBody_append_next ((hpushes.address.append hpushes') [] p), execBody_singleton]
  simp only [Instruction.execStore, ho, evalOperands, heval, heval']
  show (Outcome.ofOption .trap (s.memory.setWord? (a <<< 2).toNat w) >>= fun m =>
    .ok (Wasm.Flow.next ⟨[], s.registers ++ [p], m⟩)) = _
  rw [shiftLeft_two_toNat]
  cases hm : s.memory.setWord? (Frame.byteAddress a) w <;>
    simp only [bind, Except.bind, pure, Except.pure, hm] <;> rfl

end Memory

/-! ## Calls, switches and control -/

section Control

variable {τ : Wasm.Surroundings} {σ : Surroundings} {n : Nat} {s : Frame} {i : Instruction}
  {code : List Instr} {m : Module} {f : Function} {block : Nat} {selector : UInt32}

/-- A call takes its arguments off the stack and leaves what the function gives back. -/
theorem call_exec (hσ : σ.Lowers m τ) {g : UInt32} {callee : Function} {ws : List Word}
    (hf : m.functions[g.toNat]? = some callee) (hlen : ws.length = callee.params.toNat)
    (p : Word) :
    (Instr.call g).exec τ n (s.toState ws.reverse p) =
      (σ.callees g.toNat ws s.memory >>= fun r =>
        .ok (.next ⟨r.1.toList, s.registers ++ [p], r.2⟩)) := by
  obtain ⟨h, hh, hparams⟩ := hσ.params _ _ hf
  have hcount : h.params = ws.reverse.length := by
    rw [hparams, List.length_reverse, hlen]
  simp only [Instr.exec, Wasm.State.call, hh, Frame.toState, Outcome.ofOption, bind,
    Except.bind, hcount, Nat.le_refl, if_true, List.take_length, List.drop_length,
    List.reverse_reverse, hσ.callees]
  cases σ.callees g.toNat ws s.memory with
  | error e => rfl
  | ok r => obtain ⟨_ | w, memory⟩ := r <;> rfl

theorem lowerCall_simulates (hσ : σ.Lowers m τ) (hbelow : i.RegistersBelow s.registers.length)
    (hi : callViolations m i = []) (hc : lowerCall m i = .ok code) :
    Simulates τ n s code (i.execCall σ.callees s) := by
  obtain ⟨g, args, callee, hops, hf, hlen, hvalue, hvoid⟩ :=
    (callViolations_eq_nil_iff m i).mp hi
  obtain ⟨a, ws, hpush, heval, hws, hpushes⟩ := pushOperands_pushes (τ := τ) (n := n) hvalue
    fun r hr => hbelow.operand r (hops ▸ List.mem_cons_of_mem _ hr)
  have hexec : i.execCall σ.callees s =
      (σ.callees g.toNat ws s.memory >>= fun r =>
        s.receive r i.dest >>= fun t => .ok (.next t)) := by
    simp only [Instruction.execCall, hops, heval]
    rfl
  simp only [lowerCall, hops, hf, hpush, Except.map] at hc
  cases hc
  intro p
  rw [execBody_append_next (by simpa using hpushes [] p), hexec]
  simp only [Instr.execBody, call_exec hσ hf (hws.trans hlen)]
  cases hr : σ.callees g.toNat ws s.memory with
  | error e => rfl
  | ok r =>
      rcases returned_cases (hσ.results _ _ hf _ _ _ hr) with
        ⟨hreturns, memory, rfl⟩ | ⟨hreturns, w, memory, rfl⟩
      · simp only [hvoid hreturns, hreturns]
        rfl
      · obtain ⟨t, ht, htake⟩ := takeResult_exec (τ := τ) (n := n)
          (s := { s with memory := memory }) hbelow.dest w
        have hreceive : s.receive (some w, memory) i.dest = .ok t := ht
        simp only [bind, Except.bind, hreceive, hreturns, if_true]
        exact (execBody_singleton.trans (htake [] p))

theorem lowerReadSwitch_simulates (hσ : σ.Lowers m τ)
    (hbelow : i.RegistersBelow s.registers.length) {k : UInt32} (hops : i.operands = [.switch k]) :
    Simulates τ n s [.globalGet k, takeResult i.dest] (i.execReadSwitch σ.switches s) := by
  have hread : Computes τ n s [.globalGet k] (.ofOption .stuck σ.switches[k.toNat]?) := by
    intro p
    rw [execBody_singleton]
    simp only [Instr.exec, Wasm.State.pushFrom, hσ.globals]
    cases σ.switches[k.toNat]? <;> rfl
  have hexec : i.execReadSwitch σ.switches s =
      (Outcome.ofOption .stuck σ.switches[k.toNat]? >>= fun w =>
        s.put w i.dest >>= fun t => .ok (.next t)) := by
    simp only [Instruction.execReadSwitch, hops]
    rfl
  rw [hexec]
  exact hread.take hbelow.dest

/-- Setting the selector and leaving the conditional around a block. -/
theorem restart_exec (hsel : selector.toNat = s.registers.length) (stack : List Word)
    (w p : Word) : Instr.execBody τ n (restart selector) (s.toState (w :: stack) p) =
      .ok (.branch 1 (s.toState stack w)) := by
  have hset : (Instr.localSet selector).exec τ n (s.toState (w :: stack) p) =
      .ok (.next (s.toState stack w)) := by
    simp only [Instr.exec, Wasm.State.localSet, Frame.toState, hsel, List.length_append,
      List.length_singleton]
    rw [if_pos (Nat.lt_succ_self _), List.set_append_right _ _ (Nat.le_refl _)]
    simp
  rw [restart, execBody_cons_next hset]
  rfl

theorem lowerBranch_simulates (hsel : selector.toNat = s.registers.length) {t : UInt32}
    (hops : i.operands = [.block t]) :
    Simulates τ n s (.const t.toBitVec :: restart selector) (i.execBranch s) := by
  intro p
  rw [execBody_cons_next (t := s.toState [t.toBitVec] p) rfl, restart_exec hsel]
  simp [Instruction.execBranch, hops, Except.map, Flow.toWasm]

theorem lowerBranchIf_simulates (hsel : selector.toNat = s.registers.length)
    (hbelow : i.RegistersBelow s.registers.length) {c : Operand} {t : UInt32}
    (hops : i.operands = [c, .block t]) (hvalue : c.isValue = true) {a : List Instr}
    (ha : pushOperands [c] = .ok a) :
    Simulates τ n s (.const t.toBitVec :: .const (BitVec.ofNat 32 (block + 1)) :: a
      ++ .select :: restart selector) (i.execBranchIf block s) := by
  obtain ⟨d, w, hpush, heval, hpushes⟩ := pushOperand_pushes (τ := τ) (n := n) hvalue
    fun r hr => hbelow.operand r (by simp [hops, hr])
  simp only [pushOperands, hpush] at ha
  cases ha
  have hpick := (((pushes_const t.toBitVec).append
    (pushes_const (BitVec.ofNat 32 (block + 1)))).append hpushes).select
  intro p
  have happend := (execBody_append_next (hpick [] p)).trans (restart_exec hsel [] _ p)
  have hcode : Instr.const t.toBitVec :: .const (BitVec.ofNat 32 (block + 1)) :: [d]
      ++ .select :: restart selector =
      [.const t.toBitVec] ++ [.const (BitVec.ofNat 32 (block + 1))] ++ [d] ++ [.select]
        ++ restart selector := by simp
  rw [hcode, happend]
  simp only [Instruction.execBranchIf, hops, heval]
  show _ = Except.ok (Wasm.Flow.branch 1
    (s.toState [] (BitVec.ofNat 32 (if w = 0 then block + 1 else t.toNat))))
  have ht : BitVec.ofNat 32 t.toNat = t.toBitVec := by simp
  rw [apply_ite (BitVec.ofNat 32), ht]

theorem lowerRet_simulates (hbelow : i.RegistersBelow s.registers.length)
    (hi : returnViolations f i = [])
    (hc : ((pushOperands i.operands).map fun a => a ++ [.ret]) = .ok code) :
    Simulates τ n s code (i.execRet f.returns s) := by
  obtain ⟨hlen, hvalue⟩ := (returnViolations_eq_nil_iff f i).mp hi
  obtain ⟨a, ws, hpush, heval, hws, hpushes⟩ := pushOperands_pushes (τ := τ) (n := n) hvalue
    hbelow.operand
  simp only [hpush, Except.map] at hc
  cases hc
  intro p
  rw [execBody_append_next (hpushes [] p), execBody_singleton]
  simp only [Instruction.execRet, heval]
  rw [← hws] at hlen
  cases hreturns : f.returns with
  | void =>
      obtain rfl := List.length_eq_zero_iff.mp (hlen.trans (by rw [hreturns]; rfl))
      rfl
  | int =>
      obtain ⟨w, rfl⟩ := List.length_eq_one_iff.mp (hlen.trans (by rw [hreturns]; rfl))
      rfl

end Control

/-! ## Any instruction -/

/-- Operands that are values in the registers of a frame are pushed. -/
theorem plain_operands {τ : Wasm.Surroundings} {n : Nat} {s : Frame} {i : Instruction}
    (hbelow : i.RegistersBelow s.registers.length)
    (hvalue : ∀ o ∈ i.operands, o.isValue = true) : ∃ a ws, Operands τ n s i a ws := by
  obtain ⟨a, ws, hpush, heval, hlen, hpushes⟩ := pushOperands_pushes (τ := τ) (n := n) hvalue
    hbelow.operand
  exact ⟨a, ws, hpush, heval, hlen, hpushes⟩

theorem lowerInstruction_simulates {m : Module} {f : Function} {σ : Surroundings}
    {τ : Wasm.Surroundings} {n block : Nat} {i : Instruction} {s : Frame} {code : List Instr}
    (hσ : σ.Lowers m τ) (hi : instructionViolations m f block i = [])
    (hregs : s.registers.length = f.registers.toNat)
    (hsel : f.selector.toNat = s.registers.length)
    (hc : lowerInstruction m f.selector block i = .ok code) :
    Simulates τ n s code (i.exec σ f.returns block s) := by
  obtain ⟨hbelow, hoperands, -⟩ := (instructionViolations_eq_nil_iff m f block i).mp hi
  rw [← hregs] at hbelow
  unfold Instruction.exec
  unfold lowerInstruction at hc
  unfold operandViolations at hoperands
  cases hop : i.opcode <;> simp only [hop] at hc hoperands ⊢
  case call => exact lowerCall_simulates hσ hbelow hoperands hc
  case ret => exact lowerRet_simulates hbelow hoperands hc
  case branch =>
    obtain ⟨t, hops, -⟩ := (branchViolations_eq_nil_iff f i).mp hoperands
    simp only [hops, List.head?_cons, branchTarget, Except.map] at hc
    cases hc
    exact lowerBranch_simulates hsel hops
  case branchIf =>
    obtain ⟨c, t, hops, hvalue, -⟩ := (branchIfViolations_eq_nil_iff f block i).mp hoperands
    simp only [hops, List.getElem?_cons_succ, List.getElem?_cons_zero, branchTarget,
      List.take_succ_cons, List.take_zero] at hc
    cases ha : pushOperands [c] with
    | error e => rw [ha] at hc; cases hc
    | ok a =>
        rw [ha] at hc
        cases hc
        exact lowerBranchIf_simulates hsel hbelow hops hvalue ha
  case readSwitch =>
    obtain ⟨k, hops, -⟩ := (switchViolations_eq_nil_iff m i).mp hoperands
    simp only [hops] at hc
    cases hc
    exact lowerReadSwitch_simulates hσ hbelow hops
  case nop =>
    cases hc
    exact fun _ => rfl
  all_goals
    obtain ⟨hlen, hvalue⟩ := (plainViolations_eq_nil_iff i).mp hoperands
    rw [hop] at hlen
    obtain ⟨a, ws, h⟩ := plain_operands (τ := τ) (n := n) hbelow hvalue
  case load => exact lowerLoad_simulates hbelow hvalue hlen hc
  case store => exact lowerStore_simulates hbelow hvalue hlen hc
  case min | max =>
    exact lowerExtremum_simulates h hbelow.dest hlen (fun _ _ => rfl)
      (fun _ _ => by rw [hop, ite_wordOfBool]; rfl) hc
  case neg => exact lowerNeg_simulates h hbelow.dest hlen hop hc
  case abs => exact lowerAbs_simulates h hbelow.dest hlen hop hc
  case not => exact lowerNot_simulates h hbelow.dest hlen hop hc
  case const => exact lowerCopy_simulates h hbelow.dest hlen (Or.inl hop) hc
  case copy => exact lowerCopy_simulates h hbelow.dest hlen (Or.inr hop) hc
  all_goals exact lowerDirect_simulates h hbelow.dest hlen (fun _ _ => by rw [hop]; rfl) hc

end MutantGate
