import MutantGate.Proofs.Runs
import MutantGate.Proofs.WellFormed
/-!
# Calls of well-formed modules are never stuck

An instruction with which nothing is wrong has a meaning in every frame with the registers
of its function: it leads on, or traps.  What it needs of the other functions is that they
are not stuck on as many arguments as they have parameters, and give a value back if their
return type says so.  From the instruction this is carried to the block, the function and
the call; by induction on the bound the functions that are called are not stuck either.

## What is proved

For every well-formed module, a call of a function that is there, with as many arguments as it has
parameters and in any memory, is not stuck under any bound (`Module.WellFormed.call_ne_stuck`).
Registers, callees and targets are always found, and values are there where they are taken.

## What is left outside

Traps, which a well-formed module may have: a division by zero, an access beyond the memory.
-/

namespace MutantGate

/-! ## Operands and destinations -/

section Operands

variable {α β : Type} {registers : List Word} {s : Frame} {dest : Option Register}

theorem Outcome.ok_ne_stuck (a : α) : (.ok a : Outcome α) ≠ .error .stuck := by
  intro h
  cases h

theorem Outcome.trap_ne_stuck : (.error .trap : Outcome α) ≠ .error .stuck := by
  intro h
  cases h

theorem Outcome.unfinished_ne_stuck : (.error .unfinished : Outcome α) ≠ .error .stuck := by
  intro h
  cases h

theorem Operand.eval_eq_ok {o : Operand} (hvalue : o.isValue = true)
    (hbelow : ∀ r, o = .register r → r.index.toNat < registers.length) :
    ∃ w, o.eval registers = .ok w := by
  cases o with
  | register r =>
      have hr := hbelow r rfl
      refine ⟨registers[r.index.toNat], ?_⟩
      rw [Operand.eval, List.getElem?_eq_getElem hr]
      rfl
  | immediate v => exact ⟨v.toWord, rfl⟩
  | block _ | function _ | switch _ => cases hvalue

/-- Operands that are values have words to stand for, one each. -/
theorem evalOperands_eq_ok {os : List Operand} (hvalue : ∀ o ∈ os, o.isValue = true)
    (hbelow : ∀ r, .register r ∈ os → r.index.toNat < registers.length) :
    ∃ ws, evalOperands registers os = .ok ws ∧ ws.length = os.length := by
  induction os with
  | nil => exact ⟨[], rfl, rfl⟩
  | cons o os ih =>
      obtain ⟨w, hw⟩ := Operand.eval_eq_ok (hvalue o List.mem_cons_self)
        fun r hr => hbelow r (hr ▸ List.mem_cons_self)
      obtain ⟨ws, hws, hlen⟩ := ih (fun o' ho' => hvalue o' (List.mem_cons_of_mem _ ho'))
        fun r hr => hbelow r (List.mem_cons_of_mem _ hr)
      refine ⟨w :: ws, ?_, congrArg Nat.succ hlen⟩
      simp only [evalOperands, hw, hws]
      rfl

theorem Frame.put_eq_ok (w : Word)
    (hdest : ∀ r, dest = some r → r.index.toNat < s.registers.length) :
    ∃ t, s.put w dest = .ok t := by
  cases dest with
  | none => exact ⟨s, rfl⟩
  | some r => exact ⟨_, if_pos (hdest r rfl)⟩

/-- Is the operation one from words to a word? -/
def Opcode.isPlain : Opcode → Bool
  | .load | .store | .branch | .branchIf | .call | .ret | .readSwitch | .nop => false
  | _ => true

theorem Opcode.isTerminator_of_isPlain {o : Opcode} (h : o.isPlain = true) :
    o.isTerminator = false := by
  cases o <;> first | rfl | cases h

theorem Opcode.producesValue_of_isPlain {o : Opcode} (h : o.isPlain = true) :
    o.producesValue = true := by
  cases o <;> first | rfl | cases h

theorem quotient_ne_stuck (a b : Word) : quotient a b ≠ .error .stuck := by
  unfold quotient
  split
  · exact Outcome.trap_ne_stuck
  · exact Outcome.ok_ne_stuck _

theorem remainder_ne_stuck (a b : Word) : remainder a b ≠ .error .stuck := by
  unfold remainder
  split
  · exact Outcome.trap_ne_stuck
  · exact Outcome.ok_ne_stuck _

/-- On as many words as it takes, an operation from words to a word has a result or traps. -/
theorem Opcode.compute_ne_stuck {o : Opcode} {ws : List Word} (ho : o.isPlain = true)
    (hlen : ws.length = o.operandCount) : o.compute ws ≠ .error .stuck := by
  cases o
  case load | store | branch | branchIf | call | ret | readSwitch | nop => cases ho
  case neg | abs | not | const | copy =>
    obtain ⟨a, rfl⟩ := List.length_eq_one_iff.mp hlen
    exact Outcome.ok_ne_stuck _
  all_goals obtain ⟨a, b, rfl⟩ := List.length_eq_two.mp hlen
  case div => exact quotient_ne_stuck a b
  case mod => exact remainder_ne_stuck a b
  all_goals exact Outcome.ok_ne_stuck _

end Operands

/-! ## Instructions -/

/-- What a module needs of its surroundings in order not to be stuck in a call. -/
structure Surroundings.Serves (m : Module) (σ : Surroundings) : Prop where
  switches : σ.switches.length = m.switches.length
  callees : ∀ g callee, m.functions[g]? = some callee → ∀ args memory,
    args.length = callee.params.toNat → σ.callees g args memory ≠ .error .stuck
  results : ∀ g callee, m.functions[g]? = some callee → ∀ args memory r,
    σ.callees g args memory = .ok r → r.1.isSome = (callee.returns == .int)

namespace Instruction

variable {m : Module} {f : Function} {σ : Surroundings} {block : Nat} {i : Instruction} {s : Frame}

theorem operands_eq_ok (hi : plainViolations i = [])
    (hbelow : i.RegistersBelow s.registers.length) :
    ∃ ws, evalOperands s.registers i.operands = .ok ws ∧ ws.length = i.opcode.operandCount := by
  obtain ⟨hlen, hvalue⟩ := (plainViolations_eq_nil_iff i).mp hi
  obtain ⟨ws, hws, hcount⟩ := evalOperands_eq_ok hvalue hbelow.operand
  exact ⟨ws, hws, hcount.trans hlen⟩

/-- A word for the destination can be put there, and the run goes on. -/
theorem put_next_ne_stuck (w : Word) (hbelow : i.RegistersBelow s.registers.length) :
    (s.put w i.dest >>= fun t => (.ok (.next t) : Outcome Flow)) ≠ .error .stuck := by
  obtain ⟨t, ht⟩ := Frame.put_eq_ok w hbelow.dest
  rw [ht]
  exact Outcome.ok_ne_stuck _

theorem execPlain_ne_stuck (hop : i.opcode.isPlain = true) (hi : plainViolations i = [])
    (hbelow : i.RegistersBelow s.registers.length) : i.execPlain s ≠ .error .stuck := by
  obtain ⟨ws, hws, hlen⟩ := operands_eq_ok hi hbelow
  rw [execPlain, hws]
  exact Outcome.bind_ne_error (x := i.opcode.compute ws) (Opcode.compute_ne_stuck hop hlen)
    fun w _ => put_next_ne_stuck w hbelow

theorem execLoad_ne_stuck (hop : i.opcode = .load) (hi : plainViolations i = [])
    (hbelow : i.RegistersBelow s.registers.length) : i.execLoad s ≠ .error .stuck := by
  obtain ⟨ws, hws, hlen⟩ := operands_eq_ok hi hbelow
  obtain ⟨a, rfl⟩ := List.length_eq_one_iff.mp (hlen.trans (hop ▸ rfl))
  rw [execLoad, hws]
  exact Outcome.bind_ne_error (x := .ofOption .trap (s.memory.word? _))
    (Outcome.ofOption_ne_error (by decide) _) fun w _ => put_next_ne_stuck w hbelow

theorem execStore_ne_stuck (hop : i.opcode = .store) (hi : plainViolations i = [])
    (hbelow : i.RegistersBelow s.registers.length) : i.execStore s ≠ .error .stuck := by
  obtain ⟨ws, hws, hlen⟩ := operands_eq_ok hi hbelow
  obtain ⟨a, w, rfl⟩ := List.length_eq_two.mp (hlen.trans (hop ▸ rfl))
  rw [execStore, hws]
  exact Outcome.bind_ne_error (x := .ofOption .trap (s.memory.setWord? _ w))
    (Outcome.ofOption_ne_error (by decide) _) fun m _ => Outcome.ok_ne_stuck _

theorem execBranchIf_ne_stuck (hi : branchIfViolations f block i = [])
    (hbelow : i.RegistersBelow s.registers.length) : i.execBranchIf block s ≠ .error .stuck := by
  obtain ⟨c, t, hops, hvalue, -⟩ := (branchIfViolations_eq_nil_iff f block i).mp hi
  obtain ⟨w, hw⟩ := Operand.eval_eq_ok hvalue fun r hr =>
    hbelow.operand r (hops ▸ hr ▸ List.mem_cons_self)
  simp only [execBranchIf, hops, hw]
  exact Outcome.ok_ne_stuck _

/-- A call with as many arguments as the function has parameters, and a destination only
where there is a value. -/
theorem execCall_ne_stuck (hσ : σ.Serves m) (hi : callViolations m i = [])
    (hbelow : i.RegistersBelow s.registers.length) : i.execCall σ.callees s ≠ .error .stuck := by
  obtain ⟨g, args, callee, hops, hcallee, hlen, hvalue, hvoid⟩ :=
    (callViolations_eq_nil_iff m i).mp hi
  obtain ⟨ws, hws, hcount⟩ := evalOperands_eq_ok hvalue fun r hr =>
    hbelow.operand r (hops ▸ List.mem_cons_of_mem _ hr)
  simp only [execCall, hops, hws]
  refine Outcome.bind_ne_error (x := σ.callees g.toNat ws s.memory)
    (hσ.callees _ _ hcallee _ _ (hcount.trans hlen)) fun r hr => ?_
  rcases returned_cases (hσ.results _ _ hcallee _ _ _ hr) with
    ⟨hreturns, memory, rfl⟩ | ⟨-, w, memory, rfl⟩
  · rw [hvoid hreturns]
    exact Outcome.ok_ne_stuck _
  · exact put_next_ne_stuck (s := { s with memory := memory }) w hbelow

theorem execRet_ne_stuck (hi : returnViolations f i = [])
    (hbelow : i.RegistersBelow s.registers.length) : i.execRet f.returns s ≠ .error .stuck := by
  obtain ⟨hlen, hvalue⟩ := (returnViolations_eq_nil_iff f i).mp hi
  obtain ⟨ws, hws, hcount⟩ := evalOperands_eq_ok hvalue hbelow.operand
  rw [execRet, hws]
  cases hreturns : f.returns with
  | void =>
      rw [hreturns] at hlen
      obtain rfl := List.length_eq_zero_iff.mp (hcount.trans hlen)
      exact Outcome.ok_ne_stuck _
  | int =>
      rw [hreturns] at hlen
      obtain ⟨w, rfl⟩ := List.length_eq_one_iff.mp (hcount.trans hlen)
      exact Outcome.ok_ne_stuck _

theorem execReadSwitch_ne_stuck (hσ : σ.Serves m) (hi : switchViolations m i = [])
    (hbelow : i.RegistersBelow s.registers.length) :
    i.execReadSwitch σ.switches s ≠ .error .stuck := by
  obtain ⟨k, hops, hk⟩ := (switchViolations_eq_nil_iff m i).mp hi
  simp only [execReadSwitch, hops, List.getElem?_eq_getElem (hσ.switches ▸ hk)]
  exact put_next_ne_stuck _ hbelow

/-- An instruction with which nothing is wrong leads on, or traps. -/
theorem exec_ne_stuck (hσ : σ.Serves m) (hi : instructionViolations m f block i = [])
    (hregs : s.registers.length = f.registers.toNat) :
    i.exec σ f.returns block s ≠ .error .stuck := by
  obtain ⟨hbelow, hoperands, -⟩ := (instructionViolations_eq_nil_iff m f block i).mp hi
  rw [← hregs] at hbelow
  unfold exec
  unfold operandViolations at hoperands
  cases hop : i.opcode <;> simp only [hop] at hoperands ⊢
  case load => exact execLoad_ne_stuck hop hoperands hbelow
  case store => exact execStore_ne_stuck hop hoperands hbelow
  case branch =>
    obtain ⟨t, hops, -⟩ := (branchViolations_eq_nil_iff f i).mp hoperands
    simp only [execBranch, hops]
    exact Outcome.ok_ne_stuck _
  case branchIf => exact execBranchIf_ne_stuck hoperands hbelow
  case call => exact execCall_ne_stuck hσ hoperands hbelow
  case ret => exact execRet_ne_stuck hoperands hbelow
  case readSwitch => exact execReadSwitch_ne_stuck hσ hoperands hbelow
  case nop => exact Outcome.ok_ne_stuck _
  all_goals exact execPlain_ne_stuck (hop ▸ rfl) hoperands hbelow

/-- A branch with which nothing is wrong leads to a block that is there. -/
theorem exec_goto_lt {returns : ReturnType} {t : Frame} {b : Nat}
    (hi : instructionViolations m f block i = [])
    (h : i.exec σ returns block s = .ok (.goto b t)) : b < f.blocks.length := by
  have hoperands := ((instructionViolations_eq_nil_iff m f block i).mp hi).2.1
  have hterm : i.opcode.isTerminator = true := by
    by_contra hterm
    obtain ⟨u, hu, -⟩ := exec_continues (by simpa using hterm) h
    cases hu
  unfold exec at h
  unfold operandViolations at hoperands
  cases hop : i.opcode <;> rw [hop] at hterm <;> cases hterm <;> simp only [hop] at h hoperands
  case branch =>
    obtain ⟨target, hops, hlt⟩ := (branchViolations_eq_nil_iff f i).mp hoperands
    simp only [execBranch, hops] at h
    cases h
    exact hlt
  case branchIf =>
    obtain ⟨c, target, hops, -, hlt, hnext⟩ :=
      (branchIfViolations_eq_nil_iff f block i).mp hoperands
    simp only [execBranchIf, hops] at h
    obtain ⟨w, -, h⟩ := Outcome.bind_eq_ok h
    cases h
    split
    · exact hnext
    · exact hlt
  case ret =>
    obtain ⟨r, hr, -⟩ := execRet_result h
    cases hr

end Instruction

/-! ## Blocks, functions and calls -/

section Blocks

variable {m : Module} {f : Function} {σ : Surroundings} {block : Nat}

theorem execBlock_ne_stuck (hσ : σ.Serves m) {is : List Instruction} {s : Frame}
    (hi : ∀ i ∈ is, instructionViolations m f block i = [])
    (hregs : s.registers.length = f.registers.toNat) :
    execBlock σ f.returns block is s ≠ .error .stuck := by
  induction is generalizing s with
  | nil => exact Outcome.ok_ne_stuck _
  | cons i is ih =>
      refine Outcome.bind_ne_error
        (Instruction.exec_ne_stuck hσ (hi i List.mem_cons_self) hregs) fun flow hflow => ?_
      have hkeeps := Instruction.exec_keeps hflow
      cases flow with
      | next t => exact ih (fun j hj => hi j (List.mem_cons_of_mem _ hj)) (hkeeps.trans hregs)
      | goto b t => exact Outcome.ok_ne_stuck _
      | ret r => exact Outcome.ok_ne_stuck _

theorem execBlock_goto_lt {returns : ReturnType} {b : Nat} {is : List Instruction} {s t : Frame}
    (hi : ∀ i ∈ is, instructionViolations m f block i = [])
    (h : execBlock σ returns block is s = .ok (.goto b t)) : b < f.blocks.length := by
  induction is generalizing s with
  | nil => cases h
  | cons i is ih =>
      obtain ⟨flow, hflow, h⟩ := Outcome.bind_eq_ok h
      cases flow with
      | next u => exact ih (fun j hj => hi j (List.mem_cons_of_mem _ hj)) h
      | goto c u =>
          cases h
          exact Instruction.exec_goto_lt (hi i List.mem_cons_self) hflow
      | ret r => cases h

theorem Block.WellFormedIn.last {b : Block} (h : b.WellFormedIn m f block) (i : Instruction)
    (hi : b.getLast? = some i) : i.opcode.isTerminator = true := by
  rw [List.getLast?_eq_getElem?] at hi
  rw [h.closed _ i hi]
  have hpos : 0 < b.length := List.length_pos_iff.mpr h.nonempty
  simp only [beq_iff_eq]
  omega

/-- Control stays in the blocks of the function, and no block runs on behind its end. -/
theorem Function.runFrom_ne_stuck (hσ : σ.Serves m) (hf : f.WellFormedIn m) {n b : Nat}
    {s : Frame} (hb : b < f.blocks.length) (hregs : s.registers.length = f.registers.toNat) :
    f.runFrom σ n b s ≠ .error .stuck := by
  induction n generalizing b s with
  | zero => exact Outcome.unfinished_ne_stuck
  | succ n ih =>
      have hblock := hf.blocks b _ (List.getElem?_eq_getElem hb)
      unfold Function.runFrom
      rw [List.getElem?_eq_getElem hb]
      refine Outcome.bind_ne_error (execBlock_ne_stuck hσ hblock.sound hregs) fun flow hflow => ?_
      have hkeeps := execBlock_keeps hflow
      cases flow with
      -- A block ends with a terminator, so control does not fall off its end.
      | next t => exact absurd hflow (execBlock_ne_next hblock.nonempty hblock.last)
      | goto c t => exact ih (execBlock_goto_lt hblock.sound hflow) (hkeeps.trans hregs)
      | ret r => exact Outcome.ok_ne_stuck r

/-- A call of a function of a well-formed module, on as many arguments as the function has
parameters, returns or traps or goes on; it is never stuck. -/
theorem Module.WellFormed.call_ne_stuck {switches : List Word} (hm : m.WellFormed)
    (hcount : ∀ f ∈ m.functions, f.params.toNat + f.locals.toNat < 2 ^ 64)
    (hswitches : switches.length = m.switches.length) {n g : Nat} {f : Function}
    {args : List Word} {memory : Memory} (hf : m.functions[g]? = some f)
    (hargs : args.length = f.params.toNat) : m.call switches n g args memory ≠ .error .stuck := by
  induction n generalizing g f args memory with
  | zero => exact Outcome.unfinished_ne_stuck
  | succ n ih =>
      have hmem := List.mem_of_getElem? hf
      have hσ : Surroundings.Serves m ⟨switches, m.call switches n⟩ :=
        ⟨hswitches, fun g callee hcallee args memory hlen => ih hcallee hlen,
          fun g callee hcallee args memory r hr => Module.call_result hcallee hr⟩
      have hentry : (f.entry args memory).registers.length = f.registers.toNat := by
        simp only [Function.entry, List.length_append, List.length_replicate, hargs,
          Function.registers, UInt64.toNat_add, Nat.mod_eq_of_lt (hcount f hmem)]
      simp only [Module.call, hf, Function.run, if_pos hargs]
      exact Function.runFrom_ne_stuck hσ (hm.functions f hmem)
        (List.length_pos_iff.mpr (hm.functions f hmem).nonempty) hentry

end Blocks

end MutantGate
