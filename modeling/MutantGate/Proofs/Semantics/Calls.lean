import MutantGate.Proofs.Semantics.Execution
/-!
# The calls that a run makes

A run asks its surroundings what a function does wherever it comes to a call.  Here the calls
of a run are listed in their order, each with its arguments and the memory that it finds.

A block comes to an end if all of its calls do, since nothing else in it can go on for ever.

## What is proved

Going through an instruction and through a block under a bound: if all calls in the list come to an
end, then so do the instructions (`exists_unfinished_call`).  What a dispatcher calls is read off
its list in `Proofs.DispatcherRuns`.

## What is left outside

The calls of calls: only what a function calls itself is listed, and what the callee does is its
answer.
-/

namespace MutantGate

/-- A call of a function, with the memory that it finds. -/
structure Call where
  callee : Nat
  args : List Word
  memory : Memory

/-- What a call gives. -/
def Surroundings.answer (σ : Surroundings) (c : Call) : Outcome Returned :=
  σ.callees c.callee c.args c.memory

/-- The call that an instruction makes, if it makes one. -/
def Instruction.calls (i : Instruction) (s : Frame) : List Call :=
  match i.opcode, i.operands with
  | .call, .function f :: args =>
    match evalOperands s.registers args with
    | .ok ws => [⟨f.toNat, ws, s.memory⟩]
    | .error _ => []
  | _, _ => []

/-- The calls that the instructions of a block make. -/
def blockCalls (σ : Surroundings) (returns : ReturnType) (block : Nat) :
    List Instruction → Frame → List Call
  | [], _ => []
  | i :: is, s =>
    i.calls s ++
      match i.exec σ returns block s with
      | .ok (.next t) => blockCalls σ returns block is t
      | _ => []

namespace Function

/-- The calls that a function makes from a block on, in at most the given number of blocks. -/
def callsFrom (σ : Surroundings) (f : Function) : Nat → Nat → Frame → List Call
  | 0, _, _ => []
  | n + 1, b, s =>
    match f.blocks[b]? with
    | none => []
    | some is =>
      blockCalls σ f.returns b is s ++
        match execBlock σ f.returns b is s with
        | .ok (.goto b t) => f.callsFrom σ n b t
        | _ => []

/-- The calls that a function makes on arguments. -/
def calls (σ : Surroundings) (n : Nat) (f : Function) (args : List Word) (m : Memory) :
    List Call :=
  if args.length = f.params.toNat then f.callsFrom σ n 0 (f.entry args m) else []

end Function

/-! ## Instructions that make no call -/

theorem Instruction.calls_eq_nil {i : Instruction} (h : i.opcode ≠ .call) (s : Frame) :
    i.calls s = [] := by
  unfold Instruction.calls
  split
  · rename_i hop _
    exact absurd hop h
  · rfl

theorem blockCalls_eq_nil {σ : Surroundings} {returns : ReturnType} {block : Nat}
    {is : List Instruction} (h : ∀ i ∈ is, i.opcode ≠ .call) (s : Frame) :
    blockCalls σ returns block is s = [] := by
  induction is generalizing s with
  | nil => rfl
  | cons i is ih =>
      unfold blockCalls
      rw [Instruction.calls_eq_nil (h i List.mem_cons_self), List.nil_append]
      split
      · exact ih (fun j hj => h j (List.mem_cons_of_mem _ hj)) _
      · rfl

/-- Behind the first instruction of a block there may be no further call. -/
theorem blockCalls_cons {σ : Surroundings} {returns : ReturnType} {block : Nat} {i : Instruction}
    {is : List Instruction} (h : ∀ j ∈ is, j.opcode ≠ .call) (s : Frame) :
    blockCalls σ returns block (i :: is) s = i.calls s := by
  unfold blockCalls
  split
  · rw [blockCalls_eq_nil h, List.append_nil]
  · rw [List.append_nil]

/-! ## Blocks come to an end -/

section Ends

variable {s : Frame}

theorem Operand.eval_ne_unfinished (registers : List Word) (o : Operand) :
    o.eval registers ≠ .error .unfinished := by
  cases o with
  | register r => exact Outcome.ofOption_ne_error (by decide) registers[r.index.toNat]?
  | immediate v => exact nofun
  | block _ | function _ | switch _ => exact nofun

theorem evalOperands_ne_unfinished (registers : List Word) (os : List Operand) :
    evalOperands registers os ≠ .error .unfinished := by
  induction os with
  | nil => exact nofun
  | cons o os ih =>
      exact Outcome.bind_ne_error (o.eval_ne_unfinished registers) fun w _ =>
        Outcome.bind_ne_error ih fun ws _ => nofun

theorem quotient_ne_unfinished (a b : Word) : quotient a b ≠ .error .unfinished := by
  unfold quotient
  split <;> exact nofun

theorem remainder_ne_unfinished (a b : Word) : remainder a b ≠ .error .unfinished := by
  unfold remainder
  split <;> exact nofun

theorem Opcode.compute_ne_unfinished (o : Opcode) (ws : List Word) :
    o.compute ws ≠ .error .unfinished := by
  unfold Opcode.compute
  split
  case h_4 a b => exact quotient_ne_unfinished a b
  case h_5 a b => exact remainder_ne_unfinished a b
  all_goals exact nofun

theorem Frame.put_ne_unfinished (s : Frame) (w : Word) (dest : Option Register) :
    s.put w dest ≠ .error .unfinished := by
  unfold Frame.put
  split
  · exact nofun
  · split <;> exact nofun

theorem Frame.receive_ne_unfinished (s : Frame) (r : Returned) (dest : Option Register) :
    s.receive r dest ≠ .error .unfinished := by
  unfold Frame.receive
  split
  · exact Frame.put_ne_unfinished _ _ _
  · exact nofun
  · exact nofun

theorem Frame.put_next_ne_unfinished (s : Frame) (w : Word) (dest : Option Register) :
    (s.put w dest >>= fun t => (.ok (.next t) : Outcome Flow)) ≠ .error .unfinished :=
  Outcome.bind_ne_error (s.put_ne_unfinished w dest) fun _ _ => nofun

namespace Instruction

variable {i : Instruction}

theorem execPlain_ne_unfinished : i.execPlain s ≠ .error .unfinished :=
  Outcome.bind_ne_error (evalOperands_ne_unfinished _ i.operands) fun ws _ =>
    Outcome.bind_ne_error (i.opcode.compute_ne_unfinished ws) fun w _ =>
      s.put_next_ne_unfinished w i.dest

theorem execLoad_ne_unfinished : i.execLoad s ≠ .error .unfinished := by
  refine Outcome.bind_ne_error (evalOperands_ne_unfinished _ i.operands) fun ws _ => ?_
  split
  · exact Outcome.bind_ne_error (Outcome.ofOption_ne_error (by decide) _)
      fun w _ => s.put_next_ne_unfinished w i.dest
  · exact nofun

theorem execStore_ne_unfinished : i.execStore s ≠ .error .unfinished := by
  refine Outcome.bind_ne_error (evalOperands_ne_unfinished _ i.operands) fun ws _ => ?_
  split
  · exact Outcome.bind_ne_error (Outcome.ofOption_ne_error (by decide) _) fun m _ => nofun
  · exact nofun

theorem execBranchIf_ne_unfinished {block : Nat} :
    i.execBranchIf block s ≠ .error .unfinished := by
  unfold execBranchIf
  split
  · exact Outcome.bind_ne_error (Operand.eval_ne_unfinished _ _) fun w _ => nofun
  · exact nofun

theorem execCall_ne_unfinished {σ : Surroundings} (hop : i.opcode = .call)
    (h : ∀ c ∈ i.calls s, σ.answer c ≠ .error .unfinished) :
    i.execCall σ.callees s ≠ .error .unfinished := by
  unfold execCall
  split
  · rename_i g args hops
    refine Outcome.bind_ne_error (evalOperands_ne_unfinished _ args) fun ws hws => ?_
    have hanswer : σ.callees g.toNat ws s.memory ≠ .error .unfinished :=
      h ⟨g.toNat, ws, s.memory⟩ (by simp [calls, hop, hops, hws])
    exact Outcome.bind_ne_error hanswer fun r _ =>
      Outcome.bind_ne_error (s.receive_ne_unfinished r i.dest) fun t _ => nofun
  · exact nofun

theorem execRet_ne_unfinished {returns : ReturnType} :
    i.execRet returns s ≠ .error .unfinished := by
  refine Outcome.bind_ne_error (evalOperands_ne_unfinished _ i.operands) fun ws _ => ?_
  split <;> exact nofun

theorem execReadSwitch_ne_unfinished {switches : List Word} :
    i.execReadSwitch switches s ≠ .error .unfinished := by
  unfold execReadSwitch
  split
  · exact Outcome.bind_ne_error (Outcome.ofOption_ne_error (by decide) _)
      fun w _ => s.put_next_ne_unfinished w i.dest
  · exact nofun

/-- An instruction comes to an end if the call does that it makes. -/
theorem exec_ne_unfinished {σ : Surroundings} {returns : ReturnType} {block : Nat}
    (h : ∀ c ∈ i.calls s, σ.answer c ≠ .error .unfinished) :
    i.exec σ returns block s ≠ .error .unfinished := by
  unfold exec
  cases hop : i.opcode
  case load => exact execLoad_ne_unfinished
  case store => exact execStore_ne_unfinished
  case branch =>
    simp only [execBranch]
    split <;> exact nofun
  case branchIf => exact execBranchIf_ne_unfinished
  case call => exact execCall_ne_unfinished hop h
  case ret => exact execRet_ne_unfinished
  case readSwitch => exact execReadSwitch_ne_unfinished
  case nop => exact nofun
  all_goals exact execPlain_ne_unfinished

end Instruction

variable {σ : Surroundings} {returns : ReturnType} {block : Nat}

theorem execBlock_ne_unfinished {is : List Instruction}
    (h : ∀ c ∈ blockCalls σ returns block is s, σ.answer c ≠ .error .unfinished) :
    execBlock σ returns block is s ≠ .error .unfinished := by
  induction is generalizing s with
  | nil => exact nofun
  | cons i is ih =>
      refine Outcome.bind_ne_error
        (Instruction.exec_ne_unfinished fun c hc => h c (List.mem_append_left _ hc))
        fun flow hflow => ?_
      unfold blockCalls at h
      rw [hflow] at h
      cases flow with
      | next t => exact ih fun c hc => h c (List.mem_append_right _ hc)
      | goto b t => exact nofun
      | ret r => exact nofun

/-- A block that comes to no end makes a call that comes to none. -/
theorem exists_unfinished_call {is : List Instruction}
    (h : execBlock σ returns block is s = .error .unfinished) :
    ∃ c ∈ blockCalls σ returns block is s, σ.answer c = .error .unfinished := by
  refine Classical.byContradiction fun hnone => ?_
  exact execBlock_ne_unfinished (fun c hc heq => hnone ⟨c, hc, heq⟩) h

end Ends

end MutantGate
