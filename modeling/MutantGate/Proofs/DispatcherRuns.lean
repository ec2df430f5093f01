import MutantGate.Proofs.Dispatcher
import MutantGate.Proofs.Runs
import MutantGate.Proofs.Semantics.Calls
/-!
# Runs of a dispatcher

A dispatcher calls one function, with the arguments it got, and returns what that returns:
the clone of the first arm whose switch is on, or the untouched copy if all are off.  The
tests come first, so a run goes through them in the order of the arms and then through one
block that makes the call.

This holds whatever the functions do.  What is passed on is the memory that the call leaves and,
if the function has a value, the value that the call gives.

## What is proved

For every dispatcher within the bounds that its operands set, for all states of the switches, all
arguments and any functions to call: the list of the calls that a run makes has one entry, and this
is the function that the switches choose, with the arguments and the memory of the dispatcher.  A
run passes on what the call gives, also if that is a trap.  The induction is on the arms
(`dispatcher_endsWithCall_from`).

## What is left outside

The functions that are called, of which nothing is assumed.  That they are the copies they should be
is said where a module is isolated (`Proofs.Isolation`), and what a module does with all its
dispatchers in `Proofs.MutantIsolation`.
-/

namespace MutantGate

/-- The function that a dispatcher calls: the clone of the first arm whose switch is on, and
else the untouched copy. -/
def dispatched (switches : List Word) (fallback : Nat) : List Arm → Nat
  | [] => fallback
  | a :: arms => if switches[a.switch]?.any (· != 0) then a.clone
      else dispatched switches fallback arms

/-- What a function passes on of what a call gives that it ends with: a value only if it has one
itself, and then one has to be there. -/
def ReturnType.passOn : ReturnType → Returned → Outcome Returned
  | .void, (_, m) => .ok (none, m)
  | .int, (some w, m) => .ok (some w, m)
  | .int, (none, _) => .error .stuck

/-- A result of the return type is passed on as it is. -/
theorem ReturnType.passOn_eq_ok {returns : ReturnType} {r : Returned}
    (h : r.1.isSome = (returns == .int)) : returns.passOn r = .ok r := by
  rcases returned_cases h with ⟨rfl, m, rfl⟩ | ⟨rfl, w, m, rfl⟩ <;> rfl

theorem ReturnType.bind_passOn {returns : ReturnType} {x : Outcome Returned}
    (h : ∀ r, x = .ok r → r.1.isSome = (returns == .int)) : x >>= returns.passOn = x := by
  cases x with
  | error e => rfl
  | ok r => exact passOn_eq_ok (h r rfl)

/-! ## Which function is called -/

/-- The function that the switches choose: the clone of the first arm that is on, and the
untouched copy if no arm is on. -/
inductive Chosen (switches : List Word) (fallback : Nat) (arms : List Arm) : Nat → Prop
  | clone {before after : List Arm} {a : Arm} {u : Word} (split : arms = before ++ a :: after)
      (off : ∀ b ∈ before, switches[b.switch]? = some 0) (on : switches[a.switch]? = some u)
      (nonzero : u ≠ 0) : Chosen switches fallback arms a.clone
  | untouched (off : ∀ a ∈ arms, switches[a.switch]? = some 0) :
      Chosen switches fallback arms fallback

theorem Chosen.cons {switches : List Word} {fallback callee : Nat} {arms : List Arm} {a : Arm}
    (hoff : switches[a.switch]? = some 0) (h : Chosen switches fallback arms callee) :
    Chosen switches fallback (a :: arms) callee := by
  cases h with
  | @clone before after b u split off on nonzero =>
      have hsplit : a :: arms = (a :: before) ++ b :: after := congrArg (a :: ·) split
      exact .clone hsplit (List.forall_mem_cons.mpr ⟨hoff, off⟩) on nonzero
  | untouched off => exact .untouched (List.forall_mem_cons.mpr ⟨hoff, off⟩)

theorem dispatched_chosen {switches : List Word} {fallback : Nat} {arms : List Arm}
    (h : ∀ a ∈ arms, a.switch < switches.length) :
    Chosen switches fallback arms (dispatched switches fallback arms) := by
  induction arms with
  | nil => exact .untouched fun a ha => absurd ha List.not_mem_nil
  | cons a arms ih =>
      have hget := List.getElem?_eq_getElem (h a List.mem_cons_self)
      unfold dispatched
      rw [hget]
      split
      · rename_i hon
        have hnone : ∀ b ∈ ([] : List Arm), switches[b.switch]? = some 0 :=
          fun b hb => absurd hb List.not_mem_nil
        exact .clone rfl hnone hget (by simpa using hon)
      · rename_i hoff
        exact (ih fun b hb => h b (List.mem_cons_of_mem _ hb)).cons
          (hget.trans (congrArg some (by simpa using hoff)))

/-- The switches choose one function only. -/
theorem Chosen.eq_dispatched {switches : List Word} {fallback callee : Nat} {arms : List Arm}
    (h : Chosen switches fallback arms callee) : callee = dispatched switches fallback arms := by
  induction arms with
  | nil =>
      cases h with
      | clone split _ _ _ => exact absurd split.symm (by simp)
      | untouched _ => rfl
  | cons a arms ih =>
      unfold dispatched
      cases h with
      | @clone before after b u split off on nonzero =>
          cases before with
          | nil =>
              cases split
              rw [on, if_pos (by simpa using nonzero)]
          | cons c before =>
              cases split
              have hoff := List.forall_mem_cons.mp off
              rw [hoff.1, if_neg (by decide)]
              exact ih (.clone rfl hoff.2 on nonzero)
      | untouched off =>
          have hoff := List.forall_mem_cons.mp off
          rw [hoff.1, if_neg (by decide)]
          exact ih (.untouched hoff.2)

theorem Chosen.callee_cases {switches : List Word} {fallback callee : Nat} {arms : List Arm}
    (h : Chosen switches fallback arms callee) :
    callee = fallback ∨ ∃ a ∈ arms, callee = a.clone := by
  cases h with
  | clone split off on nonzero => exact Or.inr ⟨_, by simp [split], rfl⟩
  | untouched off => exact Or.inl rfl

/-! ## The blocks -/

section Blocks

variable {σ : Surroundings} {f : Function} {args : List Word} {memory : Memory} {w : Word}

/-- The parameters of a function, named in order, stand for its arguments. -/
theorem evalOperands_parameters (ws before args : List Word)
    (h : before.length + args.length ≤ 256) :
    evalOperands (before ++ args ++ ws)
      ((List.range' before.length args.length).map fun n => .register ⟨n.toUInt8⟩) = .ok args := by
  induction args generalizing before with
  | nil => rfl
  | cons w args ih =>
      have hget : (before ++ w :: args ++ ws)[before.length.toUInt8.toNat]? = some w := by
        rw [UInt8.toNat_ofNat_of_lt' (by simp only [List.length_cons] at h; show _ < 256; omega)]
        simp
      have hrest := ih (before ++ [w])
        (by simpa [Nat.add_assoc, Nat.add_comm, Nat.add_left_comm] using h)
      rw [List.length_append, List.length_singleton, List.append_assoc before [w] args,
        List.singleton_append] at hrest
      rw [List.length_cons, List.range'_succ, List.map_cons]
      simp only [evalOperands, Operand.eval, hget, hrest]
      rfl

/-! The register behind the arguments takes switches and results. -/

theorem Frame.put_scratch {r : Register} (hr : r.index.toNat = args.length) (u : Word) :
    (⟨args ++ [w], memory⟩ : Frame).put u (some r) = .ok ⟨args ++ [u], memory⟩ := by
  simp [Frame.put, hr]

theorem Operand.eval_scratch {r : Register} (hr : r.index.toNat = args.length) :
    (Operand.register r).eval (args ++ [w]) = .ok w := by
  simp [Operand.eval, hr, Outcome.ofOption]

variable (hparams : f.params.toNat ≤ maxForwarded) (hargs : args.length = f.params.toNat)
include hparams hargs

theorem scratch_index : (Register.mk f.params.toNat.toUInt8).index.toNat = args.length :=
  (UInt8.toNat_ofNat_of_lt' (Nat.lt_succ_of_le hparams)).trans hargs.symm

theorem evalOperands_forwarded :
    evalOperands (args ++ [w])
      (((List.range f.params.toNat).map fun n => Register.mk n.toUInt8).map .register) =
      .ok args := by
  rw [List.map_map, List.range_eq_range', ← hargs]
  refine evalOperands_parameters [w] [] args ?_
  rw [hargs, List.length_nil, Nat.zero_add]
  exact Nat.le_succ_of_le hparams

theorem forwardedCall_exec {returns : ReturnType} {block callee : Nat} {dest : Option Register}
    (hindex : callee < 2 ^ 32) :
    (Instruction.call callee.toUInt32 dest
        ((List.range f.params.toNat).map fun n => Register.mk n.toUInt8)).exec σ returns block
      ⟨args ++ [w], memory⟩ =
      σ.callees callee args memory >>= fun r =>
        Frame.receive ⟨args ++ [w], memory⟩ r dest >>= fun t => .ok (.next t) := by
  simp only [Instruction.exec, Instruction.execCall, Instruction.call,
    evalOperands_forwarded hparams hargs, UInt32.toNat_ofNat_of_lt' hindex]
  rfl

theorem forwardedCall_calls {callee : Nat} {dest : Option Register} (hindex : callee < 2 ^ 32) :
    (Instruction.call callee.toUInt32 dest
        ((List.range f.params.toNat).map fun n => Register.mk n.toUInt8)).calls
      ⟨args ++ [w], memory⟩ = [⟨callee, args, memory⟩] := by
  simp only [Instruction.calls, Instruction.call, evalOperands_forwarded hparams hargs,
    UInt32.toNat_ofNat_of_lt' hindex]

/-- A block that passes a call on. -/
theorem forwardBlock_exec {block callee : Nat} (hindex : callee < 2 ^ 32) :
    execBlock σ f.returns block (forwardBlock f.params.toNat f.returns callee)
      ⟨args ++ [w], memory⟩ =
      (σ.callees callee args memory >>= f.returns.passOn).map .ret := by
  have hscratch := scratch_index hparams hargs
  cases hcall : σ.callees callee args memory with
  | error e =>
      unfold forwardBlock
      split <;> simp only [execBlock, forwardedCall_exec hparams hargs hindex, hcall] <;> rfl
  | ok r =>
      obtain ⟨v, m⟩ := r
      cases hreturns : f.returns with
      | void =>
          simp only [forwardBlock, execBlock, forwardedCall_exec hparams hargs hindex, hcall]
          cases v <;> rfl
      | int =>
          simp only [forwardBlock, execBlock, forwardedCall_exec hparams hargs hindex, hcall]
          cases v with
          | none => rfl
          | some u =>
              have hret : (Instruction.ret ⟨f.params.toNat.toUInt8⟩).exec σ .int block
                  ⟨args ++ [u], m⟩ = .ok (.ret (some u, m)) := by
                simp only [Instruction.exec, Instruction.ret, Instruction.execRet, evalOperands,
                  Operand.eval_scratch hscratch]
                rfl
              simp only [bind, Except.bind, Frame.receive, Frame.put_scratch hscratch, hret]
              rfl

/-- It makes this call and no other. -/
theorem forwardBlock_calls {block callee : Nat} (hindex : callee < 2 ^ 32) :
    blockCalls σ f.returns block (forwardBlock f.params.toNat f.returns callee)
      ⟨args ++ [w], memory⟩ = [⟨callee, args, memory⟩] := by
  unfold forwardBlock
  split
  all_goals
    rw [blockCalls_cons (List.forall_mem_singleton.mpr (show Opcode.ret ≠ .call by decide))]
    exact forwardedCall_calls hparams hargs hindex

/-- A block that tests a switch. -/
theorem testBlock_exec {returns : ReturnType} {block switch target : Nat} {u : Word}
    (hindex : switch < 2 ^ 32) (htarget : target < 2 ^ 32)
    (hswitch : σ.switches[switch]? = some u) :
    execBlock σ returns block (testBlock f.params.toNat switch target) ⟨args ++ [w], memory⟩ =
      .ok (.goto (if u = 0 then block + 1 else target) ⟨args ++ [u], memory⟩) := by
  have hscratch := scratch_index hparams hargs
  have hread : (Instruction.readSwitch ⟨f.params.toNat.toUInt8⟩ switch.toUInt32).exec σ returns
      block ⟨args ++ [w], memory⟩ = .ok (.next ⟨args ++ [u], memory⟩) := by
    simp only [Instruction.exec, Instruction.readSwitch, Instruction.execReadSwitch,
      UInt32.toNat_ofNat_of_lt' hindex, hswitch, Outcome.ofOption, bind, Except.bind,
      Frame.put_scratch hscratch]
    rfl
  have hbranch : (Instruction.branchIf ⟨f.params.toNat.toUInt8⟩ target.toUInt32).exec σ returns
      block ⟨args ++ [u], memory⟩ =
        .ok (.goto (if u = 0 then block + 1 else target) ⟨args ++ [u], memory⟩) := by
    simp only [Instruction.exec, Instruction.branchIf, Instruction.execBranchIf,
      UInt32.toNat_ofNat_of_lt' htarget, bind, Except.bind, Operand.eval_scratch hscratch]
    rfl
  simp only [testBlock, execBlock, hread, hbranch, bind, Except.bind]
  rfl

end Blocks

/-- A test makes no call. -/
theorem testBlock_calls {σ : Surroundings} {returns : ReturnType} {params block switch target : Nat}
    {s : Frame} : blockCalls σ returns block (testBlock params switch target) s = [] := by
  refine blockCalls_eq_nil (fun i hi => ?_) s
  rcases List.mem_pair.mp hi with rfl | rfl
  · exact (show Opcode.readSwitch ≠ .call by decide)
  · exact (show Opcode.branchIf ≠ .call by decide)

/-! ## Runs -/

/-- From a block on a function makes one call, and passes on what that gives. -/
structure Function.EndsWithCall (σ : Surroundings) (f : Function) (n b : Nat) (s : Frame)
    (c : Call) : Prop where
  calls : f.callsFrom σ n b s = [c]
  result : f.runFrom σ n b s = σ.answer c >>= f.returns.passOn

section Runs

variable {σ : Surroundings} {f : Function} {n b : Nat} {is : Block} {s : Frame} {c : Call}

theorem Function.EndsWithCall.of_block (hblock : f.blocks[b]? = some is)
    (hcalls : blockCalls σ f.returns b is s = [c])
    (hexec : execBlock σ f.returns b is s = (σ.answer c >>= f.returns.passOn).map .ret) :
    f.EndsWithCall σ (n + 1) b s c := by
  constructor
  · simp only [Function.callsFrom, hblock, hcalls, hexec]
    cases σ.answer c >>= f.returns.passOn <;> rfl
  · simp only [Function.runFrom, hblock, hexec]
    cases σ.answer c >>= f.returns.passOn <;> rfl

/-- A block without calls may come before. -/
theorem Function.EndsWithCall.of_goto {d : Nat} {t : Frame} (hblock : f.blocks[b]? = some is)
    (hcalls : blockCalls σ f.returns b is s = [])
    (hexec : execBlock σ f.returns b is s = .ok (.goto d t)) (h : f.EndsWithCall σ n d t c) :
    f.EndsWithCall σ (n + 1) b s c := by
  constructor
  · simp only [Function.callsFrom, hblock, hcalls, hexec, List.nil_append]
    exact h.calls
  · simp only [Function.runFrom, hblock, hexec]
    exact h.result

variable {fallback : Nat} {arms : List Arm} {args : List Word} {memory : Memory}
  (hparams : f.params.toNat ≤ maxForwarded) (hargs : args.length = f.params.toNat)
  (hfallback : fallback < 2 ^ 32)
  (harms : ∀ a ∈ arms, a.clone < 2 ^ 32 ∧ a.switch < 2 ^ 32 ∧ a.switch < σ.switches.length)
  (hcount : 2 * arms.length + 1 ≤ 2 ^ 32)
include hparams hargs

theorem forwardBlock_endsWithCall {g : Function} {callee : Nat} {w : Word}
    (hreturns : g.returns = f.returns)
    (hblock : g.blocks[b]? = some (forwardBlock f.params.toNat f.returns callee))
    (hindex : callee < 2 ^ 32) :
    g.EndsWithCall σ (n + 1) b ⟨args ++ [w], memory⟩ ⟨callee, args, memory⟩ := by
  refine .of_block hblock ?_ ?_
  · rw [hreturns]
    exact forwardBlock_calls hparams hargs hindex
  · rw [hreturns]
    exact forwardBlock_exec hparams hargs hindex

include hfallback harms hcount

/-- From the test of an arm on, a dispatcher calls what the arms from there on lead to. -/
theorem dispatcher_endsWithCall_from (rest done : List Arm) {w : Word}
    (hsplit : done ++ rest = arms) (hn : rest.length + 2 ≤ n + 1) :
    (dispatcher f fallback arms).EndsWithCall σ (n + 1) done.length ⟨args ++ [w], memory⟩
      ⟨dispatched σ.switches fallback rest, args, memory⟩ := by
  -- By induction on the arms still to be tested; those before them were off.
  induction rest generalizing done n w with
  | nil =>
      have hblock : (dispatcher f fallback arms).blocks[done.length]? =
          some (forwardBlock f.params.toNat f.returns fallback) := by
        rw [show done.length = arms.length by rw [← hsplit, List.append_nil]]
        exact dispatchBlocks_fallback
      exact forwardBlock_endsWithCall hparams hargs rfl hblock hfallback
  | cons a rest ih =>
      have hget : arms[done.length]? = some a := by
        rw [← hsplit, List.getElem?_append_right (Nat.le_refl _), Nat.sub_self]
        rfl
      have hlength : done.length < arms.length := (List.getElem?_eq_some_iff.mp hget).1
      obtain ⟨hclone, hindex, hswitch⟩ := harms a (List.mem_of_getElem? hget)
      have hblock : (dispatcher f fallback arms).blocks[done.length]? =
          some (testBlock f.params.toNat a.switch (arms.length + 1 + done.length)) :=
        dispatchBlocks_test hget
      refine .of_goto hblock testBlock_calls (testBlock_exec hparams hargs hindex
        (by omega : arms.length + 1 + done.length < 2 ^ 32) (List.getElem?_eq_getElem hswitch)) ?_
      obtain ⟨n, rfl⟩ : ∃ k, n = k + 1 := ⟨n - 1, by simp only [List.length_cons] at hn; omega⟩
      unfold dispatched
      rw [List.getElem?_eq_getElem hswitch]
      by_cases hoff : σ.switches[a.switch] = 0
      · rw [if_pos hoff, if_neg (by simp [hoff])]
        have hrest := ih (done ++ [a]) (n := n) (w := σ.switches[a.switch])
          (by rw [← hsplit, List.append_assoc]; rfl) (by simpa using hn)
        rwa [List.length_append] at hrest
      · rw [if_neg hoff, if_pos (by simpa using hoff)]
        exact forwardBlock_endsWithCall hparams hargs rfl (dispatchBlocks_clone hget) hclone

theorem dispatcher_endsWithCall (hn : arms.length + 2 ≤ n) :
    (dispatcher f fallback arms).EndsWithCall σ n 0 ⟨args ++ [0], memory⟩
      ⟨dispatched σ.switches fallback arms, args, memory⟩ := by
  obtain ⟨n, rfl⟩ : ∃ k, n = k + 1 := ⟨n - 1, by omega⟩
  exact dispatcher_endsWithCall_from hparams hargs hfallback harms hcount arms []
    (List.nil_append arms) hn

/-- A dispatcher does what the function does that it calls. -/
theorem dispatcher_run
    (hresult : ∀ callee r, (callee = fallback ∨ ∃ a ∈ arms, callee = a.clone) →
      σ.callees callee args memory = .ok r → r.1.isSome = (f.returns == .int))
    (hn : arms.length + 2 ≤ n) :
    (dispatcher f fallback arms).run σ n args memory =
      σ.callees (dispatched σ.switches fallback arms) args memory := by
  have hchosen : Chosen σ.switches fallback arms (dispatched σ.switches fallback arms) :=
    dispatched_chosen fun a ha => (harms a ha).2.2
  unfold Function.run
  rw [if_pos (show args.length = (dispatcher f fallback arms).params.toNat from hargs)]
  exact (dispatcher_endsWithCall hparams hargs hfallback harms hcount hn).result.trans
    (ReturnType.bind_passOn fun r hr => hresult _ r hchosen.callee_cases hr)

end Runs

/-- Whatever the functions do and whatever the switches are, a dispatcher makes one call: it calls
the function that the switches choose, with its own arguments and the memory as it is, and passes
on what the call gives.  That is just what the call gives if it is of the return type. -/
theorem dispatcher_calls_chosen {f : Function} {fallback : Nat} {arms : List Arm}
    {switches args : List Word} (hparams : f.params.toNat ≤ 255) (hfallback : fallback < 2 ^ 32)
    (hcount : arms.length < 2 ^ 30) (hindices : ∀ a ∈ arms, a.clone < 2 ^ 32 ∧ a.switch < 2 ^ 32)
    (hswitches : ∀ a ∈ arms, a.switch < switches.length) (hargs : args.length = f.params.toNat) :
    ∃ callee, Chosen switches fallback arms callee ∧
      ∀ (callees : Callees) (memory : Memory) (n : Nat), arms.length + 2 ≤ n →
        (dispatcher f fallback arms).calls ⟨switches, callees⟩ n args memory =
          [⟨callee, args, memory⟩] ∧
        (dispatcher f fallback arms).run ⟨switches, callees⟩ n args memory =
          callees callee args memory >>= f.returns.passOn ∧
        ((∀ r, callees callee args memory = .ok r → r.1.isSome = (f.returns == .int)) →
          (dispatcher f fallback arms).run ⟨switches, callees⟩ n args memory =
            callees callee args memory) := by
  refine ⟨dispatched switches fallback arms, dispatched_chosen hswitches,
    fun callees memory n hn => ?_⟩
  have hcall : (dispatcher f fallback arms).EndsWithCall ⟨switches, callees⟩ n 0
      ⟨args ++ [0], memory⟩ ⟨dispatched switches fallback arms, args, memory⟩ :=
    dispatcher_endsWithCall hparams hargs hfallback
      (fun a ha => ⟨(hindices a ha).1, (hindices a ha).2, hswitches a ha⟩) (by omega) hn
  have hparams' : args.length = (dispatcher f fallback arms).params.toNat := hargs
  have hrun : (dispatcher f fallback arms).run ⟨switches, callees⟩ n args memory =
      callees (dispatched switches fallback arms) args memory >>= f.returns.passOn := by
    unfold Function.run
    rw [if_pos hparams']
    exact hcall.result
  refine ⟨?_, hrun, fun hresult => hrun.trans (ReturnType.bind_passOn hresult)⟩
  unfold Function.calls
  rw [if_pos hparams']
  exact hcall.calls

/-- A function that takes its second parameter from its first. -/
def difference : Function :=
  ⟨"difference", 2, 1, [[.binary .sub ⟨2⟩ ⟨0⟩ ⟨1⟩, .ret ⟨2⟩]], .int⟩

/-- Of two arms the first is off, so the clone of the second is called. -/
theorem dispatcher_calls_chosen_difference :
    difference.params.toNat ≤ 255 ∧ Chosen [0, 3] 4 [⟨0, 5⟩, ⟨1, 6⟩] 6 ∧
      ∀ callees memory,
        (dispatcher difference 4 [⟨0, 5⟩, ⟨1, 6⟩]).calls ⟨[0, 3], callees⟩ 4 [9, 2] memory =
          [⟨6, [9, 2], memory⟩] ∧
        (dispatcher difference 4 [⟨0, 5⟩, ⟨1, 6⟩]).run ⟨[0, 3], callees⟩ 4 [9, 2] memory =
          callees 6 [9, 2] memory >>= ReturnType.int.passOn := by
  have hfallback : 4 < 2 ^ 32 := by decide
  have hswitches : ∀ a ∈ [(⟨0, 5⟩ : Arm), ⟨1, 6⟩], a.switch < ([0, 3] : List Word).length := by
    decide
  have hargs : ([9, 2] : List Word).length = difference.params.toNat := rfl
  obtain ⟨callee, hchosen, hdispatches⟩ := dispatcher_calls_chosen (by decide) hfallback
    (by decide) (by decide) hswitches hargs
  obtain rfl : callee = 6 := hchosen.eq_dispatched
  refine ⟨by decide, hchosen, fun callees memory => ?_⟩
  obtain ⟨hcalls, hrun, -⟩ := hdispatches callees memory 4 (by decide)
  exact ⟨hcalls, hrun⟩

end MutantGate
