import MutantGate.Proofs.Semantics.WasmTyping
import MutantGate.Proofs.WellFormed
/-!
# There is code for what is well-formed, and it is typed

An instruction with which nothing is wrong can be lowered, and the code for it starts and
ends with an empty stack, in every context that declares what its module and its function
have.  Each rule on instructions excludes one obstacle or makes one reference of the code
a declared one, so the two facts are proved at once, one operation after the other.

From instructions this is carried to blocks and functions.  Nothing is ever left on the
stack, so that the bodies of the loop and of its conditionals have the empty type; the
end of a function is not reached, so that it may be taken to leave the result.

## What is proved

`HasCode` puts the two facts together; every operation has it where nothing is wrong, and
`lowerFunction_typed` has it for a whole function, in the context that declares its registers.

## What is left outside

Code for instructions with which something is wrong: some of it has a type and some has not.
-/

namespace MutantGate

open Wasm (Instr ValueType)
open Wasm.Instr (BodyTyped Typed)

/-! ## Contexts -/

/-- The types of what a function gives back. -/
def ReturnType.results (r : ReturnType) : List ValueType := if r == .int then [.i32] else []

/-- The signature that a function is lowered to. -/
def Function.loweredType (f : Function) : Wasm.FuncType :=
  ⟨List.replicate f.params.toNat .i32, f.returns.results⟩

/-- A context that declares what code in a function of a module may refer to.  The label of
the loop is the second one, as every block stands in a conditional. -/
structure Wasm.Context.Declares (C : Wasm.Context) (m : MutantGate.Module) (f : Function) :
    Prop where
  functions : ∀ (g : Nat) (h : Function), m.functions[g]? = some h →
    C.functions[g]? = some h.loweredType
  globals : ∀ k < m.switches.length, C.globals[k]? = some .i32
  memory : 0 < C.memories
  locals : ∀ k < f.registers.toNat, C.locals[k]? = some .i32
  selector : C.locals[f.selector.toNat]? = some .i32
  loop : C.labels[1]? = some []
  results : C.results = f.returns.results

/-! ## Operands and results -/

section Instructions

variable {C : Wasm.Context} {m : Module} {f : Function} {i : Instruction}

/-- There is code that needs nothing on the stack and leaves operands of the given types. -/
def HasCode (C : Wasm.Context) (x : Except BodyObstacle (List Instr)) (ts : List ValueType) :
    Prop :=
  ∃ code, x = .ok code ∧ BodyTyped C code [] ts

theorem HasCode.map {x : Except BodyObstacle (List Instr)} {ts us : List ValueType}
    {rest : List Instr → List Instr} (h : HasCode C x ts)
    (hrest : ∀ a, BodyTyped C a [] ts → BodyTyped C (rest a) [] us) :
    HasCode C (x.map rest) us := by
  obtain ⟨a, rfl, ha⟩ := h
  exact ⟨rest a, rfl, hrest a ha⟩

theorem pushOperand_typed (hC : C.Declares m f) {o : Operand} (hvalue : o.isValue = true)
    (hbelow : ∀ r, o = .register r → r.index.toNat < f.registers.toNat) :
    ∃ c, pushOperand o = .ok c ∧ c.Typed C [] [.i32] := by
  cases o with
  | register r =>
      refine ⟨_, rfl, .localGet ?_⟩
      rw [UInt8.toNat_toUInt32]
      exact hC.locals _ (hbelow r rfl)
  | immediate v => exact ⟨_, rfl, .const⟩
  | block _ | function _ | switch _ => cases hvalue

theorem pushOperands_typed (hC : C.Declares m f) (os : List Operand)
    (hvalue : ∀ o ∈ os, o.isValue = true)
    (hbelow : ∀ r, .register r ∈ os → r.index.toNat < f.registers.toNat) :
    HasCode C (pushOperands os) (List.replicate os.length .i32) := by
  induction os with
  | nil => exact ⟨[], rfl, .nil⟩
  | cons o os ih =>
      obtain ⟨c, hc, htyped⟩ := pushOperand_typed hC (hvalue o List.mem_cons_self)
        fun r hr => hbelow r (hr ▸ List.mem_cons_self)
      obtain ⟨code, hcode, hcodes⟩ := ih (fun o' ho' => hvalue o' (List.mem_cons_of_mem _ ho'))
        fun r hr => hbelow r (List.mem_cons_of_mem _ hr)
      refine ⟨c :: code, ?_, htyped.body.append (hcodes.under [.i32])⟩
      simp only [pushOperands, hc, hcode]

/-- The address of a word is pushed in place of the word. -/
theorem pushAddress_typed (hC : C.Declares m f) {o : Operand} (hvalue : o.isValue = true)
    (hbelow : ∀ r, o = .register r → r.index.toNat < f.registers.toNat) :
    HasCode C (pushAddress (some o)) [.i32] := by
  obtain ⟨c, hc, htyped⟩ := pushOperand_typed hC hvalue hbelow
  refine ⟨[c, .const 2, .binary .shl], ?_, ?_⟩
  · simp only [pushAddress, hc]
    rfl
  · exact (htyped.body.append (Typed.const.body.under [.i32])).append Typed.binary.body

theorem takeResult_typed (hC : C.Declares m f) {dest : Option Register}
    (hdest : ∀ r, dest = some r → r.index.toNat < f.registers.toNat) :
    BodyTyped C [takeResult dest] [.i32] [] := by
  cases dest with
  | none => exact Typed.drop.body
  | some r =>
      refine Typed.body (.localSet ?_)
      rw [UInt8.toNat_toUInt32]
      exact hC.locals _ (hdest r rfl)

/-! ## Operations from words to a word -/

section Plain

variable (hC : C.Declares m f) (hbelow : i.RegistersBelow f.registers.toNat)
  (hvalue : ∀ o ∈ i.operands, o.isValue = true)
include hC hbelow hvalue

/-- The operands of an instruction, as many as it has. -/
theorem operands_typed {n : Nat} (hlength : i.operands.length = n) :
    HasCode C (pushOperands i.operands) (List.replicate n .i32) :=
  hlength ▸ pushOperands_typed hC _ hvalue hbelow.operand

theorem lowerDirect_typed (op : Wasm.BinaryOp) (hlength : i.operands.length = 2) :
    HasCode C (lowerDirect op i) [] := by
  refine (operands_typed hC hbelow hvalue hlength).map fun a ha => ?_
  exact ha.append (Typed.binary.body.append (takeResult_typed hC hbelow.dest))

theorem lowerExtremum_typed (op : Wasm.BinaryOp) (hlength : i.operands.length = 2) :
    HasCode C (lowerExtremum op i) [] := by
  refine (operands_typed hC hbelow hvalue hlength).map fun a ha => ?_
  have hpicked : BodyTyped C [.binary op, .select] [.i32, .i32, .i32, .i32] [.i32] :=
    (Typed.binary.body.under [.i32, .i32]).append Typed.select.body
  have htwice : BodyTyped C (a ++ a) [] [.i32, .i32, .i32, .i32] :=
    ha.append (ha.under [.i32, .i32])
  exact htwice.append (hpicked.append (takeResult_typed hC hbelow.dest))

theorem lowerNeg_typed (hlength : i.operands.length = 1) :
    HasCode C ((pushOperands i.operands).map fun a =>
      .const 0 :: a ++ [.binary .sub, takeResult i.dest]) [] := by
  refine (operands_typed hC hbelow hvalue hlength).map fun a ha => ?_
  have hboth : BodyTyped C (.const 0 :: a) [] [.i32, .i32] :=
    Typed.const.body.append (ha.under [.i32])
  exact hboth.append (Typed.binary.body.append (takeResult_typed hC hbelow.dest))

theorem lowerAbs_typed (hlength : i.operands.length = 1) :
    HasCode C ((pushOperands i.operands).map fun a =>
      a ++ .const 0 :: a ++ .binary .sub :: a
        ++ [.const 0, .binary .geS, .select, takeResult i.dest]) [] := by
  refine (operands_typed hC hbelow hvalue hlength).map fun a ha => ?_
  have hnegated : BodyTyped C (.const 0 :: a ++ [.binary .sub]) [] [.i32] :=
    (Typed.const.body.append (ha.under [.i32])).append Typed.binary.body
  have htested : BodyTyped C (a ++ [.const 0, .binary .geS]) [] [.i32] :=
    ha.append ((Typed.const.body.under [.i32]).append Typed.binary.body)
  have hall := (ha.append (hnegated.under [.i32])).append (htested.under [.i32, .i32])
  have htaken := hall.append (Typed.select.body.append (takeResult_typed hC hbelow.dest))
  simpa using htaken

theorem lowerNot_typed (hlength : i.operands.length = 1) :
    HasCode C ((pushOperands i.operands).map fun a => a ++ [.eqz, takeResult i.dest]) [] := by
  refine (operands_typed hC hbelow hvalue hlength).map fun a ha => ?_
  exact ha.append (Typed.eqz.body.append (takeResult_typed hC hbelow.dest))

theorem lowerCopy_typed (hlength : i.operands.length = 1) :
    HasCode C ((pushOperands i.operands).map fun a => a ++ [takeResult i.dest]) [] := by
  refine (operands_typed hC hbelow hvalue hlength).map fun a ha => ?_
  exact ha.append (takeResult_typed hC hbelow.dest)

/-! ## Memory -/

theorem lowerLoad_typed (hlength : i.operands.length = 1) :
    HasCode C
      ((pushAddress i.operands.head?).map fun a => a ++ [.load, takeResult i.dest]) [] := by
  obtain ⟨o, ho⟩ := List.length_eq_one_iff.mp hlength
  have haddress := pushAddress_typed hC (hvalue o (by simp [ho]))
    fun r hr => hbelow.operand r (by simp [ho, hr])
  rw [ho]
  refine haddress.map fun a ha => ?_
  exact ha.append ((Typed.load hC.memory).body.append (takeResult_typed hC hbelow.dest))

theorem lowerStore_typed (hlength : i.operands.length = 2) :
    HasCode C
      (match pushAddress i.operands.head?, pushOperands i.operands.tail with
      | .error e, _ => .error e
      | _, .error e => .error e
      | .ok a, .ok v => .ok (a ++ v ++ [.store])) [] := by
  obtain ⟨o, v, ho⟩ := List.length_eq_two.mp hlength
  obtain ⟨a, ha, haddress⟩ := pushAddress_typed hC (hvalue o (by simp [ho]))
    fun r hr => hbelow.operand r (by simp [ho, hr])
  obtain ⟨c, hc, hstored⟩ := pushOperands_typed hC [v]
    (fun o' ho' => hvalue o' (by rw [ho]; exact List.mem_cons_of_mem _ ho'))
    fun r hr => hbelow.operand r (by rw [ho]; exact List.mem_cons_of_mem _ hr)
  refine ⟨a ++ c ++ [.store], ?_, ?_⟩
  · simp only [ho, List.head?_cons, List.tail_cons, ha, hc]
  · exact (haddress.append (hstored.under [.i32])).append (Typed.store hC.memory).body

end Plain

/-! ## Calls, switches and control -/

theorem lowerCall_typed (hC : C.Declares m f) (hbelow : i.RegistersBelow f.registers.toNat)
    (hi : callViolations m i = []) : HasCode C (lowerCall m i) [] := by
  obtain ⟨g, args, callee, hops, hcallee, hlength, hvalue, -⟩ :=
    (callViolations_eq_nil_iff m i).mp hi
  have hargs := pushOperands_typed hC _ hvalue
    fun r hr => hbelow.operand r (hops ▸ List.mem_cons_of_mem _ hr)
  have hcall : Typed C (.call g) (List.replicate args.length .i32) callee.returns.results := by
    rw [hlength]
    exact .call (hC.functions _ _ hcallee)
  simp only [lowerCall, hops, hcallee]
  refine hargs.map fun a ha => ha.append ?_
  cases hreturns : callee.returns with
  | void =>
      rw [hreturns] at hcall
      exact hcall.body
  | int =>
      rw [hreturns] at hcall
      exact hcall.body.append (takeResult_typed hC hbelow.dest)

theorem lowerReadSwitch_typed (hC : C.Declares m f) (hbelow : i.RegistersBelow f.registers.toNat)
    {k : UInt32} (hk : k.toNat < m.switches.length) :
    BodyTyped C [.globalGet k, takeResult i.dest] [] [] :=
  (Typed.globalGet (hC.globals _ hk)).body.append (takeResult_typed hC hbelow.dest)

/-- What follows the setting of the selector is not run, so it may have any type. -/
theorem restart_typed (hC : C.Declares m f) : BodyTyped C (restart f.selector) [.i32] [] := by
  have hbranch : Typed C (.br 1) ([] ++ []) [] := .br hC.loop
  exact (Typed.localSet hC.selector).body.append hbranch.body

theorem lowerBranch_typed (hC : C.Declares m f) (t : Word) :
    BodyTyped C (.const t :: restart f.selector) [] [] :=
  Typed.const.body.append (restart_typed hC)

theorem lowerBranchIf_typed (hC : C.Declares m f) {a : List Instr}
    (ha : BodyTyped C a [] [.i32]) (t next : Word) :
    BodyTyped C (.const t :: .const next :: a ++ .select :: restart f.selector) [] [] := by
  have hboth : BodyTyped C [.const t, .const next] [] [.i32, .i32] :=
    Typed.const.body.append (Typed.const.body.under [.i32])
  exact (hboth.append (ha.under [.i32, .i32])).append
    (Typed.select.body.append (restart_typed hC))

theorem lowerRet_typed (hC : C.Declares m f) (hbelow : i.RegistersBelow f.registers.toNat)
    (hi : returnViolations f i = []) :
    HasCode C ((pushOperands i.operands).map fun a => a ++ [.ret]) [] := by
  obtain ⟨hlength, hvalue⟩ := (returnViolations_eq_nil_iff f i).mp hi
  refine (operands_typed hC hbelow hvalue hlength).map fun a ha => ha.append ?_
  have hresults : List.replicate f.returns.count .i32 = C.results := by
    rw [hC.results]
    cases f.returns <;> rfl
  have hreturn : Typed C .ret ([] ++ C.results) [] := .ret
  rw [hresults]
  exact hreturn.body

/-! ## Any instruction -/

theorem lowerInstruction_typed (hC : C.Declares m f) {block : Nat}
    (hi : instructionViolations m f block i = []) :
    HasCode C (lowerInstruction m f.selector block i) [] := by
  obtain ⟨hbelow, hoperands, -⟩ := (instructionViolations_eq_nil_iff m f block i).mp hi
  unfold lowerInstruction
  unfold operandViolations at hoperands
  cases hop : i.opcode <;> simp only [hop] at hoperands ⊢
  case call => exact lowerCall_typed hC hbelow hoperands
  case ret => exact lowerRet_typed hC hbelow hoperands
  case branch =>
    obtain ⟨t, hops, -⟩ := (branchViolations_eq_nil_iff f i).mp hoperands
    rw [hops]
    exact ⟨_, rfl, lowerBranch_typed hC _⟩
  case branchIf =>
    obtain ⟨c, t, hops, hvalue, -⟩ := (branchIfViolations_eq_nil_iff f block i).mp hoperands
    obtain ⟨a, ha, htyped⟩ := pushOperands_typed hC [c] (by simpa using hvalue)
      fun r hr => hbelow.operand r (by simpa [hops] using hr)
    refine ⟨_, ?_, lowerBranchIf_typed hC htyped t.toBitVec (BitVec.ofNat 32 (block + 1))⟩
    simp only [hops, List.getElem?_cons_succ, List.getElem?_cons_zero, branchTarget,
      List.take_succ_cons, List.take_zero, ha]
  case readSwitch =>
    obtain ⟨k, hops, hk⟩ := (switchViolations_eq_nil_iff m i).mp hoperands
    simp only [hops]
    exact ⟨_, rfl, lowerReadSwitch_typed hC hbelow hk⟩
  case nop => exact ⟨_, rfl, Typed.nop.body⟩
  all_goals
    obtain ⟨hlength, hvalue⟩ := (plainViolations_eq_nil_iff i).mp hoperands
    rw [hop] at hlength
  case load => exact lowerLoad_typed hC hbelow hvalue hlength
  case store => exact lowerStore_typed hC hbelow hvalue hlength
  case min | max => exact lowerExtremum_typed hC hbelow hvalue _ hlength
  case neg => exact lowerNeg_typed hC hbelow hvalue hlength
  case abs => exact lowerAbs_typed hC hbelow hvalue hlength
  case not => exact lowerNot_typed hC hbelow hvalue hlength
  case const | copy => exact lowerCopy_typed hC hbelow hvalue hlength
  all_goals exact lowerDirect_typed hC hbelow hvalue _ hlength

/-! ## Blocks -/

theorem lowerInstructions_typed (hC : C.Declares m f) (block : Nat) {is : List Instruction}
    (his : ∀ i ∈ is, instructionViolations m f block i = []) :
    HasCode C (lowerInstructions m f.selector block is) [] := by
  induction is with
  | nil => exact ⟨[], rfl, .nil⟩
  | cons i is ih =>
      obtain ⟨c, hc, hfirst⟩ := lowerInstruction_typed hC (his i List.mem_cons_self)
      obtain ⟨cs, hcs, hrest⟩ := ih fun j hj => his j (List.mem_cons_of_mem _ hj)
      refine ⟨c ++ cs, ?_, hfirst.append hrest⟩
      simp only [lowerInstructions, hc, hcs]

/-- The code of a block stands in a conditional, which starts and ends with an empty stack. -/
theorem whenSelected_typed (hC : C.inside.Declares m f) (block : Nat) {code : List Instr}
    (hcode : BodyTyped C.inside code [] []) :
    BodyTyped C (whenSelected f.selector block code) [] [] := by
  have hread : Typed C (.localGet f.selector) [] [.i32] := .localGet hC.selector
  have htested : BodyTyped C [.localGet f.selector, .const (BitVec.ofNat 32 block), .binary .eq]
      [] [.i32] :=
    hread.body.append ((Typed.const.body.under [.i32]).append Typed.binary.body)
  exact htested.append (Typed.ifThen hcode).body

theorem lowerBlocks_typed (hC : C.inside.Declares m f) (block : Nat) {bs : List Block}
    (hbs : ∀ k b, bs[k]? = some b → ∀ i ∈ b, instructionViolations m f (block + k) i = []) :
    HasCode C (lowerBlocks m f.selector block bs) [] := by
  induction bs generalizing block with
  | nil => exact ⟨[], rfl, .nil⟩
  | cons b bs ih =>
      obtain ⟨c, hc, hfirst⟩ := lowerInstructions_typed hC block (hbs 0 b rfl)
      obtain ⟨cs, hcs, hrest⟩ := ih (block + 1) fun k b' hb' => by
        rw [Nat.add_assoc, Nat.add_comm 1 k]
        exact hbs (k + 1) b' hb'
      refine ⟨_, ?_, (whenSelected_typed hC block hfirst).append hrest⟩
      simp only [lowerBlocks, hc, hcs]

end Instructions

/-! ## Functions -/

section Functions

variable {C : Wasm.Context} {m : Module} {f : Function}

/-- A function is lowered to one of its signature, whose body leaves what a return takes. -/
theorem lowerFunction_typed (hC : C.inside.inside.Declares m f) (hf : f.WellFormedIn m) :
    ∃ h, lowerFunction m f = .ok h ∧ BodyTyped C h.body [] C.results := by
  obtain ⟨code, hcode, htyped⟩ := lowerBlocks_typed hC 0 fun k b hb => by
    rw [Nat.zero_add]
    exact (hf.blocks k b hb).sound
  have hbody : BodyTyped C [.loop code, .unreachable] [] C.results :=
    (Typed.loop htyped).body.append Typed.unreachable.body
  simp only [lowerFunction, hcode]
  exact ⟨_, rfl, hbody⟩

theorem lowerFunction_type {h : Wasm.Func} (hc : lowerFunction m f = .ok h) :
    h.type = f.loweredType ∧ h.locals = f.locals.toUInt32 + 1 := by
  unfold lowerFunction at hc
  cases hcode : lowerBlocks m f.selector 0 f.blocks with
  | error e => rw [hcode] at hc; cases hc
  | ok code => rw [hcode] at hc; cases hc; exact ⟨rfl, rfl⟩

end Functions

end MutantGate
