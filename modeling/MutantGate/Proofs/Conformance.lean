import Mathlib.Algebra.Order.Ring.Nat
import Mathlib.Data.List.Nodup
import Mathlib.Tactic.MkIffOfInductiveProp
import MutantGate.Proofs.WellFormed
import MutantGate.Validation
/-!
# Diagnosis decides conformance

What a module has to look like can be said without any checker: which names differ, what
kinds of operands each operation takes, which indices have to lead somewhere, where a block
ends.  A module conforms exactly if the diagnosis finds nothing, and an instruction breaks
one of its rules exactly if some diagnostic names its position, whatever else is wrong with
the module.

## What is proved

`Module.Conforms` states the rules, without reference to the diagnosis.  For every module in which
the registers of each function can be counted in 64 bits, the list of diagnostics is empty, the gate
opens, and the report answers yes to whatever sink it writes, exactly if the module conforms.  And
no rule hides another one: in a function whose name is its own, an instruction is named by some
diagnostic exactly if it breaks a rule where it stands.

## What is left outside

Which diagnostic it is that names an instruction, and how many there are.  A place is told by the
name of its function, so of two functions with one name the places cannot be told apart; that two
names are the same is itself found.  What happens beyond 64 bits is said in `Proofs.RegisterCounts`.
-/

namespace MutantGate

/-! ## The rules -/

/-- What can be asked of an operand: a word to compute with, or an index of one sort. -/
inductive OperandKind where
  | word
  | block
  | function
  | switch
  deriving DecidableEq, Repr

/-- The kind an operand has. -/
def Operand.kind : Operand → OperandKind
  | .register _ | .immediate _ => .word
  | .block _ => .block
  | .function _ => .function
  | .switch _ => .switch

/-- What an operand refers to is there: a parameter or local variable or a block of the
function, a function or a switch of the module. -/
def Operand.InRange (m : Module) (f : Function) : Operand → Prop
  | .register r => r.index.toNat < f.params.toNat + f.locals.toNat
  | .immediate _ => True
  | .block t => t.toNat < f.blocks.length
  | .function k => k.toNat < m.functions.length
  | .switch k => k.toNat < m.switches.length

instance (m : Module) (f : Function) : (o : Operand) → Decidable (o.InRange m f)
  | .register _ | .block _ | .function _ | .switch _ =>
    inferInstanceAs (Decidable (_ < _))
  | .immediate _ => inferInstanceAs (Decidable True)

/-- The function that a call of a module leads to. -/
def Instruction.calleeIn? (m : Module) (i : Instruction) : Option Function :=
  i.callee?.bind fun k => m.functions[k.toNat]?

/-- The operations that close a block. -/
def closingOpcodes : List Opcode := [.branch, .branchIf, .ret]

/-- The operations that have no result, calls apart. -/
def resultlessOpcodes : List Opcode := [.store, .branch, .branchIf, .ret, .nop]

/-- The kinds of operands an instruction is to have, one for each operand. -/
def Instruction.operandKinds (m : Module) (f : Function) (i : Instruction) : List OperandKind :=
  match i.opcode with
  | .nop => []
  | .neg | .abs | .not | .const | .copy | .load => [.word]
  | .branch => [.block]
  | .branchIf => [.word, .block]
  | .readSwitch => [.switch]
  | .call =>
    .function :: List.replicate ((i.calleeIn? m).elim 0 fun g => g.params.toNat) .word
  | .ret =>
    match f.returns with
    | .void => []
    | .int => [.word]
  | _ => [.word, .word]

/-- An instruction keeps all rules where it stands. -/
@[mk_iff]
structure Instruction.ConformsAt (m : Module) (f : Function) (block index : Nat)
    (i : Instruction) : Prop where
  /-- It closes a block exactly if it is the last one of its block. -/
  closing : i.opcode ∈ closingOpcodes ↔ f.blocks[block]?.map List.length = some (index + 1)
  operands : i.operands.map Operand.kind = i.operandKinds m f
  operandsInRange : ∀ o ∈ i.operands, o.InRange m f
  destInRange : ∀ r ∈ i.dest, (Operand.register r).InRange m f
  /-- A conditional branch has a block to go on with. -/
  fallthrough : i.opcode = .branchIf → block + 1 < f.blocks.length
  resultless : i.opcode ∈ resultlessOpcodes → i.dest = none
  voidCall : ∀ g ∈ i.calleeIn? m, g.returns = .void → i.dest = none

instance (m : Module) (f : Function) (block index : Nat) (i : Instruction) :
    Decidable (i.ConformsAt m f block index) :=
  decidable_of_iff' _ (Instruction.conformsAt_iff m f block index i)

/-- A module keeps all rules. -/
structure Module.Conforms (m : Module) : Prop where
  named : ∀ f ∈ m.functions, f.name ≠ ""
  namesDistinct : (m.functions.map Function.name).Nodup
  switchesDistinct : m.switches.Nodup
  hasBlocks : ∀ f ∈ m.functions, f.blocks ≠ []
  hasInstructions : ∀ f ∈ m.functions, ∀ b ∈ f.blocks, b ≠ []
  instructions : ∀ f ∈ m.functions, ∀ block index i,
    f.instruction? block index = some i → i.ConformsAt m f block index

/-! ## Operands -/

variable {m : Module} {f : Function} {i : Instruction} {block index : Nat}

theorem Operand.kind_eq_word_iff (o : Operand) : o.kind = .word ↔ o.isValue = true := by
  cases o <;> simp [Operand.kind, Operand.isValue]

theorem Operand.kind_eq_block_iff (o : Operand) : o.kind = .block ↔ ∃ t, o = .block t := by
  cases o <;> simp [Operand.kind]

theorem Operand.kind_eq_function_iff (o : Operand) :
    o.kind = .function ↔ ∃ k, o = .function k := by
  cases o <;> simp [Operand.kind]

theorem Operand.kind_eq_switch_iff (o : Operand) : o.kind = .switch ↔ ∃ k, o = .switch k := by
  cases o <;> simp [Operand.kind]

theorem kinds_eq_replicate_iff (n : Nat) (operands : List Operand) :
    operands.map Operand.kind = List.replicate n .word ↔
      operands.length = n ∧ ∀ o ∈ operands, o.isValue = true := by
  simp [List.eq_replicate_iff, Operand.kind_eq_word_iff]

/-- An operand that is an index of some sort leads somewhere. -/
def Operand.Leads (m : Module) (f : Function) (o : Operand) : Prop :=
  o.isValue = false → o.InRange m f

theorem Operand.leads_of_isValue {o : Operand} (ho : o.isValue = true) : o.Leads m f :=
  fun h => absurd (ho.symm.trans h) (by decide)

theorem registers_toNat (hf : f.params.toNat + f.locals.toNat < 2 ^ 64) :
    f.registers.toNat = f.params.toNat + f.locals.toNat := by
  rw [Function.registers, UInt64.toNat_add, Nat.mod_eq_of_lt hf]

/-- The ranges of registers, and those of all other references. -/
theorem inRange_iff (hf : f.params.toNat + f.locals.toNat < 2 ^ 64) :
    ((∀ o ∈ i.operands, o.InRange m f) ∧
        ∀ r ∈ i.dest, (Operand.register r).InRange m f) ↔
      i.RegistersBelow f.registers.toNat ∧ ∀ o ∈ i.operands, o.Leads m f := by
  rw [registers_toNat hf]
  constructor
  · rintro ⟨hoperands, hdest⟩
    exact ⟨⟨hdest, fun r hr => hoperands _ hr⟩, fun o ho _ => hoperands o ho⟩
  · rintro ⟨hregisters, hleads⟩
    refine ⟨fun o ho => ?_, hregisters.dest⟩
    cases o with
    | register r => exact hregisters.operand r ho
    | immediate v => trivial
    | block t | function k | switch k => exact hleads _ ho rfl

/-! ## One operation at a time -/

/-- The rules for the operands of an instruction, the ranges of registers apart. -/
structure Instruction.OperandsConform (m : Module) (f : Function) (block : Nat)
    (i : Instruction) : Prop where
  kinds : i.operands.map Operand.kind = i.operandKinds m f
  leads : ∀ o ∈ i.operands, o.Leads m f
  fallthrough : i.opcode = .branchIf → block + 1 < f.blocks.length
  voidCall : ∀ g ∈ i.calleeIn? m, g.returns = .void → i.dest = none

/-- The rule for calls says nothing about other operations. -/
theorem Instruction.voidCall_of_ne_call (h : i.opcode ≠ .call) :
    ∀ g ∈ i.calleeIn? m, g.returns = .void → i.dest = none := by
  have hcallee : i.callee? = none := by
    unfold Instruction.callee?
    split
    · exact absurd ‹_› h
    · rfl
  intro g hg
  rw [Instruction.calleeIn?, hcallee] at hg
  exact absurd hg (Option.not_mem_none g)

/-- The rules for operands that are all to be words. -/
theorem Instruction.operandsConform_words_iff {n : Nat} (hcall : i.opcode ≠ .call)
    (hbranchIf : i.opcode ≠ .branchIf)
    (hkinds : i.operandKinds m f = List.replicate n .word) :
    i.OperandsConform m f block ↔
      i.operands.length = n ∧ ∀ o ∈ i.operands, o.isValue = true := by
  rw [← kinds_eq_replicate_iff, ← hkinds]
  constructor
  · exact fun h => h.kinds
  · intro h
    refine ⟨h, fun o ho => ?_, fun hop => absurd hop hbranchIf, voidCall_of_ne_call hcall⟩
    exact Operand.leads_of_isValue (((kinds_eq_replicate_iff _ _).mp (h.trans hkinds)).2 o ho)

theorem plain_operandsConform_iff
    (hop : i.opcode ∉ [Opcode.call, .ret, .branch, .branchIf, .readSwitch]) :
    i.OperandsConform m f block ↔ plainViolations i = [] := by
  have hkinds : i.operandKinds m f = List.replicate i.opcode.operandCount .word := by
    unfold Instruction.operandKinds
    cases h : i.opcode <;> simp [h] at hop <;> rfl
  simp only [List.mem_cons, not_or] at hop
  rw [Instruction.operandsConform_words_iff hop.1 hop.2.2.2.1 hkinds,
    plainViolations_eq_nil_iff]

theorem ret_operandsConform_iff (hop : i.opcode = .ret) :
    i.OperandsConform m f block ↔ returnViolations f i = [] := by
  have hkinds : i.operandKinds m f = List.replicate f.returns.count .word := by
    simp only [Instruction.operandKinds, hop]
    cases f.returns <;> rfl
  rw [Instruction.operandsConform_words_iff (by simp [hop]) (by simp [hop]) hkinds,
    returnViolations_eq_nil_iff]

theorem branch_operandsConform_iff (hop : i.opcode = .branch) :
    i.OperandsConform m f block ↔ branchViolations f i = [] := by
  have hkinds : i.operandKinds m f = [.block] := by simp [Instruction.operandKinds, hop]
  rw [branchViolations_eq_nil_iff]
  constructor
  · rintro ⟨hmap, hleads, -, -⟩
    rw [hkinds, List.map_eq_singleton_iff] at hmap
    obtain ⟨o, hoperands, ho⟩ := hmap
    obtain ⟨t, rfl⟩ := (Operand.kind_eq_block_iff o).mp ho
    exact ⟨t, hoperands, hleads (.block t) (by simp [hoperands]) rfl⟩
  · rintro ⟨t, hoperands, ht⟩
    refine ⟨by rw [hkinds, hoperands]; rfl, ?_, by simp [hop],
      Instruction.voidCall_of_ne_call (by simp [hop])⟩
    simpa [hoperands, Operand.Leads, Operand.InRange] using fun _ => ht

theorem branchIf_operandsConform_iff (hop : i.opcode = .branchIf) :
    i.OperandsConform m f block ↔ branchIfViolations f block i = [] := by
  have hkinds : i.operandKinds m f = [.word, .block] := by simp [Instruction.operandKinds, hop]
  rw [branchIfViolations_eq_nil_iff]
  constructor
  · rintro ⟨hmap, hleads, hnext, -⟩
    rw [hkinds, List.map_eq_cons_iff] at hmap
    obtain ⟨c, rest, hoperands, hc, hrest⟩ := hmap
    obtain ⟨o, rfl, ho⟩ := List.map_eq_singleton_iff.mp hrest
    obtain ⟨t, rfl⟩ := (Operand.kind_eq_block_iff o).mp ho
    exact ⟨c, t, hoperands, (Operand.kind_eq_word_iff c).mp hc,
      hleads (.block t) (by simp [hoperands]) rfl, hnext hop⟩
  · rintro ⟨c, t, hoperands, hc, ht, hnext⟩
    refine ⟨?_, ?_, fun _ => hnext, Instruction.voidCall_of_ne_call (by simp [hop])⟩
    · rw [hkinds, hoperands, List.map_cons, (Operand.kind_eq_word_iff c).mpr hc]
      rfl
    · rw [hoperands, List.forall_mem_cons]
      exact ⟨Operand.leads_of_isValue hc, by
        simpa [Operand.Leads, Operand.InRange] using fun _ => ht⟩

theorem readSwitch_operandsConform_iff (hop : i.opcode = .readSwitch) :
    i.OperandsConform m f block ↔ switchViolations m i = [] := by
  have hkinds : i.operandKinds m f = [.switch] := by simp [Instruction.operandKinds, hop]
  rw [switchViolations_eq_nil_iff]
  constructor
  · rintro ⟨hmap, hleads, -, -⟩
    rw [hkinds, List.map_eq_singleton_iff] at hmap
    obtain ⟨o, hoperands, ho⟩ := hmap
    obtain ⟨k, rfl⟩ := (Operand.kind_eq_switch_iff o).mp ho
    exact ⟨k, hoperands, hleads (.switch k) (by simp [hoperands]) rfl⟩
  · rintro ⟨k, hoperands, hk⟩
    refine ⟨by rw [hkinds, hoperands]; rfl, ?_, by simp [hop],
      Instruction.voidCall_of_ne_call (by simp [hop])⟩
    simpa [hoperands, Operand.Leads, Operand.InRange] using fun _ => hk

/-- Where a call leads is read off its first operand. -/
theorem Instruction.calleeIn?_call (hop : i.opcode = .call) {k : UInt32} {args : List Operand}
    (hoperands : i.operands = .function k :: args) :
    i.calleeIn? m = m.functions[k.toNat]? := by
  simp [Instruction.calleeIn?, Instruction.callee?, hop, hoperands]

theorem call_operandsConform_iff (hop : i.opcode = .call) :
    i.OperandsConform m f block ↔ callViolations m i = [] := by
  have hkinds : i.operandKinds m f =
      .function :: List.replicate ((i.calleeIn? m).elim 0 fun g => g.params.toNat) .word := by
    simp [Instruction.operandKinds, hop]
  rw [callViolations_eq_nil_iff]
  constructor
  · rintro ⟨hmap, hleads, -, hvoid⟩
    rw [hkinds, List.map_eq_cons_iff] at hmap
    obtain ⟨o, args, hoperands, ho, hargs⟩ := hmap
    obtain ⟨k, rfl⟩ := (Operand.kind_eq_function_iff o).mp ho
    have hk : k.toNat < m.functions.length := hleads (.function k) (by simp [hoperands]) rfl
    have hcallee : i.calleeIn? m = some m.functions[k.toNat] := by
      rw [Instruction.calleeIn?_call hop hoperands, List.getElem?_eq_getElem hk]
    rw [hcallee, kinds_eq_replicate_iff] at hargs
    exact ⟨k, args, m.functions[k.toNat], hoperands, List.getElem?_eq_getElem hk, hargs.1,
      hargs.2, hvoid _ hcallee⟩
  · rintro ⟨k, args, g, hoperands, hg, hlength, hvalues, hvoid⟩
    have hcallee : i.calleeIn? m = some g := by
      rw [Instruction.calleeIn?_call hop hoperands, hg]
    have hk : k.toNat < m.functions.length := (List.getElem?_eq_some_iff.mp hg).1
    refine ⟨?_, ?_, by simp [hop], fun g' hg' => ?_⟩
    · rw [hkinds, hoperands, hcallee, List.map_cons,
        (kinds_eq_replicate_iff _ _).mpr ⟨hlength, hvalues⟩]
      rfl
    · rw [hoperands, List.forall_mem_cons]
      exact ⟨fun _ => hk, fun o ho => Operand.leads_of_isValue (hvalues o ho)⟩
    · rw [← Option.some.inj (hcallee.symm.trans hg')]
      exact hvoid

/-- The diagnosis finds nothing wrong with the operands of an instruction exactly if they
keep the rules. -/
theorem operandViolations_eq_nil_iff (m : Module) (f : Function) (block : Nat)
    (i : Instruction) :
    operandViolations m f block i = [] ↔ i.OperandsConform m f block := by
  unfold operandViolations
  split
  · exact (call_operandsConform_iff ‹_›).symm
  · exact (ret_operandsConform_iff ‹_›).symm
  · exact (branch_operandsConform_iff ‹_›).symm
  · exact (branchIf_operandsConform_iff ‹_›).symm
  · exact (readSwitch_operandsConform_iff ‹_›).symm
  · rename_i hcall hret hbranch hbranchIf hswitch
    refine (plain_operandsConform_iff ?_).symm
    simpa using ⟨hcall, hret, hbranch, hbranchIf, hswitch⟩

/-! ## Instructions where they stand -/

theorem isTerminator_iff (o : Opcode) : o.isTerminator = true ↔ o ∈ closingOpcodes := by
  cases o <;> decide

theorem destViolations_eq_nil_iff_resultless (i : Instruction) :
    destViolations i = [] ↔ (i.opcode ∈ resultlessOpcodes → i.dest = none) := by
  have hop : i.opcode ∈ resultlessOpcodes ↔
      i.opcode ≠ .call ∧ i.opcode.producesValue = false := by
    cases i.opcode <;> decide
  rw [destViolations_eq_nil_iff, hop, and_imp]

/-- What the diagnosis of a block looks at in one instruction of it, and what conformance
asks of that instruction. -/
theorem violations_eq_nil_iff_conformsAt (hf : f.params.toNat + f.locals.toNat < 2 ^ 64)
    {b : Block} (hb : f.blocks[block]? = some b) :
    closingViolations (index + 1 == b.length) i ++ instructionViolations m f block i = [] ↔
      i.ConformsAt m f block index := by
  have hclosing : i.opcode.isTerminator = (index + 1 == b.length) ↔
      (i.opcode ∈ closingOpcodes ↔ f.blocks[block]?.map List.length = some (index + 1)) := by
    rw [Bool.eq_iff_iff, isTerminator_iff, hb, Option.map_some, Option.some.injEq, beq_iff_eq,
      eq_comm (a := b.length)]
  rw [List.append_eq_nil_iff, closingViolations_eq_nil_iff, hclosing,
    instructionViolations_eq_nil_iff, operandViolations_eq_nil_iff,
    destViolations_eq_nil_iff_resultless]
  constructor
  · rintro ⟨hclose, hregisters, ⟨hkinds, hleads, hnext, hvoid⟩, hresult⟩
    obtain ⟨hoperands, hdest⟩ := (inRange_iff hf).mpr ⟨hregisters, hleads⟩
    exact ⟨hclose, hkinds, hoperands, hdest, hnext, hresult, hvoid⟩
  · rintro ⟨hclose, hkinds, hoperands, hdest, hnext, hresult, hvoid⟩
    obtain ⟨hregisters, hleads⟩ := (inRange_iff hf).mp ⟨hoperands, hdest⟩
    exact ⟨hclose, hregisters, ⟨hkinds, hleads, hnext, hvoid⟩, hresult⟩

/-- Some diagnostic of a function is at a position exactly if an instruction stands there
and breaks a rule. -/
theorem exists_functionDiagnostic_at_iff (hf : f.params.toNat + f.locals.toNat < 2 ^ 64)
    (name : String) (block index : Nat) :
    (∃ d ∈ functionDiagnostics m f, d.place = .instruction name block index) ↔
      name = f.name ∧
        ∃ i, f.instruction? block index = some i ∧ ¬ i.ConformsAt m f block index := by
  constructor
  · rintro ⟨d, hd, hplace⟩
    obtain ⟨-, rfl⟩ | ⟨block', b, hb, hd⟩ := mem_functionDiagnostics_iff.mp hd
    · cases hplace
    · obtain ⟨-, rfl⟩ | ⟨index', i, v, hi, hv, rfl⟩ := mem_blockDiagnostics_iff.mp hd
      · cases hplace
      · cases hplace
        refine ⟨rfl, i, Option.bind_eq_some_iff.mpr ⟨b, hb, hi⟩, fun hconforms => ?_⟩
        rw [(violations_eq_nil_iff_conformsAt hf hb).mpr hconforms] at hv
        exact List.not_mem_nil hv
  · rintro ⟨rfl, i, hi, hbroken⟩
    obtain ⟨b, hb, hi⟩ := Option.bind_eq_some_iff.mp hi
    obtain ⟨v, hv⟩ := List.exists_mem_of_ne_nil _
      (mt (violations_eq_nil_iff_conformsAt hf hb).mp hbroken)
    refine ⟨⟨.instruction f.name block index, v⟩, ?_, rfl⟩
    exact mem_functionDiagnostics_iff.mpr (Or.inr ⟨block, b, hb,
      mem_blockDiagnostics_iff.mpr (Or.inr ⟨index, i, v, hi, hv, rfl⟩)⟩)

/-! ## Modules -/

/-- The diagnostics at the positions of a function whose name no other function has are its
own ones. -/
theorem Module.exists_diagnostic_at_iff
    (hm : ∀ f ∈ m.functions, f.params.toNat + f.locals.toNat < 2 ^ 64) (hf : f ∈ m.functions)
    (hunique : ∀ g ∈ m.functions, g.name = f.name → g = f) (block index : Nat) :
    (∃ d ∈ m.diagnostics, d.place = .instruction f.name block index) ↔
      ∃ d ∈ functionDiagnostics m f, d.place = .instruction f.name block index := by
  constructor
  · rintro ⟨d, hd, hplace⟩
    rcases List.mem_append.mp hd with hd | hd
    · obtain ⟨v, -, rfl⟩ := List.mem_map.mp hd
      cases hplace
    · obtain ⟨g, hg, hd⟩ := List.mem_flatMap.mp hd
      have hname := ((exists_functionDiagnostic_at_iff (hm g hg) _ _ _).mp ⟨d, hd, hplace⟩).1
      exact ⟨d, hunique g hg hname.symm ▸ hd, hplace⟩
  · rintro ⟨d, hd, hplace⟩
    exact ⟨d, List.mem_append_right _ (List.mem_flatMap_of_mem hf hd), hplace⟩

theorem Function.wellFormedIn_iff (hf : f.params.toNat + f.locals.toNat < 2 ^ 64) :
    f.WellFormedIn m ↔ f.blocks ≠ [] ∧ (∀ b ∈ f.blocks, b ≠ []) ∧
      ∀ block index i, f.instruction? block index = some i → i.ConformsAt m f block index := by
  constructor
  · rintro ⟨hblocks, hsound⟩
    refine ⟨hblocks, fun b hb => ?_, fun block index i hi => ?_⟩
    · obtain ⟨block, hblock⟩ := List.mem_iff_getElem?.mp hb
      exact (hsound block b hblock).nonempty
    · obtain ⟨b, hb, hi⟩ := Option.bind_eq_some_iff.mp hi
      have hblock := hsound block b hb
      rw [← violations_eq_nil_iff_conformsAt hf hb, List.append_eq_nil_iff,
        closingViolations_eq_nil_iff]
      exact ⟨hblock.closed index i hi, hblock.sound i (List.mem_of_getElem? hi)⟩
  · rintro ⟨hblocks, hnonempty, hconforms⟩
    refine ⟨hblocks, fun block b hb => ?_⟩
    have hviolations : ∀ index i, b[index]? = some i →
        i.opcode.isTerminator = (index + 1 == b.length) ∧
          instructionViolations m f block i = [] := by
      intro index i hi
      rw [← closingViolations_eq_nil_iff, ← List.append_eq_nil_iff,
        violations_eq_nil_iff_conformsAt hf hb]
      exact hconforms block index i (Option.bind_eq_some_iff.mpr ⟨b, hb, hi⟩)
    refine ⟨hnonempty b (List.mem_of_getElem? hb), fun index i hi => (hviolations index i hi).1,
      fun i hi => ?_⟩
    obtain ⟨index, hindex⟩ := List.mem_iff_getElem?.mp hi
    exact (hviolations index i hindex).2

theorem Module.wellFormed_iff_conforms
    (hm : ∀ f ∈ m.functions, f.params.toNat + f.locals.toNat < 2 ^ 64) :
    m.WellFormed ↔ m.Conforms := by
  constructor
  · rintro ⟨hnamed, hnames, hswitches, hfunctions⟩
    have h : ∀ f ∈ m.functions, _ := fun f hf =>
      (Function.wellFormedIn_iff (hm f hf)).mp (hfunctions f hf)
    refine ⟨fun f hf hname => hnamed ?_, hnames, hswitches, fun f hf => (h f hf).1,
      fun f hf => (h f hf).2.1, fun f hf => (h f hf).2.2⟩
    exact hname ▸ List.mem_map_of_mem hf
  · rintro ⟨hnamed, hnames, hswitches, hblocks, hnonempty, hconforms⟩
    refine ⟨fun hempty => ?_, hnames, hswitches, fun f hf => ?_⟩
    · obtain ⟨f, hf, hname⟩ := List.mem_map.mp hempty
      exact hnamed f hf hname
    · exact (Function.wellFormedIn_iff (hm f hf)).mpr
        ⟨hblocks f hf, hnonempty f hf, hconforms f hf⟩

/-! ## The three ways to ask -/

theorem Module.verify_eq_ok_iff (m : Module) (identifier : String) :
    m.verify identifier = .ok () ↔ m.diagnostics = [] := by
  unfold Module.verify Module.isWellFormed
  cases m.diagnostics <;> simp

/-- The answer of a report does not depend on the sink. -/
theorem Module.report_fst {σ : Type} (m : Module) (sink? : Option (String → StateM σ Bool))
    (s : σ) : ((m.report sink?).run s).1 = m.isWellFormed := by
  cases sink? <;> rfl

/-- The diagnosis of a module, the gate and the report decide the rules.  An instruction of a
function that no other function shares its name with is named by a diagnostic exactly if it
breaks a rule where it stands: nothing else in the module hides it. -/
theorem Module.diagnosis_decides (m : Module)
    (hm : ∀ f ∈ m.functions, f.params.toNat + f.locals.toNat < 2 ^ 64) :
    (m.diagnostics = [] ↔ m.Conforms) ∧
    (∀ identifier, m.verify identifier = .ok () ↔ m.Conforms) ∧
    (∀ (σ : Type) (sink? : Option (String → StateM σ Bool)) (s : σ),
      ((m.report sink?).run s).1 = true ↔ m.Conforms) ∧
    ∀ (k : Nat) (f : Function), m.functions[k]? = some f →
      (∀ (k' : Nat) (g : Function), m.functions[k']? = some g → g.name = f.name → k' = k) →
      ∀ block index i, f.instruction? block index = some i →
        ((∃ d ∈ m.diagnostics, d.place = .instruction f.name block index) ↔
          ¬ i.ConformsAt m f block index) := by
  have hdiagnostics : m.diagnostics = [] ↔ m.Conforms := by
    rw [← m.wellFormed_iff_conforms hm, ← m.isWellFormed_iff, Module.isWellFormed,
      List.isEmpty_iff]
  refine ⟨hdiagnostics, fun identifier => (m.verify_eq_ok_iff identifier).trans hdiagnostics,
    fun σ sink? s => ?_, fun k f hk hunique block index i hi => ?_⟩
  · rw [m.report_fst, Module.isWellFormed, List.isEmpty_iff, hdiagnostics]
  · have hf : f ∈ m.functions := List.mem_of_getElem? hk
    rw [m.exists_diagnostic_at_iff hm hf ?_, exists_functionDiagnostic_at_iff (hm f hf)]
    · constructor
      · rintro ⟨-, i', hi', hbroken⟩
        rwa [Option.some.inj (hi.symm.trans hi')]
      · exact fun hbroken => ⟨rfl, i, hi, hbroken⟩
    · intro g hg hname
      obtain ⟨k', hk'⟩ := List.mem_iff_getElem?.mp hg
      rw [hunique k' g hk' hname] at hk'
      exact Option.some.inj (hk'.symm.trans hk)

/-- A module of which almost nothing is right: two functions share their name and have no
blocks, and between them stands one that calls a function that is missing. -/
def masking : Module :=
  ⟨"masking.json",
    [⟨"shadow", 0, 0, [], .void⟩,
      ⟨"calling", 1, 0, [[], [⟨.copy, some ⟨0⟩, [.register ⟨0⟩]⟩, .call 9 none [], .retVoid]],
        .void⟩,
      ⟨"shadow", 0, 0, [], .void⟩],
    256, 1, []⟩

/-- Of the three instructions of the module the call alone is named by a diagnostic. -/
theorem Module.diagnosis_decides_masking :
    ¬ masking.Conforms ∧
    (∃ d ∈ masking.diagnostics, d.place = .instruction "calling" 1 1) ∧
    ¬ (∃ d ∈ masking.diagnostics, d.place = .instruction "calling" 1 0) ∧
    ¬ ∃ d ∈ masking.diagnostics, d.place = .instruction "calling" 1 2 := by
  obtain ⟨hdiagnostics, -, -, hat⟩ := masking.diagnosis_decides (by decide)
  have hat := hat 1 _ rfl (by
    intro k g hg hname
    match k, hg with
    | 0, hg | 2, hg => cases hg; exact absurd hname (by decide)
    | 1, _ => rfl
    | k + 3, hg => cases hg)
  refine ⟨fun h => ?_, ?_, ?_, ?_⟩
  · exact absurd (hdiagnostics.mpr h) (by decide)
  · exact (hat 1 1 _ rfl).mpr (by decide)
  · exact mt (hat 1 0 _ rfl).mp (by decide)
  · exact mt (hat 1 2 _ rfl).mp (by decide)

end MutantGate
