import Mathlib.Data.List.Basic
import MutantGate.IR.Diagnosis
/-!
# What the absence of diagnostics says

A module without diagnostics is one in which names are in order and every instruction
keeps the rules of its operation.  Each list of violations is empty exactly if the rule it
belongs to holds; from these equivalences, one for each rule, that of the whole module is
put together.

## What is proved

`Module.isWellFormed_iff`: the gate opens exactly for a module that is well-formed, in names,
terminators and single instructions.  What is said of instructions here is the absence of what the
diagnosis would find in them.

## What is left outside

A statement of the rules that does not speak of the diagnosis at all.  That is `Module.Conforms`, in
`Proofs.Conformance`.
-/

namespace MutantGate

/-! ## Operands -/

theorem valueViolations_eq_nil_iff (operands : List Operand) :
    valueViolations operands = [] ↔ ∀ o ∈ operands, o.isValue = true := by
  simp [valueViolations]

theorem targetViolations_eq_nil_iff (f : Function) (o : Option Operand) :
    targetViolations f o = [] ↔ ∃ t, o = some (.block t) ∧ t.toNat < f.blocks.length := by
  unfold targetViolations
  split
  · rename_i t
    by_cases ht : t.toNat < f.blocks.length <;> simp [ht]
  · rename_i h
    simp only [reduceCtorEq, false_iff, not_exists, not_and]
    intro t ht
    exact absurd ht (h t)

/-- All registers that an instruction names are below a bound. -/
structure Instruction.RegistersBelow (n : Nat) (i : Instruction) : Prop where
  dest : ∀ r, i.dest = some r → r.index.toNat < n
  operand : ∀ r, .register r ∈ i.operands → r.index.toNat < n

theorem registerViolations_eq_nil_iff (f : Function) (i : Instruction) :
    registerViolations f i = [] ↔ i.RegistersBelow f.registers.toNat := by
  simp only [registerViolations, List.append_eq_nil_iff]
  refine (and_congr ?_ ?_).trans ⟨fun h => ⟨h.1, h.2⟩, fun h => ⟨h.1, h.2⟩⟩
  · cases i.dest <;> simp
  · rw [List.filterMap_eq_nil_iff]
    constructor
    · intro h r hr
      simpa using h _ hr
    · intro h o ho
      cases o with
      | register r => simpa using h r ho
      | immediate _ | block _ | function _ | switch _ => rfl

/-! ## One operation at a time -/

theorem callViolations_eq_nil_iff (m : Module) (i : Instruction) :
    callViolations m i = [] ↔
      ∃ index args callee, i.operands = .function index :: args ∧
        m.functions[index.toNat]? = some callee ∧ args.length = callee.params.toNat ∧
        (∀ o ∈ args, o.isValue = true) ∧ (callee.returns = .void → i.dest = none) := by
  unfold callViolations
  split
  · rename_i index args hops
    cases hf : m.functions[index.toNat]? with
    | none => simp [hops, hf]
    | some callee =>
      simp only [List.append_eq_nil_iff, valueViolations_eq_nil_iff, hops]
      constructor
      · rintro ⟨⟨hlen, hval⟩, hdest⟩
        refine ⟨index, args, callee, rfl, hf, ?_, hval, ?_⟩
        · simpa using hlen
        · simpa using hdest
      · rintro ⟨_, _, _, heq, hf', hlen, hval, hdest⟩
        cases heq
        rw [hf] at hf'
        cases hf'
        exact ⟨⟨by simpa using hlen, hval⟩, by simpa using hdest⟩
  · rename_i h
    simp only [reduceCtorEq, false_iff, not_exists, not_and]
    intro index args _ hops
    exact absurd hops (h index args)

theorem returnViolations_eq_nil_iff (f : Function) (i : Instruction) :
    returnViolations f i = [] ↔
      i.operands.length = f.returns.count ∧ ∀ o ∈ i.operands, o.isValue = true := by
  simp [returnViolations, valueViolations_eq_nil_iff]

theorem branchViolations_eq_nil_iff (f : Function) (i : Instruction) :
    branchViolations f i = [] ↔
      ∃ t, i.operands = [.block t] ∧ t.toNat < f.blocks.length := by
  simp only [branchViolations, List.append_eq_nil_iff, targetViolations_eq_nil_iff]
  constructor
  · rintro ⟨hlen, t, ht, hlt⟩
    obtain ⟨o, ho⟩ := List.length_eq_one_iff.mp (by simpa using hlen)
    rw [ho] at ht
    exact ⟨t, by simpa [ho] using ht, hlt⟩
  · rintro ⟨t, hops, hlt⟩
    exact ⟨by simp [hops], t, by simp [hops], hlt⟩

theorem branchIfViolations_eq_nil_iff (f : Function) (block : Nat) (i : Instruction) :
    branchIfViolations f block i = [] ↔
      ∃ c t, i.operands = [c, .block t] ∧ c.isValue = true ∧ t.toNat < f.blocks.length ∧
        block + 1 < f.blocks.length := by
  simp only [branchIfViolations, List.append_eq_nil_iff, targetViolations_eq_nil_iff,
    valueViolations_eq_nil_iff]
  constructor
  · rintro ⟨⟨⟨hlen, hval⟩, t, ht, hlt⟩, hnext⟩
    obtain ⟨c, o, ho⟩ := List.length_eq_two.mp (by simpa using hlen)
    rw [ho] at ht hval
    refine ⟨c, t, ?_, ?_, hlt, by simpa using hnext⟩
    · simpa [ho] using ht
    · simpa using hval
  · rintro ⟨c, t, hops, hval, hlt, hnext⟩
    simp [hops, hval, hlt, hnext]

theorem switchViolations_eq_nil_iff (m : Module) (i : Instruction) :
    switchViolations m i = [] ↔
      ∃ k, i.operands = [.switch k] ∧ k.toNat < m.switches.length := by
  unfold switchViolations
  split
  · rename_i k hops
    by_cases hk : k.toNat < m.switches.length <;> simp [hops, hk]
  · rename_i h
    simp only [reduceCtorEq, false_iff, not_exists, not_and]
    intro k hops
    exact absurd hops (h k)

theorem plainViolations_eq_nil_iff (i : Instruction) :
    plainViolations i = [] ↔
      i.operands.length = i.opcode.operandCount ∧ ∀ o ∈ i.operands, o.isValue = true := by
  simp [plainViolations, valueViolations_eq_nil_iff]

theorem destViolations_eq_nil_iff (i : Instruction) :
    destViolations i = [] ↔
      (i.opcode ≠ .call → i.opcode.producesValue = false → i.dest = none) := by
  simp [destViolations]

/-- Nothing is wrong with an instruction exactly if its registers are there, its operands
keep the rule of the operation, and it has a destination only where it may. -/
theorem instructionViolations_eq_nil_iff (m : Module) (f : Function) (block : Nat)
    (i : Instruction) :
    instructionViolations m f block i = [] ↔
      i.RegistersBelow f.registers.toNat ∧ operandViolations m f block i = [] ∧
        destViolations i = [] := by
  simp [instructionViolations, registerViolations_eq_nil_iff]

theorem closingViolations_eq_nil_iff (isLast : Bool) (i : Instruction) :
    closingViolations isLast i = [] ↔ i.opcode.isTerminator = isLast := by
  unfold closingViolations
  cases isLast <;> cases i.opcode.isTerminator <;> simp

/-! ## Blocks, functions and the module -/

/-- A block with which nothing is wrong. -/
structure Block.WellFormedIn (m : Module) (f : Function) (block : Nat) (b : Block) : Prop where
  nonempty : b ≠ []
  /-- A terminator stands at the end and nowhere else. -/
  closed : ∀ j i, b[j]? = some i → i.opcode.isTerminator = (j + 1 == b.length)
  sound : ∀ i ∈ b, instructionViolations m f block i = []

/-- A function with which nothing is wrong. -/
structure Function.WellFormedIn (m : Module) (f : Function) : Prop where
  nonempty : f.blocks ≠ []
  blocks : ∀ block b, f.blocks[block]? = some b → Block.WellFormedIn m f block b

/-- A module with which nothing is wrong. -/
structure Module.WellFormed (m : Module) : Prop where
  named : "" ∉ m.functions.map Function.name
  namesDistinct : (m.functions.map Function.name).Nodup
  switchesDistinct : m.switches.Nodup
  functions : ∀ f ∈ m.functions, f.WellFormedIn m

theorem blockDiagnostics_eq_nil_iff (m : Module) (f : Function) (block : Nat) (b : Block) :
    blockDiagnostics m f block b = [] ↔ b.WellFormedIn m f block := by
  unfold blockDiagnostics
  cases b with
  | nil =>
    simp only [List.isEmpty_nil, if_pos, reduceCtorEq, false_iff]
    exact fun h => h.nonempty rfl
  | cons i is =>
    simp only [List.isEmpty_cons, Bool.false_eq_true, if_false, List.flatMap_eq_nil_iff,
      List.map_eq_nil_iff, List.append_eq_nil_iff, closingViolations_eq_nil_iff]
    constructor
    · intro h
      refine ⟨List.cons_ne_nil _ _, fun j k hk => ?_, fun k hk => ?_⟩
      · exact (h (k, j) (List.mem_zipIdx_iff_getElem?.mpr hk)).1
      · obtain ⟨j, hj⟩ := List.mem_iff_getElem?.mp hk
        exact (h (k, j) (List.mem_zipIdx_iff_getElem?.mpr hj)).2
    · rintro ⟨_, hclosed, hsound⟩ ⟨k, j⟩ hk
      have hj := List.mem_zipIdx_iff_getElem?.mp hk
      exact ⟨hclosed j k hj, hsound k (List.mem_of_getElem? hj)⟩

/-- What the diagnosis of a block can consist of. -/
theorem mem_blockDiagnostics_iff {m : Module} {f : Function} {block : Nat} {b : Block}
    {d : Diagnostic} :
    d ∈ blockDiagnostics m f block b ↔
      (b = [] ∧ d = ⟨.block f.name block, .emptyBlock⟩) ∨
      ∃ index i v, b[index]? = some i ∧
        v ∈ closingViolations (index + 1 == b.length) i ++ instructionViolations m f block i ∧
        d = ⟨.instruction f.name block index, v⟩ := by
  unfold blockDiagnostics
  split
  · rename_i hempty
    simp [List.isEmpty_iff.mp hempty]
  · rename_i hnonempty
    rw [List.isEmpty_iff] at hnonempty
    constructor
    · intro hd
      obtain ⟨⟨i, index⟩, hi, hd⟩ := List.mem_flatMap.mp hd
      obtain ⟨v, hv, rfl⟩ := List.mem_map.mp hd
      exact Or.inr ⟨index, i, v, List.mem_zipIdx_iff_getElem?.mp hi, hv, rfl⟩
    · rintro (⟨hempty, -⟩ | ⟨index, i, v, hi, hv, rfl⟩)
      · exact absurd hempty hnonempty
      · exact List.mem_flatMap.mpr
          ⟨(i, index), List.mem_zipIdx_iff_getElem?.mpr hi, List.mem_map_of_mem hv⟩

/-- What the diagnosis of a function can consist of. -/
theorem mem_functionDiagnostics_iff {m : Module} {f : Function} {d : Diagnostic} :
    d ∈ functionDiagnostics m f ↔
      (f.blocks = [] ∧ d = ⟨.function f.name, .noBlocks⟩) ∨
      ∃ block b, f.blocks[block]? = some b ∧ d ∈ blockDiagnostics m f block b := by
  unfold functionDiagnostics
  split
  · rename_i hempty
    simp [List.isEmpty_iff.mp hempty]
  · rename_i hnonempty
    rw [List.isEmpty_iff] at hnonempty
    constructor
    · intro hd
      obtain ⟨⟨b, block⟩, hb, hd⟩ := List.mem_flatMap.mp hd
      exact Or.inr ⟨block, b, List.mem_zipIdx_iff_getElem?.mp hb, hd⟩
    · rintro (⟨hempty, -⟩ | ⟨block, b, hb, hd⟩)
      · exact absurd hempty hnonempty
      · exact List.mem_flatMap.mpr ⟨(b, block), List.mem_zipIdx_iff_getElem?.mpr hb, hd⟩

theorem functionDiagnostics_eq_nil_iff (m : Module) (f : Function) :
    functionDiagnostics m f = [] ↔ f.WellFormedIn m := by
  unfold functionDiagnostics
  by_cases hblocks : f.blocks = []
  · simp only [hblocks, List.isEmpty_nil, if_pos, reduceCtorEq, false_iff]
    exact fun h => h.nonempty hblocks
  · simp only [List.isEmpty_eq_false_iff.mpr hblocks, Bool.false_eq_true, if_false,
      List.flatMap_eq_nil_iff, blockDiagnostics_eq_nil_iff]
    constructor
    · intro h
      exact ⟨hblocks, fun block b hb => h (b, block) (List.mem_zipIdx_iff_getElem?.mpr hb)⟩
    · rintro ⟨_, h⟩ ⟨b, block⟩ hb
      exact h block b (List.mem_zipIdx_iff_getElem?.mp hb)

/-- Names that differ from each other and from those before, the first one apart. -/
theorem distinct_cons_iff (s : String) (names before : List String) :
    ((s :: names).Nodup ∧ ∀ t ∈ s :: names, t ∉ before) ↔
      s ∉ before ∧ names.Nodup ∧ ∀ t ∈ names, t ∉ s :: before := by
  simp only [List.nodup_cons, List.mem_cons, not_or]
  constructor
  · rintro ⟨⟨hmem, hnames⟩, hbefore⟩
    refine ⟨hbefore s (Or.inl rfl), hnames, fun t ht => ⟨?_, hbefore t (Or.inr ht)⟩⟩
    rintro rfl
    exact hmem ht
  · rintro ⟨hs, hnames, hbefore⟩
    refine ⟨⟨fun hmem => (hbefore s hmem).1 rfl, hnames⟩, ?_⟩
    rintro t (rfl | ht)
    · exact hs
    · exact (hbefore t ht).2

theorem repeated_eq_nil_iff (violation : String → Violation) (names before : List String) :
    repeated violation before names = [] ↔ names.Nodup ∧ ∀ s ∈ names, s ∉ before := by
  induction names generalizing before with
  | nil => simp [repeated]
  | cons s names ih =>
      rw [repeated, List.append_eq_nil_iff, ih, distinct_cons_iff]
      exact and_congr_left' (by simp)

theorem nameViolations_eq_nil_iff (names before : List String) :
    nameViolations before names = [] ↔ "" ∉ names ∧ names.Nodup ∧ ∀ s ∈ names, s ∉ before := by
  induction names generalizing before with
  | nil => simp [nameViolations]
  | cons s names ih =>
      rw [distinct_cons_iff, nameViolations]
      by_cases hempty : s = ""
      · subst hempty
        simp
      · have hne : s.isEmpty = false := by simpa [String.isEmpty_iff] using hempty
        rw [hne, if_neg Bool.false_ne_true, List.append_eq_nil_iff, ih, List.mem_cons, not_or]
        simp [Ne.symm hempty]
        tauto

/-- There are no diagnostics exactly if every rule is kept. -/
theorem Module.isWellFormed_iff (m : Module) : m.isWellFormed = true ↔ m.WellFormed := by
  simp only [Module.isWellFormed, Module.diagnostics, List.isEmpty_iff, List.append_eq_nil_iff,
    List.map_eq_nil_iff, List.flatMap_eq_nil_iff, functionDiagnostics_eq_nil_iff,
    nameViolations_eq_nil_iff, repeated_eq_nil_iff]
  constructor
  · rintro ⟨⟨⟨hnamed, hnames, -⟩, hswitches, -⟩, hfunctions⟩
    exact ⟨hnamed, hnames, hswitches, hfunctions⟩
  · rintro ⟨hnamed, hnames, hswitches, hfunctions⟩
    exact ⟨⟨⟨hnamed, hnames, fun _ _ => List.not_mem_nil⟩, hswitches,
      fun _ _ => List.not_mem_nil⟩, hfunctions⟩

end MutantGate
