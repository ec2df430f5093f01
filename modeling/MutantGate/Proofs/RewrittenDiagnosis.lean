import MutantGate.Proofs.ApplicationOutcome
/-!
# A replacement makes no module worse

The diagnosis of a module is the list of what it finds in one place after the other.  A
replacement changes the part of this list that belongs to the instruction it is for, and no
other: what is wrong with an instruction depends on the rest of the module only through the
outlines of functions, and those stay.  In the one part that changes there are at most as many
diagnostics as before, whatever else is wrong with the instruction or with the module.

## What is proved

For every module, every instruction in it and every replacement that an operator offers for it: the
two lists of diagnostics are the same in front of one part and behind it, this part is no longer
than before, and for each other place the diagnostics are the same.

## What is left outside

Which diagnostics go.  A replacement may put something right, as the constant does that takes the
place of a call to a missing function.
-/

namespace MutantGate

/-! ## Lists that differ in one part -/

/-- Two lists that are the same but for one part. -/
def DifferIn {α : Type} (old new xs ys : List α) : Prop :=
  ∃ before after, xs = before ++ old ++ after ∧ ys = before ++ new ++ after

namespace DifferIn

variable {α β : Type} {old new xs ys : List α}

theorem refl (old new : List α) : DifferIn old new old new := ⟨[], [], by simp, by simp⟩

/-- The same in front and behind makes no further difference. -/
theorem within (h : DifferIn old new xs ys) (front back : List α) :
    DifferIn old new (front ++ xs ++ back) (front ++ ys ++ back) := by
  obtain ⟨before, after, rfl, rfl⟩ := h
  exact ⟨front ++ before, after ++ back, by simp only [List.append_assoc],
    by simp only [List.append_assoc]⟩

theorem behind (h : DifferIn old new xs ys) (front : List α) :
    DifferIn old new (front ++ xs) (front ++ ys) := by
  simpa only [List.append_nil] using h.within front []

/-- One element that gives way to another makes a difference in its own part. -/
theorem flatMap_zipIdx_modify {as : List β} {k : Nat} {a : β} {change : β → β}
    {g : β × Nat → List α} (ha : as[k]? = some a)
    (h : DifferIn old new (g (a, k)) (g (change a, k))) :
    DifferIn old new (as.zipIdx.flatMap g) ((as.modify k change).zipIdx.flatMap g) := by
  obtain ⟨hk, rfl⟩ := List.getElem?_eq_some_iff.mp ha
  obtain ⟨front, b, back, hsplit, rfl, hmodify⟩ := List.exists_of_modify change hk
  obtain rfl : b = as[front.length] := by simp [hsplit]
  have hparts : ∀ c, (front ++ c :: back).zipIdx.flatMap g =
      front.zipIdx.flatMap g ++ g (c, front.length) ++
        (back.zipIdx (front.length + 1)).flatMap g := by
    intro c
    rw [List.zipIdx_append, List.zipIdx_cons, List.flatMap_append, List.flatMap_cons, Nat.zero_add,
      List.append_assoc]
  have hold := congrArg (fun as => as.zipIdx.flatMap g) hsplit
  rw [hmodify, hparts, hold.trans (hparts _)]
  exact h.within _ _

theorem flatMap_modify {as : List β} {k : Nat} {a : β} {change : β → β} {g : β → List α}
    (ha : as[k]? = some a) (h : DifferIn old new (g a) (g (change a))) :
    DifferIn old new (as.flatMap g) ((as.modify k change).flatMap g) := by
  have hfst : ∀ bs : List β, bs.zipIdx.flatMap (fun p => g p.1) = bs.flatMap g := by
    intro bs
    rw [← List.flatMap_map Prod.fst g, List.zipIdx_map_fst]
  rw [← hfst, ← hfst]
  exact flatMap_zipIdx_modify ha h

/-- Elements that are in neither part are the same, and in the same order. -/
theorem filter_eq {p : α → Bool} (h : DifferIn old new xs ys) (hold : ∀ a ∈ old, p a = false)
    (hnew : ∀ a ∈ new, p a = false) : ys.filter p = xs.filter p := by
  obtain ⟨before, after, rfl, rfl⟩ := h
  have hnone : ∀ part : List α, (∀ a ∈ part, p a = false) → part.filter p = [] := by
    intro part hpart
    exact List.filter_eq_nil_iff.mpr fun a ha => by simp [hpart a ha]
  simp only [List.filter_append, hnone old hold, hnone new hnew]

theorem countP_le {p : α → Bool} (h : DifferIn old new xs ys) (hle : new.countP p ≤ old.countP p) :
    ys.countP p ≤ xs.countP p := by
  obtain ⟨before, after, rfl, rfl⟩ := h
  simp only [List.countP_append]
  omega

end DifferIn

/-! ## How much is wrong with a replacement -/

section Violations

variable {m m' : Module} {f g : Function} {block : Nat} {i j : Instruction}

theorem closingViolations_length (isLast : Bool)
    (h : j.opcode.isTerminator = i.opcode.isTerminator) :
    (closingViolations isLast j).length = (closingViolations isLast i).length := by
  unfold closingViolations
  rw [h]
  cases isLast <;> cases i.opcode.isTerminator <;> rfl

theorem destViolations_of_producesValue (h : i.opcode.producesValue = true) :
    destViolations i = [] :=
  (destViolations_eq_nil_iff i).mpr fun _ hnone => absurd (h.symm.trans hnone) (by decide)

/-- For plain operations the number of violations depends on the operation only through the
number of its operands. -/
theorem plainViolations_length (hoperands : j.operands = i.operands)
    (hcount : j.opcode.operandCount = i.opcode.operandCount) :
    (plainViolations j).length = (plainViolations i).length := by
  simp only [plainViolations, hoperands, hcount, List.length_append]
  split <;> rfl

/-- A constant has what is wrong with its destination in common with every instruction that has
the same destination. -/
theorem registerViolations_const_start {d : Register} (hdest : i.dest = some d) (v : Value) :
    registerViolations f (.const d v) <+: registerViolations f i := by
  have hconst : registerViolations f (.const d v) =
      (if d.index.toNat < f.registers.toNat then []
        else [.destOutOfRange d f.registers.toNat]) ++ [] := rfl
  rw [hconst, List.append_nil, registerViolations, hdest]
  exact List.prefix_append _ _

/-- No more is wrong with a replacement than with the instruction. -/
theorem Instruction.ReplacedBy.violations_length_le (h : i.ReplacedBy j) :
    (instructionViolations m f block j).length ≤ (instructionViolations m f block i).length := by
  cases h with
  | @exchange new hnew =>
      have hplain := plainViolations_length (i := i) (j := { i with opcode := new }) rfl
        hnew.operands
      have hdest : destViolations i = [] :=
        destViolations_of_producesValue (Opcode.producesValue_of_isPlain hnew.plain)
      have hdest' : destViolations { i with opcode := new } = [] :=
        destViolations_of_producesValue (Opcode.producesValue_of_isPlain hnew.plainNew)
      simp only [instructionViolations, operandViolations_of_isPlain hnew.plain, hdest, hdest',
        operandViolations_of_isPlain (i := { i with opcode := new }) hnew.plainNew,
        List.length_append, hplain]
      exact Nat.le_refl _
  | withoutCall => exact Nat.zero_le _
  | @withoutCallee d hop hdest =>
      -- All that can be wrong is the destination, and that was wrong before.
      have hnew : instructionViolations m f block (.const d (.int Operator.replacedResult)) =
          registerViolations f (.const d (.int Operator.replacedResult)) := by
        rw [instructionViolations, List.append_assoc]
        exact List.append_nil _
      rw [hnew, instructionViolations, List.append_assoc, List.length_append]
      exact Nat.le_add_right_of_le (registerViolations_const_start hdest _).length_le
  | @otherValue v w hop hoperands =>
      have hsame : instructionViolations m f block { i with operands := [.immediate w] } =
          instructionViolations m f block i := by
        simp [instructionViolations, registerViolations, operandViolations, plainViolations,
          valueViolations, destViolations, hop, hoperands, Operand.isValue]
      rw [hsame]

/-! ## What the rest of a module has to do with an instruction -/

/-- What is wrong with an instruction depends on its module only through its outline. -/
theorem instructionViolations_outline (m : Module) (f : Function) (block : Nat) (i : Instruction) :
    instructionViolations m.outline f block i = instructionViolations m f block i := by
  have hcall : callViolations m.outline i = callViolations m i := by
    unfold callViolations
    split
    · rename_i index args hoperands
      have hcallee : m.outline.functions[index.toNat]? =
          m.functions[index.toNat]?.map Function.outline := List.getElem?_map ..
      rw [hcallee]
      cases m.functions[index.toNat]? <;> rfl
    · rfl
  have hswitch : switchViolations m.outline i = switchViolations m i := rfl
  simp only [instructionViolations, operandViolations, hcall, hswitch]

variable (hm : m'.outline = m.outline)
include hm

theorem instructionViolations_of_outline (f : Function) (block : Nat) (i : Instruction) :
    instructionViolations m' f block i = instructionViolations m f block i := by
  rw [← instructionViolations_outline, hm, instructionViolations_outline]

theorem functionDiagnostics_of_outline (f : Function) :
    functionDiagnostics m' f = functionDiagnostics m f := by
  simp only [functionDiagnostics, blockDiagnostics, instructionViolations_of_outline hm]

omit hm in
/-- What is wrong with a block depends on its function only through its outline. -/
theorem blockDiagnostics_of_outline (hf : g.outline = f.outline) (b : Block) :
    blockDiagnostics m g block b = blockDiagnostics m f block b := by
  have hname : g.name = f.name := (congrArg Function.name hf :)
  have hparams : g.params = f.params := (congrArg Function.params hf :)
  have hlocals : g.locals = f.locals := (congrArg Function.locals hf :)
  have hreturns : g.returns = f.returns := (congrArg Function.returns hf :)
  have hregisters : g.registers = f.registers := by
    rw [Function.registers, Function.registers, hparams, hlocals]
  have hblocks : g.blocks.length = f.blocks.length := by
    simpa [Function.outline] using congrArg (fun f => f.blocks.length) hf
  simp only [blockDiagnostics, hname, instructionViolations_congr hregisters hblocks hreturns]

end Violations

/-! ## Diagnostics by position -/

/-- The diagnostics of an instruction at an index of a block. -/
def instructionDiagnostics (m : Module) (f : Function) (block : Nat) (b : Block) (index : Nat)
    (i : Instruction) : List Diagnostic :=
  (closingViolations (index + 1 == b.length) i ++ instructionViolations m f block i).map
    fun v => ⟨.instruction f.name block index, v⟩

/-- The diagnostics of the instruction at a position of a module, if there is one. -/
def Module.diagnosticsAt (m : Module) (l : Location) : List Diagnostic :=
  (m.functions[l.function]?).elim [] fun f =>
    (f.blocks[l.block]?).elim [] fun b =>
      (b[l.instruction]?).elim [] (instructionDiagnostics m f l.block b l.instruction)

variable {m : Module} {f : Function} {b : Block} {block index : Nat} {i j : Instruction}

theorem blockDiagnostics_set (hi : b[index]? = some i) (j : Instruction) :
    DifferIn (instructionDiagnostics m f block b index i)
      (instructionDiagnostics m f block b index j)
      (blockDiagnostics m f block b) (blockDiagnostics m f block (b.set index j)) := by
  have hne : b ≠ [] := List.ne_nil_of_mem (List.mem_of_getElem? hi)
  have hempty : b.isEmpty = false := List.isEmpty_eq_false_iff.mpr hne
  have hempty' : (b.set index j).isEmpty = false := by
    rw [List.isEmpty_eq_false_iff, ne_eq, List.set_eq_nil_iff]
    exact hne
  simp only [blockDiagnostics, hempty, hempty', Bool.false_eq_true, if_false, List.length_set]
  rw [List.set_eq_modify]
  exact DifferIn.flatMap_zipIdx_modify hi (.refl _ _)

theorem functionDiagnostics_setInstruction (hb : f.blocks[block]? = some b)
    (hi : b[index]? = some i) (j : Instruction) :
    DifferIn (instructionDiagnostics m f block b index i)
      (instructionDiagnostics m f block b index j)
      (functionDiagnostics m f) (functionDiagnostics m (f.setInstruction block index j)) := by
  have hne : f.blocks ≠ [] := List.ne_nil_of_mem (List.mem_of_getElem? hb)
  have hempty : f.blocks.isEmpty = false := List.isEmpty_eq_false_iff.mpr hne
  have hempty' : (f.setInstruction block index j).blocks.isEmpty = false := by
    rw [List.isEmpty_eq_false_iff, ne_eq, ← List.length_eq_zero_iff,
      f.setInstruction_blocks_length, List.length_eq_zero_iff]
    exact hne
  simp only [functionDiagnostics, hempty, hempty', Bool.false_eq_true, if_false,
    blockDiagnostics_of_outline (f.setInstruction_outline block index j)]
  exact DifferIn.flatMap_zipIdx_modify hb (blockDiagnostics_set hi j)

theorem Module.diagnosticsAt_eq {m : Module} {l : Location} (hf : m.functions[l.function]? = some f)
    (hb : f.blocks[l.block]? = some b) (hi : b[l.instruction]? = some i) :
    m.diagnosticsAt l = instructionDiagnostics m f l.block b l.instruction i := by
  rw [diagnosticsAt, hf, Option.elim_some, hb, Option.elim_some, hi, Option.elim_some]

/-- At its own position the diagnosis after a replacement asks what the one before would ask of
the new instruction. -/
theorem Module.diagnosticsAt_setInstruction {l : Location} (hf : m.functions[l.function]? = some f)
    (hb : f.blocks[l.block]? = some b) (hi : b[l.instruction]? = some i) (j : Instruction) :
    (m.setInstruction l j).diagnosticsAt l =
      instructionDiagnostics m f l.block b l.instruction j := by
  have hf' : (m.setInstruction l j).functions[l.function]? =
      some (f.setInstruction l.block l.instruction j) := by
    simp [setInstruction, modifyFunction, hf]
  have hb' : (f.setInstruction l.block l.instruction j).blocks[l.block]? =
      some (b.set l.instruction j) := by
    simp [Function.setInstruction, hb]
  have hj : (b.set l.instruction j)[l.instruction]? = some j :=
    List.getElem?_set_self (List.getElem?_eq_some_iff.mp hi).1
  have hviolations : instructionViolations m (f.setInstruction l.block l.instruction j) l.block j =
      instructionViolations m f l.block j :=
    instructionViolations_congr rfl (f.setInstruction_blocks_length _ _ _) rfl
  rw [Module.diagnosticsAt_eq hf' hb' hj, instructionDiagnostics, List.length_set,
    instructionViolations_of_outline (m.setInstruction_outline l j), hviolations]
  rfl

/-- The diagnostics of a module before and after a replacement differ in those of the replaced
instruction. -/
theorem Module.diagnostics_setInstruction {l : Location} (hi : m.instruction? l = some i)
    (j : Instruction) :
    DifferIn (m.diagnosticsAt l) ((m.setInstruction l j).diagnosticsAt l) m.diagnostics
      (m.setInstruction l j).diagnostics := by
  obtain ⟨f, hf, hi⟩ := Option.bind_eq_some_iff.mp hi
  obtain ⟨b, hb, hi⟩ := Option.bind_eq_some_iff.mp hi
  have hnames : (m.setInstruction l j).functions.map Function.name =
      m.functions.map Function.name :=
    map_modify_of_eq Function.name (fun f => by rfl) l.function m.functions
  have hfunctions : functionDiagnostics (m.setInstruction l j) = functionDiagnostics m :=
    funext (functionDiagnostics_of_outline (m.setInstruction_outline l j))
  rw [Module.diagnosticsAt_eq hf hb hi, Module.diagnosticsAt_setInstruction hf hb hi, diagnostics,
    diagnostics, hnames, hfunctions]
  have hdiffer : DifferIn (instructionDiagnostics m f l.block b l.instruction i)
      (instructionDiagnostics m f l.block b l.instruction j)
      (m.functions.flatMap (functionDiagnostics m))
      ((m.setInstruction l j).functions.flatMap (functionDiagnostics m)) :=
    DifferIn.flatMap_modify hf (functionDiagnostics_setInstruction hb hi j)
  exact hdiffer.behind _

theorem Module.diagnosticsAt_length_le {l : Location} (hi : m.instruction? l = some i)
    (hj : i.ReplacedBy j) :
    ((m.setInstruction l j).diagnosticsAt l).length ≤ (m.diagnosticsAt l).length := by
  obtain ⟨f, hf, hi⟩ := Option.bind_eq_some_iff.mp hi
  obtain ⟨b, hb, hi⟩ := Option.bind_eq_some_iff.mp hi
  rw [Module.diagnosticsAt_eq hf hb hi, Module.diagnosticsAt_setInstruction hf hb hi]
  simp only [instructionDiagnostics, List.length_map, List.length_append,
    closingViolations_length _ hj.isTerminator]
  exact Nat.add_le_add_left hj.violations_length_le _

/-- All diagnostics of a position name it. -/
theorem Module.place_of_mem_diagnosticsAt {l : Location} (hf : m.functions[l.function]? = some f)
    {d : Diagnostic} (hd : d ∈ m.diagnosticsAt l) :
    d.place = .instruction f.name l.block l.instruction := by
  rw [diagnosticsAt, hf, Option.elim_some] at hd
  cases hb : f.blocks[l.block]? with
  | none =>
      rw [hb] at hd
      cases hd
  | some b =>
      rw [hb, Option.elim_some] at hd
      cases hi : b[l.instruction]? with
      | none =>
          rw [hi] at hd
          cases hd
      | some i =>
          rw [hi, Option.elim_some, instructionDiagnostics] at hd
          obtain ⟨v, -, rfl⟩ := List.mem_map.mp hd
          rfl

/-- A replacement has no effect on the diagnosis but at its own position, and there it does not
add to the number of diagnostics.  The module may have anything else wrong with it, also at the
position itself, and names of functions need not differ. -/
theorem Module.diagnostics_of_mutate {l : Location} {o : Operator} {variant : Nat}
    (hi : m.instruction? l = some i) (hj : o.mutate variant i = .ok j) :
    ∃ f, m.functions[l.function]? = some f ∧
      DifferIn (m.diagnosticsAt l) ((m.setInstruction l j).diagnosticsAt l) m.diagnostics
        (m.setInstruction l j).diagnostics ∧
      ((m.setInstruction l j).diagnosticsAt l).length ≤ (m.diagnosticsAt l).length ∧
      (∀ place, place ≠ .instruction f.name l.block l.instruction →
        (m.setInstruction l j).diagnostics.filter (·.place = place) =
          m.diagnostics.filter (·.place = place)) ∧
      (m.setInstruction l j).diagnostics.countP
          (·.place = .instruction f.name l.block l.instruction) ≤
        m.diagnostics.countP (·.place = .instruction f.name l.block l.instruction) := by
  have hdiffer := m.diagnostics_setInstruction hi j
  have hlength := m.diagnosticsAt_length_le hi (Operator.mutate_replacedBy hj)
  obtain ⟨f, hf, -⟩ := Option.bind_eq_some_iff.mp hi
  have hf' : (m.setInstruction l j).functions[l.function]? =
      some (f.setInstruction l.block l.instruction j) := by
    simp [setInstruction, modifyFunction, hf]
  have hold : ∀ d ∈ m.diagnosticsAt l, d.place = .instruction f.name l.block l.instruction :=
    fun d hd => m.place_of_mem_diagnosticsAt hf hd
  have hnew : ∀ d ∈ (m.setInstruction l j).diagnosticsAt l,
      d.place = .instruction f.name l.block l.instruction :=
    fun d hd => place_of_mem_diagnosticsAt hf' hd
  refine ⟨f, hf, hdiffer, hlength, fun place hplace => ?_, hdiffer.countP_le ?_⟩
  · refine hdiffer.filter_eq (fun d hd => ?_) fun d hd => ?_
    · rw [hold d hd]
      exact decide_eq_false hplace.symm
    · rw [hnew d hd]
      exact decide_eq_false hplace.symm
  · rw [List.countP_eq_length.mpr fun d hd => decide_eq_true (hold d hd),
      List.countP_eq_length.mpr fun d hd => decide_eq_true (hnew d hd)]
    exact hlength

/-- A module in which two functions share their name.  The first one calls a function that is
missing, for a register that it does not have, and does not close its block. -/
def muddled : Module :=
  ⟨"muddled.json",
    [⟨"twin", 1, 0, [[.call 9 (some ⟨8⟩) []]], .void⟩,
      ⟨"twin", 0, 0, [[.unary .copy ⟨0⟩ ⟨0⟩], []], .int⟩],
    256, 1, []⟩

/-- One of three diagnostics of the call goes, and the five others stay. -/
theorem Module.diagnostics_of_mutate_muddled :
    (muddled.diagnosticsAt ⟨0, 0, 0⟩).length = 3 ∧
      ((muddled.setInstruction ⟨0, 0, 0⟩ (.const ⟨8⟩ (.int 42))).diagnosticsAt
        ⟨0, 0, 0⟩).length = 2 ∧
      DifferIn (muddled.diagnosticsAt ⟨0, 0, 0⟩)
        ((muddled.setInstruction ⟨0, 0, 0⟩ (.const ⟨8⟩ (.int 42))).diagnosticsAt ⟨0, 0, 0⟩)
        muddled.diagnostics
        (muddled.setInstruction ⟨0, 0, 0⟩ (.const ⟨8⟩ (.int 42))).diagnostics := by
  have hi : muddled.instruction? ⟨0, 0, 0⟩ = some (.call 9 (some ⟨8⟩) []) := rfl
  have hj : Operator.replaceCall.mutate 0 (.call 9 (some ⟨8⟩) []) =
      .ok (.const ⟨8⟩ (.int 42)) := rfl
  obtain ⟨-, -, hdiffer, -⟩ := muddled.diagnostics_of_mutate hi hj
  exact ⟨by decide, by decide, hdiffer⟩

end MutantGate
