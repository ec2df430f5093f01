import MutantGate.Mutation.Application
import MutantGate.Proofs.Extension
import MutantGate.Proofs.Progress
/-!
# Replacements keep the rules

An operator offers replacements of four forms: an operation on words gives way to another
one on as many words; a call gives way to nothing, or to the constant that takes its
destination; and one constant gives way to another.  A replacement of any of these forms
is in order wherever the instruction was, closes a block exactly if the instruction did,
and names no function and no switch that the instruction did not name.

## What is proved

For every operator and every instruction: what it offers is of one of these forms
(`replacements_replacedBy`), there are two replacements at most, and a function or a module that was
well-formed is so with the replacement in it.  `LoadedModule.apply_eq_ok` reads off what an
application that succeeds has done.

## What is left outside

Replacements of instructions with which something is wrong; those are compared in
`Proofs.RewrittenDiagnosis`.
-/

namespace MutantGate

/-! ## The forms of a replacement -/

/-- Two operations on the same number of words. -/
structure Opcode.Exchangeable (old new : Opcode) : Prop where
  plain : old.isPlain = true
  plainNew : new.isPlain = true
  operands : new.operandCount = old.operandCount

/-- What can take the place of an instruction. -/
inductive Instruction.ReplacedBy (i : Instruction) : Instruction → Prop
  | exchange {new : Opcode} : i.opcode.Exchangeable new → ReplacedBy i { i with opcode := new }
  | withoutCall : i.opcode = .call → i.dest = none → ReplacedBy i .nop
  | withoutCallee {d : Register} : i.opcode = .call → i.dest = some d →
      ReplacedBy i (.const d (.int Operator.replacedResult))
  | otherValue {v w : Value} : i.opcode = .const → i.operands = [.immediate v] →
      ReplacedBy i { i with operands := [.immediate w] }

namespace Operator

variable {i j : Instruction}

theorem mem_exchange {old new : Opcode} (h : j ∈ exchange old new i) :
    i.opcode = old ∧ j = { i with opcode := new } := by
  unfold exchange at h
  split at h
  · exact ⟨‹_›, List.mem_singleton.mp h⟩
  · cases h

theorem mem_withoutCall (h : j ∈ withoutCall i) :
    i.opcode = .call ∧ i.dest = none ∧ j = .nop := by
  unfold withoutCall at h
  split at h
  · exact ⟨‹_›, ‹_›, List.mem_singleton.mp h⟩
  · cases h

theorem mem_withoutCallee (h : j ∈ withoutCallee i) :
    ∃ d, i.opcode = .call ∧ i.dest = some d ∧ j = .const d (.int replacedResult) := by
  unfold withoutCallee at h
  split at h
  · exact ⟨_, ‹_›, ‹_›, List.mem_singleton.mp h⟩
  · cases h

theorem mem_withOtherValue (h : j ∈ withOtherValue i) :
    ∃ v, i.opcode = .const ∧ i.operands = [.immediate v] ∧
      ∃ w ∈ otherValues v, j = { i with operands := [.immediate w] } := by
  unfold withOtherValue at h
  split at h
  · rename_i v hop hoperands
    obtain ⟨w, hw, rfl⟩ := List.mem_map.mp h
    exact ⟨v, hop, hoperands, w, hw, rfl⟩
  · cases h

theorem mem_unchanged (h : j ∈ unchanged i) : i.opcode.isBinaryArithmetic = true ∧ j = i := by
  unfold unchanged at h
  split at h
  · exact ⟨‹_›, List.mem_singleton.mp h⟩
  · cases h

theorem exchange_replacedBy {old new : Opcode} (hold : old.Exchangeable new)
    (h : j ∈ exchange old new i) : i.ReplacedBy j := by
  obtain ⟨hop, rfl⟩ := mem_exchange h
  exact .exchange (hop ▸ hold)

theorem withoutCall_replacedBy (h : j ∈ withoutCall i) : i.ReplacedBy j := by
  obtain ⟨hop, hdest, rfl⟩ := mem_withoutCall h
  exact .withoutCall hop hdest

theorem withoutCallee_replacedBy (h : j ∈ withoutCallee i) : i.ReplacedBy j := by
  obtain ⟨d, hop, hdest, rfl⟩ := mem_withoutCallee h
  exact .withoutCallee hop hdest

theorem withOtherValue_replacedBy (h : j ∈ withOtherValue i) : i.ReplacedBy j := by
  obtain ⟨v, hop, hoperands, w, -, rfl⟩ := mem_withOtherValue h
  exact .otherValue hop hoperands

theorem unchanged_replacedBy (h : j ∈ unchanged i) : i.ReplacedBy j := by
  obtain ⟨harithmetic, rfl⟩ := mem_unchanged h
  have hplain : j.opcode.isPlain = true := by
    cases hop : j.opcode <;> rw [hop] at harithmetic <;> cases harithmetic <;> rfl
  exact @Instruction.ReplacedBy.exchange j j.opcode ⟨hplain, hplain, rfl⟩

/-- Every operator offers replacements of these forms only. -/
theorem replacements_replacedBy (o : Operator) (h : j ∈ o.replacements i) : i.ReplacedBy j := by
  cases o
  case removeVoidCall => exact withoutCall_replacedBy h
  case replaceCall => exact withoutCallee_replacedBy h
  case replaceScalar => exact withOtherValue_replacedBy h
  case noMutation => exact unchanged_replacedBy h
  all_goals refine exchange_replacedBy ?_ h
  all_goals exact ⟨rfl, rfl, rfl⟩

theorem exchange_length_le (old new : Opcode) (i : Instruction) :
    (exchange old new i).length ≤ 1 := by
  unfold exchange
  split
  · exact Nat.le_refl 1
  · exact Nat.zero_le 1

/-- Constants apart, an operator has one replacement at most. -/
theorem replacements_length_le_one {o : Operator} (hscalar : o ≠ .replaceScalar)
    (i : Instruction) : (o.replacements i).length ≤ 1 := by
  cases o
  case replaceScalar => exact absurd rfl hscalar
  case removeVoidCall =>
    show (withoutCall i).length ≤ 1
    unfold withoutCall
    split <;> simp
  case replaceCall =>
    show (withoutCallee i).length ≤ 1
    unfold withoutCallee
    split <;> simp
  case noMutation =>
    show (unchanged i).length ≤ 1
    unfold unchanged
    split <;> simp
  all_goals exact exchange_length_le _ _ i

theorem mutate_eq_ok_iff {o : Operator} {variant : Nat} :
    o.mutate variant i = .ok j ↔ (o.replacements i)[variant]? = some j := by
  unfold mutate
  constructor
  · intro h
    split at h
    · rename_i k hk
      cases h
      exact hk
    · split at h <;> cases h
  · intro h
    simp only [h]

theorem mutate_replacedBy {o : Operator} {variant : Nat} (h : o.mutate variant i = .ok j) :
    i.ReplacedBy j :=
  o.replacements_replacedBy (List.mem_of_getElem? (mutate_eq_ok_iff.mp h))

end Operator

/-! ## What a replacement keeps -/

theorem operandViolations_of_isPlain {m : Module} {f : Function} {block : Nat} {i : Instruction}
    (h : i.opcode.isPlain = true) : operandViolations m f block i = plainViolations i := by
  unfold operandViolations
  cases hop : i.opcode <;> rw [hop] at h <;> first | rfl | cases h

namespace Instruction.ReplacedBy

variable {i j : Instruction}

theorem isTerminator (h : i.ReplacedBy j) : j.opcode.isTerminator = i.opcode.isTerminator := by
  cases h with
  | exchange h =>
      exact (Opcode.isTerminator_of_isPlain h.plainNew).trans
        (Opcode.isTerminator_of_isPlain h.plain).symm
  | withoutCall hop => rw [hop]; rfl
  | withoutCallee hop => rw [hop]; rfl
  | otherValue => rfl

/-- A replacement is in order wherever the instruction was. -/
theorem sound {m : Module} {f : Function} {block : Nat} (h : i.ReplacedBy j)
    (hi : instructionViolations m f block i = []) : instructionViolations m f block j = [] := by
  rw [instructionViolations_eq_nil_iff] at hi
  obtain ⟨hregisters, hoperands, -⟩ := hi
  cases h with
  | exchange h =>
      rw [operandViolations_of_isPlain h.plain, plainViolations_eq_nil_iff] at hoperands
      refine (instructionViolations_eq_nil_iff _ _ _ _).mpr
        ⟨⟨hregisters.dest, hregisters.operand⟩, ?_, ?_⟩
      · rw [operandViolations_of_isPlain h.plainNew, plainViolations_eq_nil_iff]
        exact ⟨hoperands.1.trans h.operands.symm, hoperands.2⟩
      · refine (destViolations_eq_nil_iff _).mpr fun _ hvalue => ?_
        rw [Opcode.producesValue_of_isPlain h.plainNew] at hvalue
        cases hvalue
  | withoutCall => rfl
  | withoutCallee hop hdest =>
      refine (instructionViolations_eq_nil_iff _ _ _ _).mpr
        ⟨⟨fun r hr => ?_, fun r hr => ?_⟩, ?_, rfl⟩
      · cases hr
        exact hregisters.dest _ hdest
      · cases List.mem_singleton.mp hr
      · rfl
  | otherValue hop hvalue =>
      refine (instructionViolations_eq_nil_iff _ _ _ _).mpr
        ⟨⟨hregisters.dest, fun r hr => ?_⟩, ?_, ?_⟩
      · cases List.mem_singleton.mp hr
      · unfold operandViolations
        rw [hop]
        refine (plainViolations_eq_nil_iff _).mpr ⟨?_, fun o ho => ?_⟩
        · rfl
        · cases List.mem_singleton.mp ho
          rfl
      · refine (destViolations_eq_nil_iff _).mpr fun _ hnone => ?_
        rw [hop] at hnone
        cases hnone

theorem namesBelow {functions switches : Nat} (h : i.ReplacedBy j) :
    j.NamesBelow functions switches := by
  cases h with
  | @exchange new h =>
      constructor
      · intro hop
        obtain rfl : new = .call := hop
        cases h.plainNew
      · intro hop
        obtain rfl : new = .readSwitch := hop
        cases h.plainNew
  | withoutCall | withoutCallee =>
      constructor
      · intro hcall
        cases hcall
      · intro hread
        cases hread
  | otherValue hop =>
      constructor
      · intro hcall
        cases hop.symm.trans hcall
      · intro hread
        cases hop.symm.trans hread

end Instruction.ReplacedBy

/-! ## Functions and modules with a replacement -/

/-- What is wrong with an instruction depends on its function only through the registers, the
number of blocks and the return type. -/
theorem instructionViolations_congr {m : Module} {f g : Function} {block : Nat} {i : Instruction}
    (hregisters : g.registers = f.registers) (hblocks : g.blocks.length = f.blocks.length)
    (hreturns : g.returns = f.returns) :
    instructionViolations m g block i = instructionViolations m f block i := by
  simp only [instructionViolations, registerViolations, operandViolations, returnViolations,
    branchViolations, branchIfViolations, targetViolations, hregisters, hblocks, hreturns]

namespace Function

variable {m : Module} {f : Function} {block index : Nat} {i j : Instruction}

theorem setInstruction_blocks_length (f : Function) (block index : Nat) (j : Instruction) :
    (f.setInstruction block index j).blocks.length = f.blocks.length :=
  List.length_modify _ _ _

/-- A block of a function with a replacement is a block of the function, or has the
replacement in it. -/
theorem setInstruction_block {k : Nat} {b : Block}
    (h : (f.setInstruction block index j).blocks[k]? = some b) :
    ∃ b₀, f.blocks[k]? = some b₀ ∧ b = if block = k then b₀.set index j else b₀ := by
  simp only [setInstruction, List.getElem?_modify] at h
  obtain ⟨b₀, hb₀, rfl⟩ := Option.map_eq_some_iff.mp h
  exact ⟨b₀, hb₀, by split <;> rfl⟩

theorem setInstruction_wellFormedIn (hf : f.WellFormedIn m)
    (hi : f.instruction? block index = some i) (hj : i.ReplacedBy j) :
    (f.setInstruction block index j).WellFormedIn m := by
  have hcongr : ∀ (k : Nat) (i' : Instruction), instructionViolations m f k i' = [] →
      instructionViolations m (f.setInstruction block index j) k i' = [] := fun k i' =>
    Eq.trans (instructionViolations_congr rfl (f.setInstruction_blocks_length block index j) rfl)
  refine ⟨fun hnil => ?_, fun k b hb => ?_⟩
  · have hlength := f.setInstruction_blocks_length block index j
    rw [hnil] at hlength
    exact hf.nonempty (List.length_eq_zero_iff.mp hlength.symm)
  · obtain ⟨b₀, hb₀, rfl⟩ := setInstruction_block hb
    have hblock := hf.blocks k b₀ hb₀
    split
    · rename_i hk
      subst hk
      have hget : b₀[index]? = some i := by
        rw [instruction?, hb₀] at hi
        exact hi
      refine ⟨fun hnil => ?_, fun n i' hn => ?_, fun i' hi' => hcongr block i' ?_⟩
      · exact hblock.nonempty ((List.set_eq_nil_iff _ _).mp hnil)
      · rw [List.length_set]
        rw [List.getElem?_set] at hn
        split at hn
        · rename_i hindex
          subst hindex
          split at hn
          · cases hn
            rw [hj.isTerminator]
            exact hblock.closed _ i hget
          · cases hn
        · exact hblock.closed n i' hn
      · rcases List.mem_or_eq_of_mem_set hi' with hmem | rfl
        · exact hblock.sound i' hmem
        · exact hj.sound (hblock.sound i (List.mem_of_getElem? hget))
    · exact ⟨hblock.nonempty, hblock.closed, fun i' hi' => hcongr k i' (hblock.sound i' hi')⟩

theorem setInstruction_namesBelow {functions switches : Nat} (hf : f.NamesBelow functions switches)
    (hj : i.ReplacedBy j) : (f.setInstruction block index j).NamesBelow functions switches := by
  intro b hb i' hi'
  obtain ⟨k, hk⟩ := List.mem_iff_getElem?.mp hb
  obtain ⟨b₀, hb₀, rfl⟩ := setInstruction_block hk
  have hmem := List.mem_of_getElem? hb₀
  split at hi'
  · rcases List.mem_or_eq_of_mem_set hi' with hi' | rfl
    · exact hf b₀ hmem i' hi'
    · exact hj.namesBelow
  · exact hf b₀ hmem i' hi'

end Function

/-! ## Applying a mutant -/

/-- The place of a point in a clone of its function. -/
def Point.placeIn (p : Point) (clone : Nat) : Location := { p.location with function := clone }

/-- An applied mutant puts a replacement for the instruction it is about into its clone, and
is on record from then on. -/
theorem LoadedModule.apply_eq_ok {l l' : LoadedModule} {p : Point} (h : l.apply p = .ok l') :
    ∃ (clone : Nat) (i j : Instruction), l.clone? p.identifier = some clone ∧
      p.identifier ∉ l.applied ∧ l.module.instruction? (p.placeIn clone) = some i ∧
      p.operator.mutate p.variant i = .ok j ∧
      l' = { l with
        module := l.module.setInstruction (p.placeIn clone) j
        applied := l.applied ++ [p.identifier] } := by
  unfold LoadedModule.apply at h
  split at h
  · cases h
  · split at h
    · cases h
    · rename_i clone hclone
      split at h
      · cases h
      · rename_i hnew
        dsimp only at h
        split at h
        · cases h
        · rename_i i hi
          split at h
          · cases h
          · rename_i j hj
            cases h
            refine ⟨clone, i, j, hclone, ?_, hi, hj, if_neg hnew⟩
            simpa [LoadedModule.isApplied] using hnew

theorem Program.apply_eq_ok {program program' : Program} {p : Point}
    (h : program.apply p = .ok program') :
    ∃ l l', program.module? p.module = some l ∧ l.apply p = .ok l' ∧
      program' = program.modifyModule p.module fun _ => l' := by
  unfold Program.apply at h
  split at h
  · cases h
  · rename_i l hl
    cases happly : l.apply p with
    | error e => rw [happly] at h; cases h
    | ok l' =>
        rw [happly] at h
        cases h
        exact ⟨l, l', hl, happly, rfl⟩

theorem Module.WellFormed.setInstruction {m : Module} (hm : m.WellFormed) {place : Location}
    {i j : Instruction} (hi : m.instruction? place = some i) (hj : i.ReplacedBy j) :
    (m.setInstruction place j).WellFormed := by
  refine hm.modifyFunction (fun _ _ => rfl) (fun _ _ => ⟨rfl, rfl⟩) fun f hf => ?_
  rw [Module.instruction?, hf] at hi
  exact Function.setInstruction_wellFormedIn (hm.functions f (List.mem_of_getElem? hf)) hi hj

end MutantGate
