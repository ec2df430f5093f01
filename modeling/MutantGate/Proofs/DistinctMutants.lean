import Mathlib.Data.List.Nodup
import MutantGate.Proofs.ExactFormats
import MutantGate.Proofs.LoweredModule
import MutantGate.Proofs.Replacement
/-!
# No mutant is made twice

An instruction belongs to one operator at most, the one without effect apart: operators look at
the operation, and for calls at the destination.  So two mutants of one instruction come from one
operator, and are two constants.  These differ as words, and every other replacement changes the
operation; where there is code for an instruction, its mutants therefore differ from it and from
each other in their code as well, and each of them can tell whether a test looks at the place.

## What is proved

For any list of different operators with an effect and any instruction, well-formed or not: the
instruction and all that the operators make of it are different instructions.  Where the instruction
is in order, in whatever module, function and block, all of them have code, and no two the same.

## What is left outside

Mutants that differ may still do the same on every input.  Which of them do is not asked.
-/

namespace MutantGate

open Wasm (Instr)

/-! ## The operator of an instruction -/

/-- The operator that has replacements for an instruction, if one has any and it is not the
operator without effect. -/
def Instruction.operator? (i : Instruction) : Option Operator :=
  match i.opcode, i.dest with
  | .add, _ => some .addToSub
  | .sub, _ => some .subToAdd
  | .mul, _ => some .mulToDiv
  | .div, _ => some .divToMul
  | .mod, _ => some .remToDiv
  | .neg, _ => some .minusToNoop
  | .eq, _ => some .eqToNe
  | .ne, _ => some .neToEq
  | .lt, _ => some .ltToGe
  | .ge, _ => some .geToLt
  | .gt, _ => some .gtToLe
  | .le, _ => some .leToGt
  | .and, _ => some .andToOr
  | .or, _ => some .orToAnd
  | .xor, _ => some .xorToOr
  | .not, _ => some .removeNegation
  | .call, none => some .removeVoidCall
  | .call, some _ => some .replaceCall
  | .const, _ => some .replaceScalar
  | _, _ => none

namespace Operator

variable {i j : Instruction} {o : Operator} {os : List Operator}

theorem operator?_of_mem (ho : o ≠ .noMutation) (h : j ∈ o.replacements i) :
    i.operator? = some o := by
  cases o
  case noMutation => exact absurd rfl ho
  case removeVoidCall =>
    obtain ⟨hop, hdest, -⟩ := mem_withoutCall h
    simp [Instruction.operator?, hop, hdest]
  case replaceCall =>
    obtain ⟨d, hop, hdest, -⟩ := mem_withoutCallee h
    simp [Instruction.operator?, hop, hdest]
  case replaceScalar =>
    obtain ⟨v, hop, -⟩ := mem_withOtherValue h
    simp [Instruction.operator?, hop]
  all_goals
    obtain ⟨hop, -⟩ := mem_exchange h
    simp [Instruction.operator?, hop]

/-- Different operators offer nothing together, so all that they offer comes from one. -/
theorem flatMap_replacements (hos : os.Nodup) (hreal : .noMutation ∉ os) :
    os.flatMap (·.replacements i) = [] ∨
      ∃ o ∈ os, os.flatMap (·.replacements i) = o.replacements i := by
  induction os with
  | nil => exact .inl rfl
  | cons o os ih =>
      obtain ⟨hnew, hos⟩ := List.nodup_cons.mp hos
      obtain ⟨ho, hreal⟩ := not_or.mp (mt List.mem_cons.mpr hreal)
      rw [List.flatMap_cons]
      cases hfirst : o.replacements i with
      | nil =>
          rw [List.nil_append]
          obtain hnone | ⟨p, hp, hrest⟩ := ih hos hreal
          · exact .inl hnone
          · exact .inr ⟨p, List.mem_cons_of_mem _ hp, hrest⟩
      | cons j js =>
          -- what has replacements is the operator of the instruction, and comes but once
          have hi : i.operator? = some o :=
            operator?_of_mem (Ne.symm ho) (hfirst ▸ List.mem_cons_self)
          have hrest : os.flatMap (·.replacements i) = [] := by
            refine List.flatMap_eq_nil_iff.mpr fun p hp => List.eq_nil_iff_forall_not_mem.mpr ?_
            intro k hk
            have hp' := operator?_of_mem (fun heq => hreal (heq ▸ hp)) hk
            obtain rfl : o = p := Option.some.inj (hi.symm.trans hp')
            exact hnew hp
          exact .inr ⟨o, List.mem_cons_self, by rw [hrest, List.append_nil, hfirst]⟩

end Operator

/-! ## Constants -/

/-- A word and the two in its place differ, also where the next word is zero. -/
theorem otherWords_nodup (w : Word) : (w :: Operator.otherWords w).Nodup := by
  unfold Operator.otherWords
  by_cases hzero : w = 0
  · subst hzero
    decide
  · rw [if_neg hzero]
    by_cases hlast : w + 1 = 0
    -- the next word is zero, which has been taken
    · obtain rfl : w = -1 := by bv_omega
      decide
    · show (w :: [0, if w + 1 = 0 then w - 1 else w + 1]).Nodup
      rw [if_neg hlast]
      have hnext : w ≠ w + 1 := by bv_omega
      refine List.nodup_cons.mpr ⟨?_, List.nodup_cons.mpr ⟨?_, List.nodup_singleton _⟩⟩
      · rw [List.mem_pair]
        exact not_or.mpr ⟨hzero, hnext⟩
      · rw [List.mem_singleton]
        exact Ne.symm hlast

/-- A constant and those in its place are different words. -/
theorem otherValues_words_nodup (v : Value) :
    ((v :: Operator.otherValues v).map Value.toWord).Nodup := by
  cases v with
  | int w =>
      have hwords : ((Value.int w :: Operator.otherValues (.int w)).map Value.toWord) =
          w :: Operator.otherWords w := rfl
      rw [hwords]
      exact otherWords_nodup w
  | float x => exact List.nodup_singleton _
  | bool b => cases b <;> decide

namespace Operator

/-- Where the operator on constants has replacements, the instruction and these are one
instruction for each of the constants. -/
theorem cons_withOtherValue (i : Instruction) :
    withOtherValue i = [] ∨ ∃ v, i.opcode = .const ∧
      i :: withOtherValue i =
        (v :: otherValues v).map fun w => { i with operands := [.immediate w] } := by
  unfold withOtherValue
  split
  · rename_i v hop hoperands
    have hi : { i with operands := [.immediate v] } = i := by rw [← hoperands]
    exact .inr ⟨v, hop, by rw [List.map_cons, hi]⟩
  · exact .inl rfl

/-! ## Replacements -/

/-- Constants apart, a replacement has another operation. -/
theorem opcode_ne_of_mem_replacements {o : Operator} {i j : Instruction} (ho : o ≠ .noMutation)
    (hscalar : o ≠ .replaceScalar) (h : j ∈ o.replacements i) : i.opcode ≠ j.opcode := by
  cases o
  case noMutation => exact absurd rfl ho
  case replaceScalar => exact absurd rfl hscalar
  case removeVoidCall =>
    obtain ⟨hop, -, rfl⟩ := mem_withoutCall h
    rw [hop]
    nofun
  case replaceCall =>
    obtain ⟨d, hop, -, rfl⟩ := mem_withoutCallee h
    rw [hop]
    nofun
  all_goals
    obtain ⟨hop, rfl⟩ := mem_exchange h
    rw [hop]
    nofun

/-- One replacement at most is told apart from the instruction and from the others if it is
told apart from the instruction. -/
theorem nodup_map_cons {α : Type} {g : Instruction → α} {i : Instruction} {js : List Instruction}
    (hlength : js.length ≤ 1) (h : ∀ j ∈ js, g i ≠ g j) : ((i :: js).map g).Nodup := by
  match js, hlength with
  | [], _ => exact List.nodup_singleton _
  | [j], _ =>
      refine List.nodup_cons.mpr ⟨?_, List.nodup_singleton _⟩
      rw [List.map_singleton, List.mem_singleton]
      exact h j (List.mem_singleton_self j)

/-- What an operator with an effect makes of an instruction is not the instruction, and no two of
its replacements are the same. -/
theorem replacements_nodup_cons {o : Operator} (ho : o ≠ .noMutation) (i : Instruction) :
    (i :: o.replacements i).Nodup := by
  by_cases hscalar : o = .replaceScalar
  · subst hscalar
    rcases cons_withOtherValue i with hnone | ⟨v, -, heq⟩
    · show (i :: withOtherValue i).Nodup
      rw [hnone]
      exact List.nodup_singleton i
    · show (i :: withOtherValue i).Nodup
      rw [heq]
      refine (List.Nodup.of_map _ (otherValues_words_nodup v)).map fun w w' h => ?_
      simpa using h
  · rw [← List.map_id (i :: _)]
    refine nodup_map_cons (replacements_length_le_one hscalar i) fun j hj heq => ?_
    exact opcode_ne_of_mem_replacements ho hscalar hj (congrArg Instruction.opcode heq)

end Operator

/-! ## Code -/

section Code

variable {m : Module} {f : Function} {selector : UInt32} {block : Nat} {i j : Instruction}

/-- Where there is code with an operation of WebAssembly, another operation makes other code. -/
theorem lowerDirect_ne {op op' : Wasm.BinaryOp} (hne : op ≠ op') {new : Opcode}
    {c : List Instr} (hc : lowerDirect op i = .ok c) :
    lowerDirect op i ≠ lowerDirect op' { i with opcode := new } := by
  obtain ⟨a, ha, -⟩ := Binary.Format.map_eq_ok.mp hc
  intro heq
  simp only [lowerDirect, ha] at heq
  have hcode := Except.ok.inj heq
  rw [List.append_cancel_left_eq] at hcode
  cases hcode
  exact hne rfl

theorem call_mem_of_lowerCall {c : List Instr} (hc : lowerCall m i = .ok c) :
    ∃ k, .call k ∈ c := by
  unfold lowerCall at hc
  split at hc
  · rename_i k args hoperands
    split at hc
    · cases hc
    · obtain ⟨a, -, rfl⟩ := Binary.Format.map_eq_ok.mp hc
      exact ⟨k, List.mem_append_right _ List.mem_cons_self⟩
  · cases hc

/-- Constants apart, a replacement has other code than the instruction. -/
theorem lowerInstruction_ne {o : Operator} (ho : o ≠ .noMutation) (hscalar : o ≠ .replaceScalar)
    (hj : j ∈ o.replacements i) {c : List Instr}
    (hc : lowerInstruction m selector block i = .ok c) :
    lowerInstruction m selector block i ≠ lowerInstruction m selector block j := by
  cases o
  case noMutation => exact absurd rfl ho
  case replaceScalar => exact absurd rfl hscalar
  -- the code of a call has a call in it, and that of its replacements has none
  case removeVoidCall =>
    obtain ⟨hop, -, rfl⟩ := Operator.mem_withoutCall hj
    simp only [lowerInstruction, hop] at hc
    obtain ⟨k, hk⟩ := call_mem_of_lowerCall hc
    simp only [lowerInstruction, hop, hc]
    intro heq
    cases heq
    cases List.mem_singleton.mp hk
  case replaceCall =>
    obtain ⟨d, hop, -, rfl⟩ := Operator.mem_withoutCallee hj
    simp only [lowerInstruction, hop] at hc
    obtain ⟨k, hk⟩ := call_mem_of_lowerCall hc
    simp only [lowerInstruction, hop, hc]
    intro heq
    cases heq
    rcases List.mem_pair.mp hk with hk | hk <;> cases hk
  -- a copy of the operand has less code than what is done with it
  case minusToNoop | removeNegation =>
    obtain ⟨hop, rfl⟩ := Operator.mem_exchange hj
    simp only [lowerInstruction, hop] at hc ⊢
    obtain ⟨a, ha, -⟩ := Binary.Format.map_eq_ok.mp hc
    rw [ha]
    intro heq
    simpa using congrArg List.length (Except.ok.inj heq)
  all_goals
    obtain ⟨hop, rfl⟩ := Operator.mem_exchange hj
    simp only [lowerInstruction, hop] at hc ⊢
    refine lowerDirect_ne ?_ hc
    nofun

/-- Where there is code for an instruction, an operator with an effect makes other code of it,
with each replacement another. -/
theorem replacements_code_nodup {o : Operator} (ho : o ≠ .noMutation) {c : List Instr}
    (hc : lowerInstruction m selector block i = .ok c) :
    ((i :: o.replacements i).map (lowerInstruction m selector block)).Nodup := by
  by_cases hscalar : o = .replaceScalar
  · subst hscalar
    show ((i :: Operator.withOtherValue i).map _).Nodup
    rcases Operator.cons_withOtherValue i with hnone | ⟨v, hop, heq⟩
    · rw [hnone]
      exact List.nodup_singleton _
    · have hcode : (lowerInstruction m selector block ∘
            fun w => { i with operands := [.immediate w] }) =
          (fun w => .ok [.const w, takeResult i.dest]) ∘ Value.toWord := by
        funext w
        simp only [Function.comp_apply, lowerInstruction, hop]
        rfl
      rw [heq, List.map_map, hcode, ← List.map_map]
      exact (otherValues_words_nodup v).map fun w w' h => by simpa using h
  · exact Operator.nodup_map_cons (Operator.replacements_length_le_one hscalar i) fun j hj =>
      lowerInstruction_ne ho hscalar hj hc

/-- Results without a failure, no two of them the same. -/
theorem exists_nodup_of_isOk {ε α : Type} {xs : List (Except ε α)} (hxs : xs.Nodup)
    (hok : ∀ x ∈ xs, ∃ a, x = .ok a) : ∃ as : List α, xs = as.map .ok ∧ as.Nodup := by
  obtain ⟨as, rfl⟩ : ∃ as : List α, xs = as.map .ok := by
    induction xs with
    | nil => exact ⟨[], rfl⟩
    | cons x xs ih =>
        obtain ⟨a, rfl⟩ := hok x List.mem_cons_self
        obtain ⟨as, rfl⟩ := ih (List.nodup_cons.mp hxs).2 fun y hy =>
          hok y (List.mem_cons_of_mem _ hy)
        exact ⟨a :: as, rfl⟩
  exact ⟨as, rfl, List.Nodup.of_map _ hxs⟩

/-- Where an instruction is in order, there is code for it and whatever may take its place. -/
theorem exists_codes {js : List Instruction} (hi : instructionViolations m f block i = [])
    (hjs : ∀ j ∈ js, i.ReplacedBy j)
    (hnodup : ((i :: js).map (lowerInstruction m f.selector block)).Nodup) :
    ∃ codes : List (List Instr),
      (i :: js).map (lowerInstruction m f.selector block) = codes.map .ok ∧ codes.Nodup := by
  refine exists_nodup_of_isOk hnodup fun x hx => ?_
  obtain ⟨j, hj, rfl⟩ := List.mem_map.mp hx
  rcases List.mem_cons.mp hj with rfl | hj
  · exact lowerInstruction_isOk hi
  · exact lowerInstruction_isOk ((hjs j hj).sound hi)

end Code

/-! ## All mutants of an instruction -/

namespace Operator

/-- What operators make of an instruction, with every replacement that they have for it. -/
def mutants (os : List Operator) (i : Instruction) : List (Except Refusal Instruction) :=
  os.flatMap fun o => (List.range (o.replacementCount i)).map fun variant => o.mutate variant i

theorem mutants_eq (os : List Operator) (i : Instruction) :
    mutants os i = (os.flatMap (·.replacements i)).map .ok := by
  unfold mutants
  rw [List.map_flatMap]
  refine List.flatMap_congr fun o _ => ?_
  refine List.ext_getElem (by simp [replacementCount]) fun n hn hn' => ?_
  rw [List.getElem_map, List.getElem_map, List.getElem_range, mutate_eq_ok_iff]
  exact List.getElem?_eq_getElem _

/-- Different operators with an effect make instructions of an instruction that differ from it
and from each other; where the instruction is in order, there is code for all of them, and it
differs in the same way. -/
theorem mutants_distinct {os : List Operator} (hos : os.Nodup) (hreal : .noMutation ∉ os)
    (i : Instruction) :
    ∃ js, mutants os i = js.map .ok ∧ (i :: js).Nodup ∧
      ∀ (m : Module) (f : Function) (block : Nat), instructionViolations m f block i = [] →
        ∃ codes : List (List Instr),
          (i :: js).map (lowerInstruction m f.selector block) = codes.map .ok ∧ codes.Nodup := by
  have hforms : ∀ j ∈ os.flatMap (·.replacements i), i.ReplacedBy j := by
    intro j hj
    obtain ⟨o, -, hj⟩ := List.mem_flatMap.mp hj
    exact o.replacements_replacedBy hj
  refine ⟨_, mutants_eq os i, ?_⟩
  rcases flatMap_replacements (i := i) hos hreal with hnone | ⟨o, ho, hone⟩
  · rw [hnone] at hforms ⊢
    exact ⟨List.nodup_singleton i, fun m f block hi =>
      exists_codes hi hforms (List.nodup_singleton _)⟩
  · rw [hone] at hforms ⊢
    have heffect : o ≠ .noMutation := fun heq => hreal (heq ▸ ho)
    refine ⟨replacements_nodup_cons heffect i, fun m f block hi => ?_⟩
    obtain ⟨c, hc⟩ := lowerInstruction_isOk hi
    exact exists_codes hi hforms (replacements_code_nodup heffect hc)

/-- All operators but the one without effect. -/
def effective : List Operator := all.erase .noMutation

/-- The last word before zero is replaced by zero and, since the next word is that too, by the
word before. -/
theorem mutants_distinct_wrapping :
    ∃ (js : List Instruction) (codes : List (List Instr)),
      mutants effective (.const ⟨0⟩ (.int (-1))) = js.map .ok ∧
      (.const ⟨0⟩ (.int (-1)) :: js).Nodup ∧
      (.const ⟨0⟩ (.int (-1)) :: js).map (lowerInstruction summing 3 0) = codes.map .ok ∧
      codes.Nodup := by
  have hos : effective.Nodup := by decide
  obtain ⟨js, hjs, hdistinct, hcodes⟩ :=
    mutants_distinct hos (by decide) (.const ⟨0⟩ (.int (-1)))
  obtain ⟨codes, hlower, hdifferent⟩ :=
    hcodes summing (summing.functions.head (List.cons_ne_nil _ _)) 0 rfl
  exact ⟨js, codes, hjs, hdistinct, hlower, hdifferent⟩

end Operator

end MutantGate
