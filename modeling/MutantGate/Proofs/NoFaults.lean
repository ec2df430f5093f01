import MutantGate.Proofs.Replacement
import MutantGate.Proofs.Semantics.Faults
/-!
# Whatever a module is like, nothing is looked for in vain

A partial operation is used inside of its domain wherever the library uses one, on modules with
which nothing is wrong and on all others.  So the form with partial operations is no other than
the one without: it gives the same diagnostics, the same code or the same reason why there is
none, the same replacements and refusals, and never a fault.  It is the question before the look
that says so each time: there is a callee only as first operand, a target only as second, and an
address only with an operand to push.

## What is proved

For all modules and all options the forms with partial operations (`Proofs.Semantics.Faults`) give
what the forms without them give.  So none of them faults, and what is proved of the one holds of
the other.

## What is left outside

Only diagnosis, lowering and mutation have such a form.  Of the other parts, log directives do
fault: a part may be cut out of a directive inside of a character, and `LogDirectives.check` reports
that as what it is.
-/

namespace MutantGate

namespace Checked

/-! ## Partial operations inside of their domains -/

section Operations

variable {α β : Type} {xs : List α} {n : Nat}

theorem elementAt_of_lt (h : n < xs.length) : elementAt xs n = .ok xs[n] := by
  unfold elementAt
  rw [List.getElem?_eq_getElem h]

theorem setAt_of_lt (h : n < xs.length) (x : α) : setAt xs n x = .ok (xs.set n x) := if_pos h

theorem sliceFrom_of_le (h : n ≤ xs.length) : sliceFrom xs n = .ok (xs.drop n) := if_pos h

theorem sliceTo_of_le (h : n ≤ xs.length) : sliceTo xs n = .ok (xs.take n) := if_pos h

theorem minus_of_le {a b : Nat} (h : b ≤ a) : minus a b = .ok (a - b) := if_pos h

/-- Without a fault at any element there is none at all. -/
theorem flatMap_of_forall {k : α → Except Fault (List β)} {g : α → List β}
    (h : ∀ x ∈ xs, k x = .ok (g x)) : flatMap k xs = .ok (xs.flatMap g) := by
  induction xs with
  | nil => rfl
  | cons x xs ih =>
      have hrest := ih fun y hy => h y (List.mem_cons_of_mem _ hy)
      simp only [flatMap, h x List.mem_cons_self, hrest, List.flatMap_cons]
      rfl

end Operations

/-! ## Diagnosis -/

section Diagnosis

variable (m : Module) (f : Function) (block : Nat) (i : Instruction)

theorem callViolations_eq : callViolations m i = .ok (MutantGate.callViolations m i) := by
  unfold callViolations MutantGate.callViolations
  cases hoperands : i.operands with
  | nil => rfl
  | cons o args =>
      have hargs : sliceFrom (o :: args) 1 = .ok args := sliceFrom_of_le (Nat.le_add_left 1 _)
      cases o with
      | function index =>
          cases hcallee : m.functions[index.toNat]? with
          | none => simp only [List.head?_cons, hcallee]; rfl
          | some callee =>
              simp only [List.head?_cons, hcallee, hargs]
              rfl
      | register _ | immediate _ | block _ | switch _ => rfl

theorem branchIfViolations_eq :
    branchIfViolations f block i = .ok (MutantGate.branchIfViolations f block i) := by
  unfold branchIfViolations MutantGate.branchIfViolations
  have hcondition : sliceTo i.operands (min i.operands.length 1) = .ok (i.operands.take 1) := by
    rw [sliceTo_of_le (Nat.min_le_left _ _), Nat.min_comm, ← List.take_eq_take_min]
  rw [hcondition]
  rfl

theorem operandViolations_eq :
    operandViolations m f block i = .ok (MutantGate.operandViolations m f block i) := by
  unfold operandViolations
  cases hop : i.opcode
  case call =>
    rw [MutantGate.operandViolations, hop]
    exact callViolations_eq m i
  case branchIf =>
    rw [MutantGate.operandViolations, hop]
    exact branchIfViolations_eq f block i
  all_goals rfl

theorem instructionViolations_eq :
    instructionViolations m f block i = .ok (MutantGate.instructionViolations m f block i) := by
  unfold instructionViolations
  rw [operandViolations_eq]
  rfl

theorem blockDiagnostics_eq (b : Block) :
    blockDiagnostics m f block b = .ok (MutantGate.blockDiagnostics m f block b) := by
  unfold blockDiagnostics MutantGate.blockDiagnostics
  by_cases hempty : b.isEmpty = true
  · rw [if_pos hempty, if_pos hempty]
    rfl
  · rw [if_neg hempty, if_neg hempty]
    have hlength : 1 ≤ b.length := List.length_pos_iff.mpr (by simpa using hempty)
    rw [minus_of_le hlength]
    refine flatMap_of_forall fun (i', index) _ => ?_
    have hlast : (index == b.length - 1) = (index + 1 == b.length) := by
      rw [Bool.eq_iff_iff, beq_iff_eq, beq_iff_eq]
      omega
    simp only [instructionViolations_eq, hlast]
    rfl

theorem functionDiagnostics_eq :
    functionDiagnostics m f = .ok (MutantGate.functionDiagnostics m f) := by
  unfold functionDiagnostics MutantGate.functionDiagnostics
  split
  · rfl
  · exact flatMap_of_forall fun (b, block) _ => blockDiagnostics_eq m f block b

theorem diagnostics_eq : diagnostics m = .ok m.diagnostics := by
  unfold diagnostics
  rw [flatMap_of_forall fun f _ => functionDiagnostics_eq m f]
  rfl

end Diagnosis

/-! ## Lowering -/

section Lowering

variable (m : Module) (selector : UInt32) (block : Nat) (i : Instruction)

/-- Where an address has been pushed there is an operand, and a rest behind it. -/
theorem lowerStore_eq (hop : i.opcode = .store) :
    lowerStore i = Attempt.of (MutantGate.lowerInstruction m selector block i) := by
  unfold lowerStore MutantGate.lowerInstruction
  rw [hop]
  cases hoperands : i.operands with
  | nil => rfl
  | cons o rest =>
      have hrest : sliceFrom (o :: rest) 1 = .ok rest := sliceFrom_of_le (Nat.le_add_left 1 _)
      simp only [List.head?_cons, List.tail_cons, hrest]
      cases pushAddress (some o) with
      | error e => rfl
      | ok a =>
          rw [Attempt.of_ok_bind, Attempt.lift_ok_bind]
          cases pushOperands rest with
          | error e => rfl
          | ok v => rfl

/-- A store of nothing lacks an address, and that it lacks a value does not come up. -/
example : lowerStore ⟨.store, none, []⟩ = Attempt.of (.error .noAddress) := rfl

/-- Where a callee has been found there is an operand, and arguments behind it. -/
theorem lowerCall_eq (hop : i.opcode = .call) :
    lowerCall m i = Attempt.of (MutantGate.lowerCall m i) := by
  unfold lowerCall MutantGate.lowerCall Instruction.callee?
  rw [hop]
  cases hoperands : i.operands with
  | nil => rfl
  | cons o args =>
      have hargs : sliceFrom (o :: args) 1 = .ok args := sliceFrom_of_le (Nat.le_add_left 1 _)
      cases o with
      | function index =>
          simp only [hargs]
          cases m.functions[index.toNat]? with
          | none => rfl
          | some callee =>
              simp only [Attempt.lift_ok_bind]
              cases pushOperands args with
              | error e => rfl
              | ok a => rfl
      | register _ | immediate _ | block _ | switch _ => rfl

/-- Where a target has been found as second operand there is a first one. -/
theorem lowerBranchIf_eq (hop : i.opcode = .branchIf) :
    lowerBranchIf selector block i =
      Attempt.of (MutantGate.lowerInstruction m selector block i) := by
  unfold lowerBranchIf MutantGate.lowerInstruction
  rw [hop]
  cases htarget : branchTarget i.operands[1]? with
  | error e => rfl
  | ok t =>
      have hlength : 1 ≤ i.operands.length := by
        by_contra hshort
        rw [List.getElem?_eq_none (by omega)] at htarget
        cases htarget
      rw [Attempt.of_ok_bind, sliceTo_of_le hlength, Attempt.lift_ok_bind]
      cases pushOperands (i.operands.take 1) with
      | error e => rfl
      | ok c => rfl

theorem lowerInstruction_eq :
    lowerInstruction m selector block i =
      Attempt.of (MutantGate.lowerInstruction m selector block i) := by
  unfold lowerInstruction
  cases hop : i.opcode
  case store => exact lowerStore_eq m selector block i hop
  case call =>
    rw [MutantGate.lowerInstruction, hop]
    exact lowerCall_eq m i hop
  case branchIf => exact lowerBranchIf_eq m selector block i hop
  all_goals rfl

/-- An obstacle ends the code for a block in one form as in the other. -/
theorem lowerInstructions_eq (is : List Instruction) :
    lowerInstructions m selector block is =
      Attempt.of (MutantGate.lowerInstructions m selector block is) := by
  induction is with
  | nil => rfl
  | cons i is ih =>
      rw [lowerInstructions, lowerInstruction_eq, ih, MutantGate.lowerInstructions]
      cases MutantGate.lowerInstruction m selector block i with
      | error e => rfl
      | ok c => cases MutantGate.lowerInstructions m selector block is <;> rfl

theorem lowerBlocks_eq (bs : List Block) :
    lowerBlocks m selector block bs =
      Attempt.of (MutantGate.lowerBlocks m selector block bs) := by
  induction bs generalizing block with
  | nil => rfl
  | cons b bs ih =>
      rw [lowerBlocks, lowerInstructions_eq, ih, MutantGate.lowerBlocks]
      cases MutantGate.lowerInstructions m selector block b with
      | error e => rfl
      | ok c => cases MutantGate.lowerBlocks m selector (block + 1) bs <;> rfl

theorem lowerFunction_eq (f : Function) :
    lowerFunction m f = Attempt.of (MutantGate.lowerFunction m f) := by
  rw [lowerFunction, lowerBlocks_eq, MutantGate.lowerFunction]
  cases MutantGate.lowerBlocks m f.selector 0 f.blocks <;> rfl

theorem lowerFunctions_eq (fs : List Function) :
    lowerFunctions m fs = Attempt.of (MutantGate.lowerFunctions m fs) := by
  induction fs with
  | nil => rfl
  | cons f fs ih =>
      rw [lowerFunctions, lowerFunction_eq, Attempt.adapt_of, ih, MutantGate.lowerFunctions]
      cases MutantGate.lowerFunction m f with
      | error e => rfl
      | ok g => cases MutantGate.lowerFunctions m fs <;> rfl

theorem lower_eq (options : LoweringOptions) :
    lower options m = Attempt.of (MutantGate.lower options m) := by
  rw [lower, lowerFunctions_eq, MutantGate.lower]
  cases memoryPages options.maxPages m with
  | error e => rfl
  | ok pages => cases MutantGate.lowerFunctions m m.functions <;> rfl

end Lowering

/-! ## Mutating -/

section Mutating

variable {o : Operator} {variant : Nat} {i j : Instruction}

theorem replacements_of_swap? {old new : Opcode} (h : swap? o = some (old, new)) :
    o.replacements i = Operator.exchange old new i := by
  cases o <;> cases h <;> rfl

theorem scalar?_eq_some_iff {v : Value} :
    scalar? i = some v ↔ i.opcode = .const ∧ i.operands = [.immediate v] := by
  unfold scalar?
  constructor
  · intro h
    split at h
    · cases h
      exact ⟨‹_›, ‹_›⟩
    · cases h
  · rintro ⟨hop, hoperands⟩
    rw [hop, hoperands]

theorem withOtherValue_of_scalar? (i : Instruction) :
    Operator.withOtherValue i = match scalar? i with
      | some v => (Operator.otherValues v).map fun w => { i with operands := [.immediate w] }
      | none => [] := by
  unfold Operator.withOtherValue
  split
  · rename_i v hop hoperands
    rw [scalar?_eq_some_iff.mpr ⟨hop, hoperands⟩]
  · rename_i hother
    cases hscalar : scalar? i with
    | none => rfl
    | some v =>
        obtain ⟨hop, hoperands⟩ := scalar?_eq_some_iff.mp hscalar
        exact (hother v hop hoperands).elim

theorem length_eq_zero_of_forall {α : Type} {xs : List α} (h : ∀ x ∈ xs, False) :
    xs.length = 0 :=
  List.length_eq_zero_iff.mpr (List.eq_nil_iff_forall_not_mem.mpr h)

theorem otherCount_eq (hswap : swap? o = none) : otherCount o i = (o.replacements i).length := by
  cases o
  case removeVoidCall =>
    show (if i.opcode = .call ∧ i.dest.isNone then 1 else 0) = (Operator.withoutCall i).length
    by_cases hvoid : i.opcode = .call ∧ i.dest.isNone
    · rw [if_pos hvoid, Operator.withoutCall, hvoid.1, Option.isNone_iff_eq_none.mp hvoid.2]
      rfl
    · rw [if_neg hvoid]
      refine (length_eq_zero_of_forall fun j hj => hvoid ?_).symm
      obtain ⟨hop, hdest, -⟩ := Operator.mem_withoutCall hj
      exact ⟨hop, hdest ▸ rfl⟩
  case replaceCall =>
    show (if i.opcode = .call ∧ i.dest.isSome then 1 else 0) = (Operator.withoutCallee i).length
    by_cases hvalue : i.opcode = .call ∧ i.dest.isSome
    · obtain ⟨d, hdest⟩ := Option.isSome_iff_exists.mp hvalue.2
      rw [if_pos hvalue, Operator.withoutCallee, hvalue.1, hdest]
      rfl
    · rw [if_neg hvalue]
      refine (length_eq_zero_of_forall fun j hj => hvalue ?_).symm
      obtain ⟨d, hop, hdest, -⟩ := Operator.mem_withoutCallee hj
      exact ⟨hop, hdest ▸ rfl⟩
  case replaceScalar =>
    show otherCount .replaceScalar i = (Operator.withOtherValue i).length
    rw [withOtherValue_of_scalar?, otherCount]
    cases scalar? i with
    | none => rfl
    | some v => cases v <;> rfl
  case noMutation =>
    show (if i.opcode.isBinaryArithmetic then 1 else 0) = (Operator.unchanged i).length
    unfold Operator.unchanged
    split <;> rfl
  all_goals cases hswap

/-- As many replacements are counted as there are. -/
theorem available_eq (o : Operator) (i : Instruction) : available o i = o.replacementCount i := by
  unfold available Operator.replacementCount
  cases hswap : swap? o with
  | some p =>
      obtain ⟨old, new⟩ := p
      rw [replacements_of_swap? hswap, Operator.exchange]
      dsimp only
      split <;> rfl
  | none => exact otherCount_eq hswap

/-- The number of a word in the place of a word is one of the two that there are. -/
theorem otherValue_of_int {w : Word} (hscalar : scalar? i = some (.int w)) {w' : Word}
    (h : (Operator.otherWords w)[variant]? = some w') :
    otherValue variant i = Attempt.of (.ok (.int w')) := by
  obtain ⟨hvariant, rfl⟩ := List.getElem?_eq_some_iff.mp h
  rw [otherValue, hscalar]
  dsimp only
  rw [elementAt_of_lt hvariant]
  rfl

/-- The constant with a number is found where there is a replacement with that number. -/
theorem otherValue_of_getElem? {v : Value} (hscalar : scalar? i = some v) {w : Value}
    (h : (Operator.otherValues v)[variant]? = some w) :
    otherValue variant i = Attempt.of (.ok w) := by
  cases v with
  | int u =>
      rw [Operator.otherValues, List.getElem?_map] at h
      obtain ⟨u', hu', rfl⟩ := Option.map_eq_some_iff.mp h
      exact otherValue_of_int hscalar hu'
  | bool b =>
      cases List.mem_singleton.mp (List.mem_of_getElem? h)
      rw [otherValue, hscalar]
      rfl
  | float x => cases h

theorem rewrite_of_getElem? (hswap : swap? o = none)
    (h : (o.replacements i)[variant]? = some j) : rewrite o variant i = Attempt.of (.ok j) := by
  have hj := List.mem_of_getElem? h
  cases o
  case removeVoidCall =>
    obtain ⟨-, -, rfl⟩ := Operator.mem_withoutCall hj
    rfl
  case replaceCall =>
    obtain ⟨d, -, hdest, rfl⟩ := Operator.mem_withoutCallee hj
    rw [rewrite, hdest]
    rfl
  case replaceScalar =>
    change (Operator.withOtherValue i)[variant]? = some j at h
    rw [withOtherValue_of_scalar?] at h
    cases hscalar : scalar? i with
    | none => rw [hscalar] at h; cases h
    | some v =>
        simp only [hscalar, List.getElem?_map] at h
        obtain ⟨w, hw, rfl⟩ := Option.map_eq_some_iff.mp h
        obtain ⟨-, hoperands⟩ := scalar?_eq_some_iff.mp hscalar
        have hset : setAt i.operands 0 (.immediate w) = .ok [.immediate w] := by
          rw [hoperands]
          exact setAt_of_lt Nat.one_pos _
        rw [rewrite, otherValue_of_getElem? hscalar hw, Attempt.of_ok_bind, hset]
        rfl
  case noMutation =>
    rw [(Operator.mem_unchanged hj).2]
    rfl
  all_goals cases hswap

/-- What has been counted is there. -/
theorem mutate_eq (o : Operator) (variant : Nat) (i : Instruction) :
    mutate o variant i = Attempt.of (o.mutate variant i) := by
  unfold mutate Operator.mutate
  rw [available_eq]
  cases hget : (o.replacements i)[variant]? with
  | none =>
      have hlength : o.replacementCount i ≤ variant := List.getElem?_eq_none_iff.mp hget
      by_cases hnone : o.replacementCount i = 0
      · have happlicable : o.isApplicable i = false := by rw [Operator.isApplicable, hnone]; rfl
        rw [if_pos hnone, happlicable]
        rfl
      · have happlicable : o.isApplicable i = true := bne_iff_ne.mpr hnone
        rw [if_neg hnone, if_pos hlength, happlicable]
        rfl
  | some j =>
      have hlength : variant < o.replacementCount i := (List.getElem?_eq_some_iff.mp hget).1
      rw [if_neg (Nat.ne_zero_of_lt hlength), if_neg (Nat.not_le.mpr hlength)]
      cases hswap : swap? o with
      | none => exact rewrite_of_getElem? hswap hget
      | some p =>
          have hj := List.mem_of_getElem? hget
          rw [replacements_of_swap? hswap] at hj
          obtain ⟨-, rfl⟩ := Operator.mem_exchange hj
          rfl

end Mutating

end Checked

/-- No module makes a partial operation fault, whatever its operands, destinations and indices are:
looking at it, lowering it and mutating any instruction give the answer or the refusal that they
give without partial operations. -/
theorem no_fault (options : LoweringOptions) (m : Module) :
    Checked.diagnostics m = .ok m.diagnostics ∧
      Checked.lower options m = Attempt.of (lower options m) ∧
      ∀ (o : Operator) (variant : Nat) (i : Instruction),
        Checked.mutate o variant i = Attempt.of (o.mutate variant i) :=
  ⟨Checked.diagnostics_eq m, Checked.lower_eq m options, Checked.mutate_eq⟩

end MutantGate
