import Mathlib.Algebra.Order.Ring.Nat
import MutantGate.Proofs.Semantics.Execution
/-!
# What every run keeps

Three facts about running a module, each carried from the instruction to the block, the
function and the call.

* The number of registers does not change, and a function gives a value back exactly if
  its return type says so.
* A run consults its surroundings only for the switches and the functions that its
  instructions name.  If of these the surroundings know more, the run says the same or
  more.
* In particular a greater bound takes nothing back.

## What is left outside

Calls that come to no end.  Under every bound they are unfinished, and that is all that is said of
them anywhere in these modules.
-/

namespace MutantGate

variable {α β : Type}

theorem Outcome.bind_eq_ok {x : Outcome α} {f : α → Outcome β} {b : β}
    (h : (x >>= f) = .ok b) : ∃ a, x = .ok a ∧ f a = .ok b := by
  cases x with
  | error e => cases h
  | ok a => exact ⟨a, rfl, h⟩

/-! ## Registers and results -/

/-- A flow with the given number of registers, out of a function only with a result of
the given type. -/
def Flow.Keeps (registers : Nat) (returns : ReturnType) : Flow → Prop
  | .next s | .goto _ s => s.registers.length = registers
  | .ret r => r.1.isSome = (returns == .int)

/-- A result as the return type asks for it has no value or has one. -/
theorem returned_cases {returns : ReturnType} {r : Returned}
    (h : r.1.isSome = (returns == .int)) :
    (returns = .void ∧ ∃ m, r = (none, m)) ∨ (returns = .int ∧ ∃ w m, r = (some w, m)) := by
  obtain ⟨v, m⟩ := r
  cases returns with
  | void =>
      cases v with
      | none => exact Or.inl ⟨rfl, m, rfl⟩
      | some w => cases h
  | int =>
      cases v with
      | none => cases h
      | some w => exact Or.inr ⟨rfl, w, m, rfl⟩

theorem Frame.put_length {s t : Frame} {w : Word} {dest : Option Register}
    (h : s.put w dest = .ok t) : t.registers.length = s.registers.length := by
  cases dest with
  | none => cases h; rfl
  | some r =>
      simp only [Frame.put] at h
      split at h
      · cases h; simp
      · cases h

theorem Frame.receive_length {s t : Frame} {r : Returned} {dest : Option Register}
    (h : s.receive r dest = .ok t) : t.registers.length = s.registers.length := by
  match r, dest with
  | (some w, m), dest => exact Frame.put_length (s := { s with memory := m }) h
  | (none, m), none => cases h; rfl
  | (none, m), some _ => cases h

section Keeps

variable {returns : ReturnType} {i : Instruction} {s : Frame} {flow : Flow}

/-- A flow to the next instruction with as many registers as there were. -/
def Flow.Continues (s : Frame) (flow : Flow) : Prop :=
  ∃ t, flow = .next t ∧ t.registers.length = s.registers.length

theorem Instruction.execPlain_continues (h : i.execPlain s = .ok flow) : flow.Continues s := by
  obtain ⟨ws, -, h⟩ := Outcome.bind_eq_ok h
  obtain ⟨w, -, h⟩ := Outcome.bind_eq_ok h
  obtain ⟨t, ht, h⟩ := Outcome.bind_eq_ok h
  cases h
  exact ⟨t, rfl, Frame.put_length ht⟩

theorem Instruction.execLoad_continues (h : i.execLoad s = .ok flow) : flow.Continues s := by
  obtain ⟨ws, -, h⟩ := Outcome.bind_eq_ok h
  split at h
  · obtain ⟨w, -, h⟩ := Outcome.bind_eq_ok h
    obtain ⟨t, ht, h⟩ := Outcome.bind_eq_ok h
    cases h
    exact ⟨t, rfl, Frame.put_length ht⟩
  · cases h

theorem Instruction.execStore_continues (h : i.execStore s = .ok flow) : flow.Continues s := by
  obtain ⟨ws, -, h⟩ := Outcome.bind_eq_ok h
  split at h
  · obtain ⟨m, -, h⟩ := Outcome.bind_eq_ok h
    cases h
    exact ⟨_, rfl, rfl⟩
  · cases h

theorem Instruction.execCall_continues {callees : Callees} (h : i.execCall callees s = .ok flow) :
    flow.Continues s := by
  unfold Instruction.execCall at h
  split at h
  · obtain ⟨ws, -, h⟩ := Outcome.bind_eq_ok h
    obtain ⟨r, -, h⟩ := Outcome.bind_eq_ok h
    obtain ⟨t, ht, h⟩ := Outcome.bind_eq_ok h
    cases h
    exact ⟨t, rfl, Frame.receive_length ht⟩
  · cases h

theorem Instruction.execReadSwitch_continues {switches : List Word}
    (h : i.execReadSwitch switches s = .ok flow) : flow.Continues s := by
  unfold Instruction.execReadSwitch at h
  split at h
  · obtain ⟨w, -, h⟩ := Outcome.bind_eq_ok h
    obtain ⟨t, ht, h⟩ := Outcome.bind_eq_ok h
    cases h
    exact ⟨t, rfl, Frame.put_length ht⟩
  · cases h

theorem Instruction.execRet_result (h : i.execRet returns s = .ok flow) :
    ∃ r, flow = .ret r ∧ r.1.isSome = (returns == .int) := by
  obtain ⟨ws, -, h⟩ := Outcome.bind_eq_ok h
  split at h
  · cases h; exact ⟨_, rfl, rfl⟩
  · cases h; exact ⟨_, rfl, rfl⟩
  · cases h

section Exec

variable {σ : Surroundings} {block : Nat}

/-- Only a terminator leads anywhere but to the next instruction. -/
theorem Instruction.exec_continues (hi : i.opcode.isTerminator = false)
    (h : i.exec σ returns block s = .ok flow) : flow.Continues s := by
  unfold Instruction.exec at h
  split at h
  case h_1 => exact execLoad_continues h
  case h_2 => exact execStore_continues h
  case h_3 hop | h_4 hop | h_6 hop => rw [hop] at hi; cases hi
  case h_5 => exact execCall_continues h
  case h_7 => exact execReadSwitch_continues h
  case h_8 => cases h; exact ⟨s, rfl, rfl⟩
  case h_9 => exact execPlain_continues h

/-- A terminator leads to another block or out of the function. -/
theorem Instruction.exec_leaves (hi : i.opcode.isTerminator = true)
    (h : i.exec σ returns block s = .ok flow) :
    (∃ b, flow = .goto b s) ∨ ∃ r, flow = .ret r ∧ r.1.isSome = (returns == .int) := by
  unfold Instruction.exec at h
  cases hop : i.opcode <;> rw [hop] at hi <;> cases hi <;> simp only [hop] at h
  case branch =>
    unfold Instruction.execBranch at h
    split at h
    · cases h; exact Or.inl ⟨_, rfl⟩
    · cases h
  case branchIf =>
    unfold Instruction.execBranchIf at h
    split at h
    · obtain ⟨c, -, h⟩ := Outcome.bind_eq_ok h
      cases h
      exact Or.inl ⟨_, rfl⟩
    · cases h
  case ret => exact Or.inr (execRet_result h)

theorem Instruction.exec_keeps (h : i.exec σ returns block s = .ok flow) :
    flow.Keeps s.registers.length returns := by
  cases hi : i.opcode.isTerminator with
  | false =>
      obtain ⟨t, rfl, ht⟩ := exec_continues hi h
      exact ht
  | true =>
      rcases exec_leaves hi h with ⟨b, rfl⟩ | ⟨r, rfl, hr⟩
      · exact rfl
      · exact hr

theorem execBlock_keeps {is : List Instruction} (h : execBlock σ returns block is s = .ok flow) :
    flow.Keeps s.registers.length returns := by
  induction is generalizing s with
  | nil =>
      cases h
      exact rfl
  | cons i is ih =>
      obtain ⟨f, hf, h⟩ := Outcome.bind_eq_ok h
      have hkeeps := Instruction.exec_keeps hf
      cases f with
      | next t => exact hkeeps ▸ ih h
      | goto b t => cases h; exact hkeeps
      | ret r => cases h; exact hkeeps

/-- A block that ends with a terminator does not run on behind its end. -/
theorem execBlock_ne_next {is : List Instruction} {t : Frame} (hne : is ≠ [])
    (hlast : ∀ i, is.getLast? = some i → i.opcode.isTerminator = true) :
    execBlock σ returns block is s ≠ .ok (.next t) := by
  induction is generalizing s with
  | nil => exact absurd rfl hne
  | cons i is ih =>
      intro h
      obtain ⟨flow, hflow, h⟩ := Outcome.bind_eq_ok h
      cases is with
      | nil =>
          rcases Instruction.exec_leaves (hlast i rfl) hflow with ⟨b, rfl⟩ | ⟨r, rfl, -⟩
          · cases h
          · cases h
      | cons j is =>
          cases flow with
          | next u =>
              exact ih (List.cons_ne_nil j is)
                (fun k hk => hlast k (by rwa [List.getLast?_cons_cons])) h
          | goto b u => cases h
          | ret r => cases h

end Exec

end Keeps

/-- A function gives a value back exactly if its return type says so. -/
theorem Function.runFrom_result {σ : Surroundings} {f : Function} {r : Returned} {n b : Nat}
    {s : Frame} (h : f.runFrom σ n b s = .ok r) : r.1.isSome = (f.returns == .int) := by
  induction n generalizing b s with
  | zero => cases h
  | succ n ih =>
      unfold Function.runFrom at h
      split at h
      · cases h
      · obtain ⟨flow, hflow, h⟩ := Outcome.bind_eq_ok h
        have hkeeps := execBlock_keeps hflow
        cases flow with
        | next t => cases h
        | goto b t => exact ih h
        | ret r => cases h; exact hkeeps

theorem Module.call_result {m : Module} {switches args : List Word} {n index : Nat}
    {memory : Memory} {r : Returned} {f : Function} (hf : m.functions[index]? = some f)
    (h : m.call switches n index args memory = .ok r) :
    r.1.isSome = (f.returns == .int) := by
  cases n with
  | zero => cases h
  | succ n =>
      simp only [Module.call, hf, Function.run] at h
      split at h
      · exact Function.runFrom_result h
      · cases h

/-! ## Surroundings -/

/-- On the first functions and switches, the second surroundings know what the first ones
know. -/
structure Surroundings.Within (functions switches : Nat) (σ τ : Surroundings) : Prop where
  switches : ∀ k < switches, σ.switches[k]? = τ.switches[k]?
  callees : ∀ g < functions, ∀ args m, (σ.callees g args m).Approximates (τ.callees g args m)

/-- All functions and switches that an instruction names are among the first ones. -/
structure Instruction.NamesBelow (functions switches : Nat) (i : Instruction) : Prop where
  callee : i.opcode = .call → ∀ g args, i.operands = .function g :: args → g.toNat < functions
  switch : i.opcode = .readSwitch → ∀ k, i.operands = [.switch k] → k.toNat < switches

/-- All instructions of a function name functions and switches among the first ones. -/
def Function.NamesBelow (functions switches : Nat) (f : Function) : Prop :=
  ∀ b ∈ f.blocks, ∀ i ∈ b, i.NamesBelow functions switches

section Approximates

variable {functions switches : Nat} {σ τ : Surroundings} {returns : ReturnType} {block : Nat}

theorem Instruction.exec_approximates (hσ : σ.Within functions switches τ) {i : Instruction}
    (hi : i.NamesBelow functions switches) (s : Frame) :
    (i.exec σ returns block s).Approximates (i.exec τ returns block s) := by
  unfold Instruction.exec
  split
  case h_5 hop =>
    unfold Instruction.execCall
    split
    · rename_i g args hops
      refine .bind (.refl _) fun ws => .bind ?_ fun _ => .refl _
      exact hσ.callees _ (hi.callee hop g args hops) _ _
    · exact .refl _
  case h_7 hop =>
    unfold Instruction.execReadSwitch
    split
    · rename_i k hops
      rw [hσ.switches _ (hi.switch hop k hops)]
      exact .refl _
    · exact .refl _
  all_goals exact .refl _

theorem execBlock_approximates (hσ : σ.Within functions switches τ) {is : List Instruction}
    (h : ∀ i ∈ is, i.NamesBelow functions switches) (s : Frame) :
    (execBlock σ returns block is s).Approximates (execBlock τ returns block is s) := by
  induction is generalizing s with
  | nil => exact .refl _
  | cons i is ih =>
      refine .bind (Instruction.exec_approximates hσ (h i List.mem_cons_self) s) fun flow => ?_
      cases flow with
      | next t => exact ih (fun j hj => h j (List.mem_cons_of_mem _ hj)) t
      | goto b t => exact .refl _
      | ret r => exact .refl _

/-- More blocks and surroundings that know more take nothing back. -/
theorem Function.runFrom_approximates (hσ : σ.Within functions switches τ) {f : Function}
    (hf : f.NamesBelow functions switches) {n n' : Nat} (hn : n ≤ n') (b : Nat) (s : Frame) :
    (f.runFrom σ n b s).Approximates (f.runFrom τ n' b s) := by
  induction n generalizing n' b s with
  | zero => exact Outcome.approximates_of_unfinished _
  | succ n ih =>
      obtain ⟨n', rfl⟩ := Nat.exists_eq_succ_of_ne_zero (Nat.ne_of_gt (Nat.zero_lt_of_lt hn))
      unfold Function.runFrom
      cases hb : f.blocks[b]? with
      | none => exact .refl _
      | some is =>
          refine .bind (execBlock_approximates hσ (hf is (List.mem_of_getElem? hb)) s)
            fun flow => ?_
          cases flow with
          | next t => exact .refl _
          | goto b t => exact ih (Nat.le_of_succ_le_succ hn) b t
          | ret r => exact .refl _

theorem Function.run_approximates (hσ : σ.Within functions switches τ) {f : Function}
    (hf : f.NamesBelow functions switches) {n n' : Nat} (hn : n ≤ n') (args : List Word)
    (m : Memory) : (f.run σ n args m).Approximates (f.run τ n' args m) := by
  unfold Function.run
  split
  · exact Function.runFrom_approximates hσ hf hn 0 _
  · exact .refl _

end Approximates

/-! ## Bounds -/

/-- Indices have 32 bits, so every function names functions and switches below that. -/
theorem Function.namesBelow_indices (f : Function) : f.NamesBelow (2 ^ 32) (2 ^ 32) :=
  fun _ _ _ _ => ⟨fun _ g _ _ => g.toNat_lt, fun _ k _ => k.toNat_lt⟩

namespace Module

/-- A greater bound takes nothing back. -/
theorem call_approximates (m : Module) (switches : List Word) {n n' : Nat} (hn : n ≤ n')
    (index : Nat) (args : List Word) (memory : Memory) :
    (m.call switches n index args memory).Approximates
      (m.call switches n' index args memory) := by
  induction n generalizing n' index args memory with
  | zero => exact Outcome.approximates_of_unfinished _
  | succ n ih =>
      obtain ⟨n', rfl⟩ := Nat.exists_eq_succ_of_ne_zero (Nat.ne_of_gt (Nat.zero_lt_of_lt hn))
      unfold call
      cases m.functions[index]? with
      | none => exact .refl _
      | some f =>
          have hcallees : Surroundings.Within (2 ^ 32) (2 ^ 32) ⟨switches, m.call switches n⟩
              ⟨switches, m.call switches n'⟩ :=
            ⟨fun _ _ => rfl, fun g _ args memory =>
              ih (Nat.le_of_succ_le_succ hn) g args memory⟩
          exact Function.run_approximates hcallees f.namesBelow_indices hn args memory

/-- So a function that calls under a greater bound knows at least as much. -/
theorem call_within (m : Module) (switches : List Word) {n n' : Nat} (hn : n ≤ n') :
    Surroundings.Within (2 ^ 32) (2 ^ 32) ⟨switches, m.call switches n⟩
      ⟨switches, m.call switches n'⟩ :=
  ⟨fun _ _ => rfl, fun g _ args memory => call_approximates m switches hn g args memory⟩

end Module

end MutantGate
