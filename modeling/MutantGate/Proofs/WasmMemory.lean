import MutantGate.Proofs.Runs
import MutantGate.Proofs.Semantics.WasmExecution
/-!
# The memory of a run

A word is read from four bytes and written to four bytes, and a write leaves all others as they
are.  No instruction makes the memory larger or smaller, and no call does.

## What is proved

A read gives the word of its four bytes exactly if they are there, and so does a write change these
bytes and no others.  That the memory keeps its size is carried from the instruction to the body,
the function and, by induction on the bound, to every call (`Module.call_keepsSize`).

## What is left outside

Which addresses code makes; that is the matter of `Proofs.WordAddressing`.
-/

namespace MutantGate

/-! ## Words in memory -/

namespace Memory

variable {m m' : Memory} {address : Nat} {v w : Word}

/-- The four bytes from an address on are those of a word, the least significant first. -/
def HasWord (m : Memory) (address : Nat) (w : Word) : Prop :=
  ∀ k < 4, m[address + k]? = some (w.extractLsb' (8 * k) 8)

/-- Four bytes are those of one word only. -/
theorem HasWord.unique (hv : m.HasWord address v) (hw : m.HasWord address w) : v = w := by
  refine BitVec.eq_of_getLsbD_eq fun i hi => ?_
  have hbyte : v.extractLsb' (8 * (i / 8)) 8 = w.extractLsb' (8 * (i / 8)) 8 :=
    Option.some.inj ((hv (i / 8) (by omega)).symm.trans (hw (i / 8) (by omega)))
  have hbit := congrArg (fun b => b.getLsbD (i % 8)) hbyte
  simpa [BitVec.getLsbD_extractLsb', Nat.mod_lt, Nat.div_add_mod] using hbit

theorem HasWord.length_le (h : m.HasWord address w) : address + 4 ≤ m.length :=
  (List.getElem?_eq_some_iff.mp (h 3 (by decide))).1

/-- Four bytes that follow each other, put together, are a word in memory. -/
theorem hasWord_append {b₀ b₁ b₂ b₃ : BitVec 8} {rest : List (BitVec 8)}
    (h : m.drop address = b₀ :: b₁ :: b₂ :: b₃ :: rest) :
    m.HasWord address (b₃ ++ b₂ ++ b₁ ++ b₀) := by
  have hget : ∀ k, m[address + k]? = (b₀ :: b₁ :: b₂ :: b₃ :: rest)[k]? := fun k => by
    rw [← h, List.getElem?_drop]
  intro k hk
  rw [hget]
  obtain rfl | rfl | rfl | rfl : k = 0 ∨ k = 1 ∨ k = 2 ∨ k = 3 := by omega
  all_goals
    refine congrArg some (BitVec.eq_of_getLsbD_eq fun i hi => ?_)
    simp only [BitVec.getLsbD_extractLsb', BitVec.getLsbD_append]
    grind

theorem exists_drop (h : address + 4 ≤ m.length) :
    ∃ b₀ b₁ b₂ b₃ rest, m.drop address = b₀ :: b₁ :: b₂ :: b₃ :: rest := by
  have hlength : (m.drop address).length = m.length - address := List.length_drop
  match hdrop : m.drop address with
  | b₀ :: b₁ :: b₂ :: b₃ :: rest => exact ⟨b₀, b₁, b₂, b₃, rest, rfl⟩
  | [] | [_] | [_, _] | [_, _, _] =>
      rw [hdrop] at hlength
      simp only [List.length_cons, List.length_nil] at hlength
      omega

/-- A word is read from the four bytes from its address on. -/
theorem word?_eq_some_iff : m.word? address = some w ↔ m.HasWord address w := by
  constructor
  · intro h
    unfold word? at h
    split at h
    · rename_i hdrop
      cases h
      exact hasWord_append hdrop
    · cases h
  · intro h
    obtain ⟨b₀, b₁, b₂, b₃, rest, hdrop⟩ := exists_drop h.length_le
    rw [h.unique (hasWord_append hdrop)]
    simp only [word?, hdrop]

/-- A read that does not fit into the memory gives nothing. -/
theorem word?_eq_none_iff : m.word? address = none ↔ m.length < address + 4 := by
  rw [Option.eq_none_iff_forall_ne_some]
  constructor
  · intro h
    by_contra hfits
    obtain ⟨b₀, b₁, b₂, b₃, rest, hdrop⟩ := exists_drop (Nat.le_of_not_lt hfits)
    exact h _ (word?_eq_some_iff.mpr (hasWord_append hdrop))
  · intro h w hw
    exact absurd (word?_eq_some_iff.mp hw).length_le (Nat.not_le_of_lt h)

/-- A write to the four bytes from an address on: they become those of the word, and the memory
keeps its size and all its other bytes. -/
structure Writes (m m' : Memory) (address : Nat) (w : Word) : Prop where
  word : m'.HasWord address w
  length : m'.length = m.length
  others : ∀ k, k < address ∨ address + 4 ≤ k → m'[k]? = m[k]?

theorem exists_setWord? (h : address + 4 ≤ m.length) (w : Word) :
    ∃ m', m.setWord? address w = some m' ∧ m.Writes m' address w := by
  obtain ⟨b₀, b₁, b₂, b₃, rest, hdrop⟩ := exists_drop h
  have htake : (m.take address).length = address := List.length_take_of_le (by omega)
  have hrest : rest.length + 4 = m.length - address := by
    rw [← List.length_drop, hdrop]
    rfl
  have hset : m.setWord? address w = some (m.take address ++ w.extractLsb' 0 8 ::
      w.extractLsb' 8 8 :: w.extractLsb' 16 8 :: w.extractLsb' 24 8 :: rest) := by
    simp only [setWord?, hdrop]
  refine ⟨_, hset, fun k hk => ?_, ?_, fun k hk => ?_⟩
  · rw [List.getElem?_append_right (by omega), htake, Nat.add_sub_cancel_left]
    obtain rfl | rfl | rfl | rfl : k = 0 ∨ k = 1 ∨ k = 2 ∨ k = 3 := by omega
    all_goals rfl
  · simp only [List.length_append, htake, List.length_cons]
    omega
  · rcases hk with hk | hk
    · rw [List.getElem?_append_left (by omega), List.getElem?_take_of_lt hk]
    · obtain ⟨j, rfl⟩ := Nat.exists_eq_add_of_le hk
      have hget : m[address + 4 + j]? = rest[j]? := by
        rw [Nat.add_assoc, ← List.getElem?_drop, hdrop, Nat.add_comm 4 j]
        rfl
      rw [hget, List.getElem?_append_right (by omega), htake, Nat.add_assoc,
        Nat.add_sub_cancel_left, Nat.add_comm 4 j]
      rfl

/-- A write that does not fit into the memory gives nothing. -/
theorem setWord?_eq_none (h : m.length < address + 4) : m.setWord? address w = none := by
  unfold setWord?
  split
  · rename_i hdrop
    exact absurd (hasWord_append hdrop).length_le (Nat.not_le_of_lt h)
  · rfl

theorem setWord?_eq_some (h : m.setWord? address w = some m') : m.Writes m' address w := by
  have hfits : address + 4 ≤ m.length := by
    by_contra hshort
    rw [setWord?_eq_none (Nat.lt_of_not_le hshort)] at h
    cases h
  obtain ⟨m'', hm'', hwrites⟩ := exists_setWord? hfits w
  obtain rfl := Option.some.inj (h.symm.trans hm'')
  exact hwrites

end Memory

theorem Outcome.ofOption_eq_ok {α : Type} {halt : Halt} {x : Option α} {a : α}
    (h : Outcome.ofOption halt x = .ok a) : x = some a := by
  cases x <;> cases h
  rfl

namespace Wasm

/-! ## The size of the memory -/

/-- The memory in which a flow leaves off. -/
def Flow.memory : Flow → Memory
  | .next s | .branch _ s => s.memory
  | .ret _ m => m

@[simp] theorem Flow.leave_memory (flow : Flow) (outer : List Word) :
    (flow.leave outer).memory = flow.memory := by
  cases flow with
  | next s => rfl
  | branch d s => cases d <;> rfl
  | ret stack m => rfl

/-- Whatever a step leads to, the memory is as large as before. -/
def KeepsSize (step : State → Outcome Flow) : Prop :=
  ∀ s flow, step s = .ok flow → flow.memory.length = s.memory.length

/-- Whatever a call gives, the memory is as large as before. -/
def CallsKeepSize (callees : Callees) : Prop :=
  ∀ g args memory r, callees g args memory = .ok r → r.2.length = memory.length

section Steps

variable {σ : Surroundings}

theorem runLoop_keepsSize {body : State → Outcome Flow} (hbody : KeepsSize body) (n : Nat) :
    KeepsSize (runLoop body n) := by
  intro s flow h
  induction n generalizing s with
  | zero => cases h
  | succ n ih =>
      rw [runLoop] at h
      obtain ⟨flow', hflow', h⟩ := Outcome.bind_eq_ok h
      have hkept := hbody _ _ hflow'
      split at h
      · exact (ih _ h).trans hkept
      · cases h
        rw [Flow.leave_memory]
        exact hkept

theorem State.call_keepsSize (hσ : CallsKeepSize σ.callees) (g : Nat) :
    KeepsSize (State.call σ g) := by
  intro s flow h
  obtain ⟨f, -, h⟩ := Outcome.bind_eq_ok h
  split at h
  · obtain ⟨⟨w?, m⟩, hcall, h⟩ := Outcome.bind_eq_ok h
    have hkept := hσ _ _ _ _ hcall
    cases w? <;> cases h <;> exact hkept
  · cases h

theorem State.load_keepsSize : KeepsSize State.load := by
  intro s flow h
  unfold State.load at h
  split at h
  · obtain ⟨w, -, h⟩ := Outcome.bind_eq_ok h
    cases h
    rfl
  · cases h

theorem State.store_keepsSize : KeepsSize State.store := by
  intro s flow h
  unfold State.store at h
  split at h
  · obtain ⟨m, hm, h⟩ := Outcome.bind_eq_ok h
    cases h
    exact (Memory.setWord?_eq_some (Outcome.ofOption_eq_ok hm)).length
  · cases h

theorem State.binary_keepsSize (op : BinaryOp) : KeepsSize (State.binary op) := by
  intro s flow h
  unfold State.binary at h
  split at h
  · obtain ⟨w, -, h⟩ := Outcome.bind_eq_ok h
    cases h
    rfl
  · cases h

theorem State.pushFrom_keepsSize (ws : State → List Word) (i : Nat) :
    KeepsSize fun s => State.pushFrom (ws s) i s := by
  intro s flow h
  obtain ⟨w, -, h⟩ := Outcome.bind_eq_ok h
  cases h
  rfl

theorem State.localSet_keepsSize (i : Nat) : KeepsSize (State.localSet i) := by
  intro s flow h
  unfold State.localSet at h
  split at h
  · split at h <;> cases h
    rfl
  · cases h

theorem State.unary_keepsSize (op : Word → Word) : KeepsSize (State.unary op) := by
  intro s flow h
  unfold State.unary at h
  split at h <;> cases h
  rfl

theorem State.drop_keepsSize : KeepsSize State.drop := by
  intro s flow h
  unfold State.drop at h
  split at h <;> cases h
  rfl

theorem State.select_keepsSize : KeepsSize State.select := by
  intro s flow h
  unfold State.select at h
  split at h <;> cases h
  rfl

mutual

/-- One instruction. -/
theorem Instr.exec_keepsSize (hσ : CallsKeepSize σ.callees) (n : Nat) :
    ∀ i : Instr, KeepsSize (i.exec σ n) := by
  intro i s flow h
  cases i with
  | loop body => exact runLoop_keepsSize (Instr.execBody_keepsSize hσ n body) n s flow h
  | ifThen body =>
      have hbody := Instr.execBody_keepsSize hσ n body
      simp only [Instr.exec] at h
      split at h
      · split at h
        · cases h
          rfl
        · cases hflow : Instr.execBody σ n body { s with stack := [] } with
          | error e => rw [hflow] at h; cases h
          | ok flow' =>
              rw [hflow] at h
              cases h
              have hkept := hbody _ _ hflow
              rw [Flow.leave_memory]
              exact hkept
      · cases h
  | call g => exact State.call_keepsSize hσ g.toNat s flow h
  | load => exact State.load_keepsSize s flow h
  | store => exact State.store_keepsSize s flow h
  | binary op => exact State.binary_keepsSize op s flow h
  | eqz => exact State.unary_keepsSize _ s flow h
  | drop => exact State.drop_keepsSize s flow h
  | select => exact State.select_keepsSize s flow h
  | localSet k => exact State.localSet_keepsSize k.toNat s flow h
  | localGet k => exact State.pushFrom_keepsSize State.locals k.toNat s flow h
  | globalGet k => exact State.pushFrom_keepsSize (fun _ => σ.globals) k.toNat s flow h
  | unreachable => cases h
  | nop | br d | ret | const w =>
      cases h
      rfl

/-- A body. -/
theorem Instr.execBody_keepsSize (hσ : CallsKeepSize σ.callees) (n : Nat) :
    ∀ body : List Instr, KeepsSize (Instr.execBody σ n body) := by
  intro body s flow h
  cases body with
  | nil =>
      cases h
      rfl
  | cons i body =>
      rw [Instr.execBody] at h
      obtain ⟨flow', hflow', h⟩ := Outcome.bind_eq_ok h
      have hi := Instr.exec_keepsSize hσ n i _ _ hflow'
      split at h
      · exact (Instr.execBody_keepsSize hσ n body _ _ h).trans hi
      · cases h
        exact hi

end

theorem Func.result_memory {f : Func} {stack : List Word} {m : Memory} {r : Returned}
    (h : f.result stack m = .ok r) : r.2 = m := by
  unfold Func.result at h
  split at h <;> cases h <;> rfl

theorem Func.run_keepsSize (hσ : CallsKeepSize σ.callees) {n : Nat} {f : Func}
    {args : List Word} {memory : Memory} {r : Returned}
    (h : f.run σ n args memory = .ok r) : r.2.length = memory.length := by
  unfold Func.run at h
  split at h
  · obtain ⟨flow, hflow, h⟩ := Outcome.bind_eq_ok h
    have hkept := Instr.execBody_keepsSize hσ n _ _ _ hflow
    split at h
    · rw [Func.result_memory h]
      exact hkept
    · rw [Func.result_memory h]
      exact hkept
    · rw [Func.result_memory h]
      exact hkept
    · cases h
  · cases h

/-- A call leaves the memory as large as it was. -/
theorem Module.call_keepsSize (w : Module) (globals : List Word) (n : Nat) :
    CallsKeepSize (w.call globals n) := by
  induction n with
  | zero => exact nofun
  | succ n ih =>
      intro g args memory r h
      rw [Module.call] at h
      split at h
      · cases h
      · exact Func.run_keepsSize ih h

end Steps

end Wasm

end MutantGate
