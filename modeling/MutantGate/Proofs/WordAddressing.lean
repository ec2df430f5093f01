import MutantGate.Proofs.LoweredModule
import MutantGate.Proofs.WasmMemory
/-!
# Addresses of words

The code for a load or a store multiplies the address by four to get from a number of words to a
number of bytes, and the product is a word, so the two highest bits of the address are lost.  An
access therefore goes to the word whose number is the address without these two bits.  That is
the word it should go to below `2 ^ 30`; from there on the access should trap, whatever the size
of the memory, and goes to a word at the beginning of the memory instead.

## What is proved

For every load and every store of a lowered module, whatever code its operands have: the access goes
to the word at the address without its two highest bits, and it is the access that the address asks
for exactly if it has no such bits or if it traps all the same.  No words of the memory of a module
are at `2 ^ 30` or above, so every word of it can be reached by its own address.

## What is left outside

The words behind those that the module asks for, up to the end of the last page: they can be reached
too.  What a program makes of a wrong word is not followed.
-/

namespace MutantGate

namespace Wasm

/-! ## Accesses -/

section Access

variable {σ : Surroundings} {n pages index : Nat} {s : State} {a v : Word} {c d : Instr}

/-- What an access of the word at an index gives: the memory has the word and the access has done
its work, or the memory has fewer words and it traps. -/
structure Accesses (pages : Nat) (works : Nat → Flow → Prop) (outcome : Outcome Flow)
    (index : Nat) : Prop where
  inside : index < 16384 * pages → ∃ flow, outcome = .ok flow ∧ works index flow
  outside : 16384 * pages ≤ index → outcome = .error .trap

/-- Code pushes the word at an index. -/
def LoadsWord (σ : Surroundings) (n : Nat) (code : List Instr) (pages : Nat) (s : State) :
    Nat → Prop :=
  Accesses pages
    (fun index flow => ∃ v, s.memory.HasWord (4 * index) v ∧ flow = .next (s.push v))
    (Instr.execBody σ n code s)

/-- Code writes a word to an index. -/
def StoresWord (σ : Surroundings) (n : Nat) (code : List Instr) (pages : Nat) (v : Word)
    (s : State) : Nat → Prop :=
  Accesses pages
    (fun index flow => ∃ m, s.memory.Writes m (4 * index) v ∧
      flow = .next { s with memory := m })
    (Instr.execBody σ n code s)

/-- An access that leaves the two highest bits of an index away is one at the index itself only
if there are no such bits, or if it traps all the same. -/
theorem Accesses.at_index_iff {works : Nat → Flow → Prop} {outcome : Outcome Flow}
    (hpages : pages ≤ 65536) (h : Accesses pages works outcome (index % 2 ^ 30)) :
    Accesses pages works outcome index ↔
      index < 2 ^ 30 ∨ 16384 * pages ≤ index % 2 ^ 30 := by
  constructor
  · intro hindex
    by_contra hwraps
    obtain ⟨flow, hok, -⟩ := h.inside (by omega)
    rw [hindex.outside (by omega)] at hok
    cases hok
  · rintro (hlt | hle)
    · rwa [Nat.mod_eq_of_lt hlt] at h
    · exact ⟨fun hinside => by omega, fun _ => h.outside hle⟩

/-- The two highest bits of an address make no difference to the byte address. -/
theorem byteAddress_eq (a : Word) : (a <<< 2).toNat = 4 * (a.toNat % 2 ^ 30) := by
  rw [shiftLeft_two_toNat, Frame.byteAddress, BitVec.toNat_mul]
  show 4 * a.toNat % 2 ^ 32 = _
  omega

/-- The code that leaves the word at an address, with the code for the address first. -/
def loadCode (c : Instr) : List Instr := [c, .const 2, .binary .shl, .load]

/-- The code that puts a word at an address, with the codes for the address and the word. -/
def storeCode (c d : Instr) : List Instr := [c, .const 2, .binary .shl, d, .store]

theorem address_exec (hc : c.exec σ n s = .ok (.next (s.push a))) (code : List Instr) :
    Instr.execBody σ n (c :: .const 2 :: .binary .shl :: code) s =
      Instr.execBody σ n code (s.push (a <<< 2)) := by
  rw [execBody_cons_next hc, execBody_cons_next (t := (s.push a).push 2) rfl,
    execBody_cons_next (t := s.push (a <<< 2)) rfl]

theorem loadCode_loadsWord (hmemory : s.memory.length = pageBytes * pages)
    (hc : c.exec σ n s = .ok (.next (s.push a))) :
    LoadsWord σ n (loadCode c) pages s (a.toNat % 2 ^ 30) := by
  have hexec : Instr.execBody σ n (loadCode c) s =
      (Outcome.ofOption .trap (s.memory.word? (4 * (a.toNat % 2 ^ 30))) >>= fun v =>
        .ok (.next (s.push v))) := by
    rw [loadCode, address_exec hc, execBody_singleton, ← byteAddress_eq]
    rfl
  rw [pageBytes] at hmemory
  refine ⟨fun hinside => ?_, fun houtside => ?_⟩
  · cases hword : s.memory.word? (4 * (a.toNat % 2 ^ 30)) with
    | none =>
        have hshort := Memory.word?_eq_none_iff.mp hword
        omega
    | some v =>
        rw [hexec, hword]
        exact ⟨_, rfl, v, Memory.word?_eq_some_iff.mp hword, rfl⟩
  · rw [hexec, Memory.word?_eq_none_iff.mpr (by omega)]
    rfl

theorem storeCode_storesWord (hmemory : s.memory.length = pageBytes * pages)
    (hc : c.exec σ n s = .ok (.next (s.push a)))
    (hd : d.exec σ n (s.push (a <<< 2)) = .ok (.next ((s.push (a <<< 2)).push v))) :
    StoresWord σ n (storeCode c d) pages v s (a.toNat % 2 ^ 30) := by
  have hexec : Instr.execBody σ n (storeCode c d) s =
      (Outcome.ofOption .trap (s.memory.setWord? (4 * (a.toNat % 2 ^ 30)) v) >>= fun m =>
        .ok (.next { s with memory := m })) := by
    rw [storeCode, address_exec hc, execBody_cons_next hd, execBody_singleton, ← byteAddress_eq]
    rfl
  rw [pageBytes] at hmemory
  refine ⟨fun hinside => ?_, fun houtside => ?_⟩
  · have hfits : 4 * (a.toNat % 2 ^ 30) + 4 ≤ s.memory.length := by omega
    obtain ⟨m, hm, hwrites⟩ := Memory.exists_setWord? hfits v
    rw [hexec, hm]
    exact ⟨_, rfl, m, hwrites, rfl⟩
  · rw [hexec, Memory.setWord?_eq_none (by omega)]
    rfl

end Access

end Wasm

/-! ## The accesses of a lowered module -/

section Lowered

open Wasm

variable {m : Module} {options : LoweringOptions} {w : Wasm.Module} {selector : UInt32}
  {block : Nat} {i : Instruction} {code : List Instr}

theorem lowerInstruction_load (hi : i.opcode = .load)
    (hc : lowerInstruction m selector block i = .ok code) :
    ∃ c, code = loadCode c ++ [takeResult i.dest] := by
  simp only [lowerInstruction, hi] at hc
  cases hoperands : i.operands with
  | nil => rw [hoperands] at hc; cases hc
  | cons o os =>
      rw [hoperands, List.head?_cons, pushAddress] at hc
      cases hc' : pushOperand o with
      | error e => rw [hc'] at hc; cases hc
      | ok c =>
          rw [hc'] at hc
          cases hc
          exact ⟨c, rfl⟩

theorem lowerInstruction_store (hi : i.opcode = .store) (hlength : i.operands.length = 2)
    (hc : lowerInstruction m selector block i = .ok code) : ∃ c d, code = storeCode c d := by
  obtain ⟨o, o', hoperands⟩ := List.length_eq_two.mp hlength
  simp only [lowerInstruction, hi, hoperands, List.head?_cons, List.tail_cons, pushAddress,
    pushOperands] at hc
  cases hc' : pushOperand o with
  | error e => rw [hc'] at hc; cases hc
  | ok c =>
      cases hd : pushOperand o' with
      | error e => rw [hc', hd] at hc; cases hc
      | ok d =>
          rw [hc', hd] at hc
          cases hc
          exact ⟨c, d, rfl⟩

theorem lower_minPages_eq (hc : lower options m = .ok w) :
    w.minPages = pagesFor m.memoryWords.toNat := by
  obtain ⟨pages, hpages, hw⟩ := lower_eq_ok hc
  rw [hw]
  exact (memoryPages_eq_ok_iff.mp hpages).1

/-- The words that a module asks for are there. -/
theorem lower_memoryWords_le (hc : lower options m = .ok w) :
    m.memoryWords.toNat ≤ 16384 * w.minPages := by
  rw [lower_minPages_eq hc, pagesFor, pageBytes]
  omega

/-- In a lowered module the memory never changes its size.  A load and a store go to the word at
the index without its two highest bits, or trap if the memory has fewer words; this is the access
at the index itself exactly if it has no such bits, or traps in either case.  The words that the
module asks for all have such indices and are all there. -/
theorem lower_word_access (hc : lower options m = .ok w) (hpages : w.minPages ≤ 65536) :
    (∀ switches n, CallsKeepSize (w.call switches n)) ∧
      (∀ selector block i code, lowerInstruction m selector block i = .ok code →
        i.opcode = .load → ∃ c, code = loadCode c ++ [takeResult i.dest] ∧
          ∀ σ n s a, s.memory.length = pageBytes * w.minPages →
            c.exec σ n s = .ok (.next (s.push a)) →
            LoadsWord σ n (loadCode c) w.minPages s (a.toNat % 2 ^ 30) ∧
            (LoadsWord σ n (loadCode c) w.minPages s a.toNat ↔
              a.toNat < 2 ^ 30 ∨ 16384 * w.minPages ≤ a.toNat % 2 ^ 30)) ∧
      (∀ selector block i code, lowerInstruction m selector block i = .ok code →
        i.opcode = .store → i.operands.length = 2 → ∃ c d, code = storeCode c d ∧
          ∀ σ n s a v, s.memory.length = pageBytes * w.minPages →
            c.exec σ n s = .ok (.next (s.push a)) →
            d.exec σ n (s.push (a <<< 2)) = .ok (.next ((s.push (a <<< 2)).push v)) →
            StoresWord σ n (storeCode c d) w.minPages v s (a.toNat % 2 ^ 30) ∧
            (StoresWord σ n (storeCode c d) w.minPages v s a.toNat ↔
              a.toNat < 2 ^ 30 ∨ 16384 * w.minPages ≤ a.toNat % 2 ^ 30)) ∧
      ∀ index < m.memoryWords.toNat, index < 2 ^ 30 ∧ index < 16384 * w.minPages := by
  have hwords := lower_memoryWords_le hc
  refine ⟨w.call_keepsSize, fun selector block i code hcode hi => ?_,
    fun selector block i code hcode hi hlength => ?_, fun index hindex => by omega⟩
  · obtain ⟨c, rfl⟩ := lowerInstruction_load hi hcode
    refine ⟨c, rfl, fun σ n s a hmemory hexec => ?_⟩
    have hload := loadCode_loadsWord hmemory hexec
    exact ⟨hload, hload.at_index_iff hpages⟩
  · obtain ⟨c, d, rfl⟩ := lowerInstruction_store hi hlength hcode
    refine ⟨c, d, rfl, fun σ n s a v hmemory hexec hexec' => ?_⟩
    have hstore := storeCode_storesWord hmemory hexec hexec'
    exact ⟨hstore, hstore.at_index_iff hpages⟩

/-- A load far behind the end of a memory of one word. -/
def farLoad : Instruction := ⟨.load, some ⟨0⟩, [.immediate (.int 1073741824)]⟩

/-- A function that gives back what it loads from there. -/
def far : Module := ⟨"far.json", [⟨"far", 0, 1, [[farLoad, .ret ⟨0⟩]], .int⟩], 1, 1, []⟩

theorem far_minPages {w : Wasm.Module} (hc : lower .default far = .ok w) : w.minPages = 1 :=
  (lower_minPages_eq hc).trans (by decide +kernel)

/-- The memory of the lowered module keeps its size, and the load is one of the first word. -/
theorem lower_word_access_far :
    ∃ w, lower .default far = .ok w ∧ w.minPages = 1 ∧
      lowerInstruction far 1 0 farLoad =
        .ok (loadCode (.const 1073741824) ++ [takeResult farLoad.dest]) ∧
      (∀ n, CallsKeepSize (w.call [] n)) ∧
      ∀ σ n s, s.memory.length = pageBytes →
        LoadsWord σ n (loadCode (.const 1073741824)) 1 s 0 ∧
          ¬ LoadsWord σ n (loadCode (.const 1073741824)) 1 s 1073741824 := by
  obtain ⟨w, hw⟩ : ∃ w, lower .default far = .ok w := ⟨_, rfl⟩
  have hpages := far_minPages hw
  have hcode : lowerInstruction far 1 0 farLoad =
      .ok (loadCode (.const 1073741824) ++ [takeResult farLoad.dest]) := rfl
  obtain ⟨hkeeps, hloads, -, -⟩ := lower_word_access hw (by rw [hpages]; decide)
  obtain ⟨c, hc, haccess⟩ := hloads 1 0 farLoad _ hcode rfl
  obtain rfl : .const 1073741824 = c := List.head_eq_of_cons_eq hc
  refine ⟨w, hw, hpages, hcode, hkeeps [], fun σ n s hmemory => ?_⟩
  obtain ⟨hload, hfaithful⟩ :=
    haccess σ n s 1073741824 (by rw [hmemory, hpages, Nat.mul_one]) rfl
  rw [hpages] at hload hfaithful
  exact ⟨hload, fun h => absurd (hfaithful.mp h) (by decide)⟩

/-- The function gives back the first word of the memory, where the access should trap. -/
theorem far_load_wraps :
    ∃ w, lower .default far = .ok w ∧ w.minPages = 1 ∧
      16384 * w.minPages ≤ (1073741824 : Word).toNat ∧
      ∀ memory v, memory.length = pageBytes → memory.HasWord 0 v →
        w.Returns [] 0 [] memory (some v, memory) := by
  refine ⟨_, rfl, far_minPages rfl, by rw [far_minPages rfl]; decide,
    fun memory v _ hword => ⟨1, ?_⟩⟩
  obtain ⟨b₀, b₁, b₂, b₃, rest, hdrop⟩ := Memory.exists_drop hword.length_le
  rw [hword.unique (Memory.hasWord_append hdrop)]
  rw [List.drop_zero] at hdrop
  subst hdrop
  rfl

end Lowered

end MutantGate
