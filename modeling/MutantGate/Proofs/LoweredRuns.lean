import MutantGate.Proofs.LoweredInstruction
/-!
# Lowering keeps what a module does

The lowered function runs in lockstep with the function: one round of its loop is the run
of one block, and the selector is the number of the block.  So under any bound a call of
the lowered module ends as the call of the module does, or is as unfinished.

What the proof needs of the size of a module is that registers and the selector have
different indices after the counts are cut to 32 bits, and that blocks have different
numbers as words.

## What is proved

For every well-formed module within the bounds, all states of the switches, all arguments and every
memory: a call returns a result and a memory in the one if it does in the other, and traps in the
one if it does in the other.  The induction is on the bound for the calls, and inside of it on the
rounds.

## What is left outside

What a call does that comes to no end, apart from having none in either.  The machine code that a
generator makes of the lowered module is outside of this library, and so is a host that stops a run
for want of stack.
-/

namespace MutantGate

open Wasm (Instr)

/-! ## Blocks -/

section Blocks

variable {m : Module} {f : Function} {σ : Surroundings} {τ : Wasm.Surroundings} {n block : Nat}

theorem lowerInstructions_simulates (hσ : σ.Lowers m τ)
    (hsel : f.selector.toNat = f.registers.toNat) {is : List Instruction} {s : Frame}
    {code : List Instr} (hi : ∀ i ∈ is, instructionViolations m f block i = [])
    (hregs : s.registers.length = f.registers.toNat)
    (hc : lowerInstructions m f.selector block is = .ok code) :
    Simulates τ n s code (execBlock σ f.returns block is s) := by
  induction is generalizing s code with
  | nil =>
      cases hc
      exact fun _ => rfl
  | cons i is ih =>
      unfold lowerInstructions at hc
      split at hc
      · cases hc
      · cases hc
      · rename_i c cs hfirst hrest
        cases hc
        intro p
        rw [execBody_append, lowerInstruction_simulates hσ (hi i List.mem_cons_self) hregs
          (hsel.trans hregs.symm) hfirst p]
        unfold execBlock
        cases hflow : i.exec σ f.returns block s with
        | error e => rfl
        | ok flow =>
            have hkeeps := Instruction.exec_keeps hflow
            cases flow with
            | next t =>
                exact ih (fun j hj => hi j (List.mem_cons_of_mem _ hj)) (hkeeps.trans hregs) hrest p
            | goto b t => rfl
            | ret r => rfl

theorem localGet_selector_exec {selector : UInt32} {s : Frame} {p : Word}
    (hsel : selector.toNat = s.registers.length) :
    (Instr.localGet selector).exec τ n (s.toState [] p) = .ok (.next (s.toState [p] p)) := by
  simp only [Instr.exec, Wasm.State.pushFrom, Frame.toState, hsel]
  rw [List.getElem?_append_right (Nat.le_refl _)]
  simp [Outcome.ofOption, bind, Except.bind, pure, Except.pure, Wasm.State.push]

/-- The code of a block is entered exactly if the selector is its number. -/
theorem whenSelected_exec {selector : UInt32} {s : Frame} {c cs : List Instr} {k : Nat} {p : Word}
    (hsel : selector.toNat = s.registers.length) :
    Instr.execBody τ n (whenSelected selector k c ++ cs) (s.toState [] p) =
      Instr.execBody τ n ([.ifThen c] ++ cs)
        (s.toState [wordOfBool (p == BitVec.ofNat 32 k)] p) := by
  rw [whenSelected, List.cons_append, execBody_cons_next (localGet_selector_exec hsel)]
  rfl

theorem conditional_exec {s : Frame} {c : List Instr} {p w : Word} :
    (Instr.ifThen c).exec τ n (s.toState [w] p) =
      if w = 0 then .ok (.next (s.toState [] p))
      else (Instr.execBody τ n c (s.toState [] p)).map (Wasm.Flow.leave []) := by
  simp only [Instr.exec, Frame.toState]

theorem ifThen_exec {s : Frame} {c cs : List Instr} {p w : Word} :
    Instr.execBody τ n ([.ifThen c] ++ cs) (s.toState [w] p) =
      if w = 0 then Instr.execBody τ n cs (s.toState [] p)
      else (Instr.execBody τ n c (s.toState [] p)).map (Wasm.Flow.leave []) >>= fun flow =>
        match flow with
        | .next t => Instr.execBody τ n cs t
        | flow => return flow := by
  rw [execBody_append, execBody_singleton, conditional_exec]
  split <;> rfl

/-- Blocks have different numbers as words. -/
theorem ofNat_word_ne {b k : Nat} (hb : b < 2 ^ 32) (hk : k < 2 ^ 32) (hne : b ≠ k) :
    BitVec.ofNat 32 b ≠ BitVec.ofNat 32 k := by
  intro heq
  have htoNat := congrArg BitVec.toNat heq
  rw [BitVec.toNat_ofNat, BitVec.toNat_ofNat, Nat.mod_eq_of_lt hb, Nat.mod_eq_of_lt hk] at htoNat
  exact hne htoNat

/-- The flow of the block that the selector names, seen from outside of the conditional
around it. -/
theorem lowerBlocks_exec (hσ : σ.Lowers m τ) (hsel : f.selector.toNat = f.registers.toNat)
    {is : Block} {s : Frame} (hregs : s.registers.length = f.registers.toNat)
    (his : is.WellFormedIn m f block) (hblock : block < 2 ^ 32) {bs : List Block} {k : Nat}
    {code : List Instr} (hk : k ≤ block) (hb : bs[block - k]? = some is)
    (hc : lowerBlocks m f.selector k bs = .ok code) :
    Instr.execBody τ n code (s.toState [] (BitVec.ofNat 32 block)) =
      (execBlock σ f.returns block is s).map fun flow =>
        (flow.toWasm (BitVec.ofNat 32 block)).leave [] := by
  induction bs generalizing k code with
  | nil => cases hb
  | cons b bs ih =>
      unfold lowerBlocks at hc
      split at hc
      · cases hc
      · cases hc
      · rename_i c cs hfirst hrest
        cases hc
        rw [whenSelected_exec (hsel.trans hregs.symm), ifThen_exec]
        by_cases hkb : k = block
        -- The code of the selected block leaves the round; that of the others is skipped.
        · subst hkb
          obtain rfl : b = is := by simpa using hb
          rw [if_neg (by simp [wordOfBool]),
            lowerInstructions_simulates hσ hsel his.sound hregs hfirst]
          cases hflow : execBlock σ f.returns k b s with
          | error e => rfl
          | ok flow =>
              cases flow with
              | next t => exact absurd hflow (execBlock_ne_next his.nonempty his.last)
              | goto d t => rfl
              | ret r => rfl
        · have hne := ofNat_word_ne hblock (Nat.lt_of_le_of_lt hk hblock) (Ne.symm hkb)
          rw [if_pos (by simp [wordOfBool, hne])]
          refine ih (k := k + 1) (by omega) ?_ hrest
          have hindex : block - k = block - (k + 1) + 1 := by omega
          rwa [hindex, List.getElem?_cons_succ] at hb

end Blocks

/-! ## Functions -/

section Functions

variable {m : Module} {f : Function} {σ : Surroundings} {τ : Wasm.Surroundings}

/-- A round of the loop is the run of a block. -/
theorem runLoop_eq_runFrom {N : Nat} (hσ : σ.Lowers m τ) (hf : f.WellFormedIn m)
    (hsel : f.selector.toNat = f.registers.toNat) (hblocks : f.blocks.length ≤ 2 ^ 32)
    {code : List Instr} (hc : lowerBlocks m f.selector 0 f.blocks = .ok code) {n b : Nat}
    {s : Frame} (hb : b < f.blocks.length) (hregs : s.registers.length = f.registers.toNat) :
    Wasm.runLoop (Instr.execBody τ N code) n (s.toState [] (BitVec.ofNat 32 b)) =
      (f.runFrom σ n b s).map fun r => .ret r.1.toList r.2 := by
  induction n generalizing b s with
  | zero => rfl
  | succ n ih =>
      have his := List.getElem?_eq_getElem hb
      have hwf := hf.blocks b _ his
      have hbody := lowerBlocks_exec (n := N) hσ hsel hregs hwf (Nat.lt_of_lt_of_le hb hblocks)
        (Nat.zero_le b) his hc
      unfold Wasm.runLoop Function.runFrom
      simp only [his]
      show (Instr.execBody τ N code (s.toState [] (BitVec.ofNat 32 b)) >>= _) = _
      rw [hbody]
      cases hflow : execBlock σ f.returns b f.blocks[b] s with
      | error e => rfl
      | ok flow =>
          have hkeeps := execBlock_keeps hflow
          cases flow with
          -- This is where the end of the round would be reached.
          | next t => exact absurd hflow (execBlock_ne_next hwf.nonempty hwf.last)
          | goto d t => exact ih (execBlock_goto_lt hwf.sound hflow) (hkeeps.trans hregs)
          | ret r => rfl

/-- The counts of a function that leave an index for the selector: it is behind all registers,
and the number of local variables with it among them has 32 bits. -/
structure Function.SelectorFits (f : Function) : Prop where
  index : f.params.toNat + f.locals.toNat < 2 ^ 32
  declared : f.locals.toNat + 1 < 2 ^ 32

theorem Function.SelectorFits.registers (h : f.SelectorFits) :
    f.registers.toNat = f.params.toNat + f.locals.toNat := by
  have hindex := h.index
  rw [Function.registers, UInt64.toNat_add, Nat.mod_eq_of_lt (by omega)]

theorem Function.SelectorFits.selector (h : f.SelectorFits) :
    f.selector.toNat = f.registers.toNat := by
  have hindex := h.index
  have hregs := h.registers
  rw [Function.selector, UInt64.toNat_toUInt32, Nat.mod_eq_of_lt (by omega)]

theorem Function.SelectorFits.locals (h : f.SelectorFits) :
    (f.locals.toUInt32 + 1).toNat = f.locals.toNat + 1 := by
  have hdeclared := h.declared
  rw [UInt32.toNat_add, UInt64.toNat_toUInt32]
  simp only [UInt32.toNat_one]
  omega

/-- The lowered function starts with the registers of the function and with the first block
selected. -/
theorem Function.SelectorFits.entry (h : f.SelectorFits) (args : List Word) (memory : Memory) :
    (⟨[], args ++ List.replicate (f.locals.toUInt32 + 1).toNat 0, memory⟩ : Wasm.State) =
      (f.entry args memory).toState [] (BitVec.ofNat 32 0) := by
  rw [h.locals, List.replicate_succ']
  simp [Frame.toState, Function.entry]

theorem Function.SelectorFits.entry_registers (h : f.SelectorFits) {args : List Word}
    (hargs : args.length = f.params.toNat) (memory : Memory) :
    (f.entry args memory).registers.length = f.registers.toNat := by
  simp [Function.entry, h.registers, hargs]

/-- The counts of a function that leave room for the selector. -/
def Function.Countable (f : Function) : Prop :=
  f.params.toNat + f.locals.toNat + 1 < 2 ^ 32

theorem Function.Countable.selectorFits (h : f.Countable) : f.SelectorFits := by
  unfold Countable at h
  exact ⟨by omega, by omega⟩

theorem Function.Countable.registers (h : f.Countable) :
    f.registers.toNat = f.params.toNat + f.locals.toNat := h.selectorFits.registers

theorem Function.Countable.selector (h : f.Countable) : f.selector.toNat = f.registers.toNat :=
  h.selectorFits.selector

theorem Function.Countable.locals (h : f.Countable) :
    (f.locals.toUInt32 + 1).toNat = f.locals.toNat + 1 := h.selectorFits.locals

/-- What is behind the loop of a lowered function traps. -/
theorem lowerFunction_eq_ok {h : Wasm.Func} (hc : lowerFunction m f = .ok h) :
    ∃ code, lowerBlocks m f.selector 0 f.blocks = .ok code ∧
      h = ⟨f.params.toNat, f.returns == .int, f.locals.toUInt32 + 1,
        [.loop code, .unreachable]⟩ := by
  unfold lowerFunction at hc
  cases hcode : lowerBlocks m f.selector 0 f.blocks with
  | error e => rw [hcode] at hc; cases hc
  | ok code =>
      rw [hcode] at hc
      cases hc
      exact ⟨code, rfl, rfl⟩

theorem lowerFunction_run {n : Nat} (hσ : σ.Lowers m τ) (hf : f.WellFormedIn m)
    (hcount : f.SelectorFits) (hblocks : f.blocks.length ≤ 2 ^ 32) {h : Wasm.Func}
    (hc : lowerFunction m f = .ok h) (args : List Word) (memory : Memory) :
    h.run τ n args memory = f.run σ n args memory := by
  obtain ⟨code, hcode, rfl⟩ := lowerFunction_eq_ok hc
  unfold Wasm.Func.run Function.run
  by_cases hargs : args.length = f.params.toNat
  · rw [if_pos hargs, if_pos hargs]
    have hloop := runLoop_eq_runFrom (n := n) (N := n) hσ hf hcount.selector hblocks hcode
      (List.length_pos_iff.mpr hf.nonempty) (hcount.entry_registers hargs memory)
    simp only [hcount.entry, Instr.execBody, Instr.exec, hloop]
    cases hrun : f.runFrom σ n 0 (f.entry args memory) with
    | error e => rfl
    | ok r =>
        have hresult := Function.runFrom_result hrun
        obtain ⟨v, memory'⟩ := r
        cases hret : f.returns with
        | void =>
            rw [hret] at hresult
            obtain rfl : v = none := Option.not_isSome_iff_eq_none.mp (by rw [hresult]; decide)
            rfl
        | int =>
            rw [hret] at hresult
            obtain ⟨w, rfl⟩ : ∃ w, v = some w := Option.isSome_iff_exists.mp hresult
            rfl
  · rw [if_neg hargs, if_neg hargs]

theorem lowerFunction_params {h : Wasm.Func} (hc : lowerFunction m f = .ok h) :
    h.params = f.params.toNat := by
  obtain ⟨code, -, rfl⟩ := lowerFunction_eq_ok hc
  rfl

end Functions

/-! ## The module -/

section Modules

variable {m : Module} {options : LoweringOptions} {w : Wasm.Module}

/-- Functions are lowered one by one and keep their indices. -/
theorem lowerFunctions_getElem? {fs : List Function} {hs : List Wasm.Func}
    (hc : lowerFunctions m fs = .ok hs) (g : Nat) :
    hs[g]?.map Except.ok = fs[g]?.map (lowerFunction m) := by
  induction fs generalizing hs g with
  | nil =>
      cases hc
      simp
  | cons f fs ih =>
      unfold lowerFunctions at hc
      cases hfirst : lowerFunction m f with
      | error e => rw [hfirst] at hc; cases hc
      | ok h =>
          cases hrest : lowerFunctions m fs with
          | error e => rw [hfirst, hrest] at hc; cases hc
          | ok hs =>
              rw [hfirst, hrest] at hc
              cases hc
              cases g with
              | zero => simp [hfirst]
              | succ g => simpa using ih hrest g

theorem lower_functions (hc : lower options m = .ok w) :
    lowerFunctions m m.functions = .ok w.functions := by
  unfold lower at hc
  split at hc
  · cases hc
  · cases hfunctions : lowerFunctions m m.functions with
    | error e => rw [hfunctions] at hc; cases hc
    | ok hs => rw [hfunctions] at hc; cases hc; rfl

/-- What the functions of a lowered module see is what those of the module see. -/
theorem lower_lowers {σ : Surroundings} (hc : lower options m = .ok w)
    (hresults : ∀ (g : Nat) (f : Function), m.functions[g]? = some f → ∀ args memory r,
      σ.callees g args memory = .ok r → r.1.isSome = (f.returns == .int)) :
    σ.Lowers m ⟨w.functions, σ.switches, σ.callees⟩ where
  globals := rfl
  callees := rfl
  params g f hf := by
    have hg := lowerFunctions_getElem? (lower_functions hc) g
    rw [hf] at hg
    obtain ⟨h, hh, hlower⟩ := Option.map_eq_some_iff.mp hg
    exact ⟨h, hh, lowerFunction_params hlower.symm⟩
  results := hresults

/-- Under every bound, a call of a function of the lowered module is a call of the function. -/
theorem lower_call_of_selectorFits (hm : m.WellFormed) (hcount : ∀ f ∈ m.functions, f.SelectorFits)
    (hblocks : ∀ f ∈ m.functions, f.blocks.length ≤ 2 ^ 32) (hc : lower options m = .ok w)
    (switches : List Word) (n : Nat) : w.call switches n = m.call switches n := by
  induction n with
  | zero => rfl
  | succ n ih =>
      funext g args memory
      have hσ : Surroundings.Lowers m ⟨switches, m.call switches n⟩
          ⟨w.functions, switches, w.call switches n⟩ := by
        rw [ih]
        exact lower_lowers hc fun g f hf args memory r hr => Module.call_result hf hr
      have hg := lowerFunctions_getElem? (lower_functions hc) g
      unfold Wasm.Module.call Module.call
      cases hf : m.functions[g]? with
      | none =>
          rw [hf] at hg
          rw [Option.map_eq_none_iff.mp hg]
      | some f =>
          rw [hf] at hg
          obtain ⟨h, hh, hlower⟩ := Option.map_eq_some_iff.mp hg
          have hmem := List.mem_of_getElem? hf
          rw [hh]
          exact lowerFunction_run hσ (hm.functions f hmem) (hcount f hmem) (hblocks f hmem)
            hlower.symm args memory

theorem lower_call (hm : m.WellFormed) (hcount : ∀ f ∈ m.functions, f.Countable)
    (hblocks : ∀ f ∈ m.functions, f.blocks.length ≤ 2 ^ 32) (hc : lower options m = .ok w)
    (switches : List Word) (n : Nat) : w.call switches n = m.call switches n :=
  lower_call_of_selectorFits hm (fun f hf => (hcount f hf).selectorFits) hblocks hc switches n

/-- Calls of the lowered module return what calls of the module return, and trap when
those trap. -/
theorem lower_preserves_calls (hm : m.isWellFormed = true)
    (hcount : ∀ f ∈ m.functions, f.params.toNat + f.locals.toNat + 1 < 2 ^ 32)
    (hblocks : ∀ f ∈ m.functions, f.blocks.length < 2 ^ 31) (hc : lower options m = .ok w)
    (switches : List Word) (index : Nat) (args : List Word) (memory : Memory) :
    (∀ r, w.Returns switches index args memory r ↔ m.Returns switches index args memory r) ∧
      (w.Traps switches index args memory ↔ m.Traps switches index args memory) := by
  have hcall := lower_call ((Module.isWellFormed_iff m).mp hm) hcount
    (fun f hf => Nat.le_of_lt (Nat.lt_trans (hblocks f hf) (by decide))) hc switches
  constructor
  · intro r
    simp only [Wasm.Module.Returns, Module.Returns, hcall]
  · simp only [Wasm.Module.Traps, Module.Traps, hcall]

/-- A module that adds up the numbers up to its argument, by calling itself. -/
def summing : Module :=
  let r : Nat → Operand := fun n => .register ⟨n.toUInt8⟩
  ⟨"summing.json",
    [⟨"sum", 1, 2,
      [[⟨.branchIf, none, [r 0, .block 2]⟩], [⟨.ret, none, [r 0]⟩],
        [⟨.sub, some ⟨1⟩, [r 0, .immediate (.int 1)]⟩,
          ⟨.call, some ⟨2⟩, [.function 0, r 1]⟩,
          ⟨.add, some ⟨1⟩, [r 0, r 2]⟩, ⟨.ret, none, [r 1]⟩]], .int⟩],
    0, 1, []⟩

theorem lower_preserves_calls_summing :
    ∃ w, lower .default summing = .ok w ∧ w.Returns [] 0 [3] [] (some 6, []) := by
  obtain ⟨w, hw⟩ : ∃ w, lower .default summing = .ok w := ⟨_, rfl⟩
  have hcalls := lower_preserves_calls (by decide) (by decide) (by decide) hw [] 0 [3] []
  exact ⟨w, hw, (hcalls.1 _).mpr ⟨5, by decide⟩⟩

end Modules

end MutantGate
