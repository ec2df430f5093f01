import MutantGate.Proofs.LoweredRuns
/-!
# Counting registers

The registers of a function are its parameters and its local variables.  Both are counted in 64
bits and nothing bounds either of them, but their sum is kept in 64 bits as well, and the code
for a function has 32 bits for the index of the selector and for the number of local variables.
So the counts are right below the bounds only that this sets, and above them they wrap around:
registers are refused that are there, and the selector falls on a register that is in use.

## What is proved

For every function, whatever module it is in: the check of registers is right exactly below `2 ^ 64`
of them or from `2 ^ 64 + 256` on, the selector stands behind the registers exactly below `2 ^ 32`
of them, and exactly where the count has just wrapped around it is a register in use.  In every
lowered module, well-formed or not, the number of local variables is right exactly as long as it
fits 32 bits.  Both failures occur, the second in a module that the gate lets through.

## What is left outside

What a module does with a selector that falls on a register, beyond the one that is given.
-/

namespace MutantGate

/-- The parameters and local variables of a function, however many there are. -/
def Function.registerCount (f : Function) : Nat := f.params.toNat + f.locals.toNat

section

variable {f : Function}

theorem Function.registers_toNat_eq (f : Function) :
    f.registers.toNat = f.registerCount % 2 ^ 64 :=
  UInt64.toNat_add ..

theorem Function.selector_toNat_eq (f : Function) :
    f.selector.toNat = f.registerCount % 2 ^ 32 := by
  rw [Function.selector, UInt64.toNat_toUInt32, f.registers_toNat_eq]
  omega

theorem Function.registerCount_lt (f : Function) : f.registerCount < 2 ^ 65 := by
  have hparams := f.params.toNat_lt
  have hlocals := f.locals.toNat_lt
  unfold Function.registerCount
  omega

/-! ## The check of registers -/

theorem Instruction.registersBelow_of_le (i : Instruction) {n : Nat} (hn : 256 ≤ n) :
    i.RegistersBelow n where
  dest r _ := Nat.lt_of_lt_of_le r.index.toNat_lt hn
  operand r _ := Nat.lt_of_lt_of_le r.index.toNat_lt hn

/-- The registers that an instruction names are compared with the number of all registers. -/
def Function.ChecksRegisters (f : Function) : Prop :=
  ∀ i, registerViolations f i = [] ↔ i.RegistersBelow f.registerCount

/-- Registers are checked as they should be if their number is not cut, or if what is left of it
is more than an instruction can name. -/
theorem Function.checksRegisters_iff :
    f.ChecksRegisters ↔ f.registerCount < 2 ^ 64 ∨ 2 ^ 64 + 256 ≤ f.registerCount := by
  have hcount := f.registerCount_lt
  have hregisters := f.registers_toNat_eq
  constructor
  · intro hchecks
    by_contra hbetween
    -- The first register that is refused is one that an instruction can name.
    let r : Register := ⟨f.registers.toNat.toUInt8⟩
    have hr : r.index.toNat = f.registers.toNat := by
      show f.registers.toNat % 2 ^ 8 = f.registers.toNat
      omega
    have hbelow := (Instruction.mk .nop (some r) []).registersBelow_of_le
      (by omega : 256 ≤ f.registerCount)
    rw [← hchecks, registerViolations_eq_nil_iff] at hbelow
    exact absurd (hbelow.dest r rfl) (by omega)
  · intro hbounds i
    rw [registerViolations_eq_nil_iff]
    rcases hbounds with hlt | hle
    · rw [hregisters, Nat.mod_eq_of_lt hlt]
    · exact iff_of_true (i.registersBelow_of_le (by omega)) (i.registersBelow_of_le (by omega))

/-! ## The selector -/

theorem Function.selector_eq_registerCount_iff :
    f.selector.toNat = f.registerCount ↔ f.registerCount < 2 ^ 32 := by
  rw [f.selector_toNat_eq]
  exact ⟨fun h => h ▸ Nat.mod_lt _ (by decide), Nat.mod_eq_of_lt⟩

/-- The selector is one of the registers that the instructions of a function may name. -/
def Function.SelectorInUse (f : Function) : Prop :=
  ∃ r : Register, r.index.toNat < f.registers.toNat ∧ r.index.toNat = f.selector.toNat

theorem Function.selectorInUse_iff :
    f.SelectorInUse ↔ 2 ^ 32 ≤ f.registerCount % 2 ^ 64 ∧ f.registerCount % 2 ^ 32 < 256 := by
  unfold Function.SelectorInUse
  rw [f.registers_toNat_eq, f.selector_toNat_eq]
  constructor
  · rintro ⟨r, hlt, heq⟩
    have hr := r.index.toNat_lt
    omega
  · rintro ⟨hle, hlt⟩
    refine ⟨⟨(f.registerCount % 2 ^ 32).toUInt8⟩, ?_, ?_⟩
    · show f.registerCount % 2 ^ 32 % 2 ^ 8 < _
      omega
    · show f.registerCount % 2 ^ 32 % 2 ^ 8 = _
      omega

theorem Function.locals_add_one_eq_iff :
    (f.locals.toUInt32 + 1).toNat = f.locals.toNat + 1 ↔ f.locals.toNat + 1 < 2 ^ 32 := by
  have hcut : (f.locals.toUInt32 + 1).toNat = (f.locals.toNat + 1) % 2 ^ 32 := by
    rw [UInt32.toNat_add, UInt64.toNat_toUInt32]
    simp only [UInt32.toNat_one]
    omega
  rw [hcut]
  exact ⟨fun h => h ▸ Nat.mod_lt _ (by decide), Nat.mod_eq_of_lt⟩

end

/-! ## The counts in a lowered module -/

/-- Each count of a function is right up to a bound.  Registers are checked as they should be below
`2 ^ 64` of them, and again once those that are left of more are as many as can be named.  The
selector stands behind the registers below `2 ^ 32` of them; above it falls on one in use wherever
the count has just wrapped around.  And in the code for the function the local variables leave room
for the selector below `2 ^ 32 - 1` of them. -/
theorem lower_register_counts (f : Function) :
    (f.ChecksRegisters ↔ f.registerCount < 2 ^ 64 ∨ 2 ^ 64 + 256 ≤ f.registerCount) ∧
      (f.selector.toNat = f.registerCount ↔ f.registerCount < 2 ^ 32) ∧
      (f.SelectorInUse ↔ 2 ^ 32 ≤ f.registerCount % 2 ^ 64 ∧ f.registerCount % 2 ^ 32 < 256) ∧
      ∀ (m : Module) (options : LoweringOptions) (w : Wasm.Module) (g : Nat),
        lower options m = .ok w → m.functions[g]? = some f →
          ∃ h code, w.functions[g]? = some h ∧ lowerBlocks m f.selector 0 f.blocks = .ok code ∧
            h.body = [.loop code, .unreachable] ∧ h.params = f.params.toNat ∧
            (h.locals.toNat = f.locals.toNat + 1 ↔ f.locals.toNat + 1 < 2 ^ 32) := by
  refine ⟨f.checksRegisters_iff, f.selector_eq_registerCount_iff, f.selectorInUse_iff, ?_⟩
  intro m options w g hc hf
  have hg := lowerFunctions_getElem? (lower_functions hc) g
  rw [hf] at hg
  obtain ⟨h, hh, hlowered⟩ := Option.map_eq_some_iff.mp hg
  obtain ⟨code, hcode, rfl⟩ := lowerFunction_eq_ok hlowered.symm
  exact ⟨_, code, hh, hcode, rfl, rfl, f.locals_add_one_eq_iff⟩

/-- In the module that sums, with its three registers, all counts are right. -/
theorem lower_register_counts_summing :
    ∃ f w h, summing.functions[0]? = some f ∧ lower .default summing = .ok w ∧
      w.functions[0]? = some h ∧ f.ChecksRegisters ∧ f.selector.toNat = 3 ∧ ¬ f.SelectorInUse ∧
      h.locals.toNat = 3 := by
  obtain ⟨w, hw⟩ : ∃ w, lower .default summing = .ok w := ⟨_, rfl⟩
  obtain ⟨f, hf⟩ : ∃ f, summing.functions[0]? = some f := ⟨_, rfl⟩
  obtain ⟨hchecks, hselector, hinUse, hlowered⟩ := lower_register_counts f
  obtain ⟨h, code, hh, -, -, -, hlocals⟩ := hlowered summing .default w 0 hw hf
  cases hf
  refine ⟨_, w, h, rfl, hw, hh, hchecks.mpr (by decide), hselector.mpr (by decide), ?_,
    hlocals.mpr (by decide)⟩
  exact fun huse => absurd (hinUse.mp huse) (by decide)

/-- A function that gives back its parameter, with all the local variables that can be counted
besides. -/
def crowded : Module :=
  ⟨"crowded.json", [⟨"id", 1, 18446744073709551615, [[.ret ⟨0⟩]], .int⟩], 0, 1, []⟩

/-- A function that puts a constant into its first register and gives it back from a second
block. -/
def overlapping : Module :=
  ⟨"overlapping.json",
    [⟨"seven", 0, 4294967296, [[.const ⟨0⟩ (.int 7), .branch 1], [.ret ⟨0⟩]], .int⟩], 0, 1, []⟩

/-- The only parameter of a function is refused, as if there were no registers.  And in a module
that is verified and lowered the selector is the first register, so the number of the block
comes back and not the constant. -/
theorem register_counts_wrap :
    crowded.diagnostics = [⟨.instruction "id" 0 0, .operandOutOfRange ⟨0⟩ 0⟩] ∧
      overlapping.isWellFormed = true ∧ ∃ w, lower .default overlapping = .ok w ∧
        w.functions.map (fun h => h.locals) = [1] ∧
        (∀ f ∈ overlapping.functions, f.selector = 0 ∧ f.SelectorInUse) ∧
        w.Returns [] 0 [] [] (some 1, []) := by
  have hrefused : crowded.diagnostics = [⟨.instruction "id" 0 0, .operandOutOfRange ⟨0⟩ 0⟩] := by
    decide
  have hverified : overlapping.isWellFormed = true := by decide
  refine ⟨hrefused, hverified, _, rfl, rfl, ?_, 2, by decide +kernel⟩
  intro f hf
  obtain rfl := List.mem_singleton.mp hf
  exact ⟨rfl, ⟨0⟩, by decide, rfl⟩

end MutantGate
