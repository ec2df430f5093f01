import MutantGate.Proofs.MutatedModule
/-!
# What the gate says about the input

The gate looks at a module only after its mutants have been made.  Whatever is wrong with
a function is then still wrong with its untouched copy, with two exceptions: a call of a
function that is not there, and a read of a switch that is not there, are in order once
that very function or switch has been appended for a mutant.  So of an input that makes it
through the gate nothing else can be wrong, and an input without such references is
well-formed.

## What is proved

For a program of one module and the points found in it, whatever is wrong with that module: if the
mutants can be made and the module with them passes the gate, then every diagnostic of the module is
a call of a function or a read of a switch that it does not have and the mutated module has.  The
exceptions occur: a module is given that calls what will be a copy of one of its own functions, and
the gate lets its mutants through.

## What is left outside

Nothing is said about the other direction, so an input without such references may still fail.  And
what a mutated module does that was made from an input with them is not looked at: the theorems
about runs ask for a module that is well-formed to begin with.
-/

namespace MutantGate

/-! ## References to what is appended -/

/-- A reference to a function or a switch that the first module does not have, and that the
second one has. -/
def Violation.FilledBy (m m' : Module) : Violation → Prop
  | .missingCallee index => m.functions.length ≤ index ∧ index < m'.functions.length
  | .missingSwitch index => m.switches.length ≤ index ∧ index < m'.switches.length
  | _ => False

section FilledBy

variable {m m' : Module} {f : Function} {block : Nat} {i : Instruction} {v : Violation}

theorem mem_callViolations_filledBy (h : m.Extends m') (hi : callViolations m' i = [])
    (hv : v ∈ callViolations m i) : v.FilledBy m m' := by
  obtain ⟨index, args, callee', hops, hcallee', hlength, hvalue, hvoid⟩ :=
    (callViolations_eq_nil_iff m' i).mp hi
  cases hcallee : m.functions[index.toNat]? with
  | some callee =>
      obtain ⟨callee'', hcallee'', hsame⟩ := h.functions _ _ hcallee
      obtain rfl : callee' = callee'' := Option.some.inj (hcallee'.symm.trans hcallee'')
      have hnone : callViolations m i = [] := by
        refine (callViolations_eq_nil_iff m i).mpr
          ⟨index, args, callee, hops, hcallee, ?_, hvalue, ?_⟩
        · rw [← hsame.params]
          exact hlength
        · rw [← hsame.returns]
          exact hvoid
      rw [hnone] at hv
      cases hv
  | none =>
      unfold callViolations at hv
      simp only [hops, hcallee] at hv
      cases List.mem_singleton.mp hv
      exact ⟨List.getElem?_eq_none_iff.mp hcallee, (List.getElem?_eq_some_iff.mp hcallee').1⟩

theorem mem_switchViolations_filledBy (hi : switchViolations m' i = [])
    (hv : v ∈ switchViolations m i) : v.FilledBy m m' := by
  obtain ⟨k, hops, hk⟩ := (switchViolations_eq_nil_iff m' i).mp hi
  unfold switchViolations at hv
  simp only [hops] at hv
  split at hv
  · cases hv
  · rename_i hmissing
    cases List.mem_singleton.mp hv
    exact ⟨Nat.le_of_not_lt hmissing, hk⟩

/-- What is wrong with an instruction in a module, and not any more in an extension, is a
reference that the extension has filled. -/
theorem mem_instructionViolations_filledBy (h : m.Extends m')
    (hi : instructionViolations m' f block i = []) (hv : v ∈ instructionViolations m f block i) :
    v.FilledBy m m' := by
  obtain ⟨hregisters, hoperands, hdest⟩ := (instructionViolations_eq_nil_iff m' f block i).mp hi
  rw [instructionViolations, (registerViolations_eq_nil_iff f i).mpr hregisters, hdest,
    List.nil_append, List.append_nil] at hv
  unfold operandViolations at hoperands hv
  -- All other rules do not look at the module, so nothing can have been filled for them.
  cases hop : i.opcode <;> simp only [hop] at hoperands hv
  case call => exact mem_callViolations_filledBy h hoperands hv
  case readSwitch => exact mem_switchViolations_filledBy hoperands hv
  all_goals
    rw [hoperands] at hv
    cases hv

theorem mem_functionDiagnostics_filledBy (h : m.Extends m') (hf : f.WellFormedIn m')
    {d : Diagnostic} (hd : d ∈ functionDiagnostics m f) : d.violation.FilledBy m m' := by
  obtain ⟨hempty, -⟩ | ⟨block, b, hb, hd⟩ := mem_functionDiagnostics_iff.mp hd
  · exact absurd hempty hf.nonempty
  · have hblock := hf.blocks block b hb
    obtain ⟨hempty, -⟩ | ⟨index, i, v, hi, hv, rfl⟩ := mem_blockDiagnostics_iff.mp hd
    · exact absurd hempty hblock.nonempty
    · rw [(closingViolations_eq_nil_iff _ i).mpr (hblock.closed index i hi),
        List.nil_append] at hv
      exact mem_instructionViolations_filledBy h (hblock.sound i (List.mem_of_getElem? hi)) hv

/-- All that is wrong with a module of which another one keeps the names, and the code in
order, is references that the other one has filled. -/
theorem mem_diagnostics_filledBy (h : m.Extends m')
    (hnames : m.functions.map Function.name <+: m'.functions.map Function.name)
    (hswitches : m.switches <+: m'.switches) (hm' : m'.WellFormed)
    (hcode : ∀ f ∈ m.functions, f.WellFormedIn m') {d : Diagnostic} (hd : d ∈ m.diagnostics) :
    d.violation.FilledBy m m' := by
  have hnameViolations : nameViolations [] (m.functions.map Function.name) = [] :=
    (nameViolations_eq_nil_iff _ _).mpr ⟨fun hmem => hm'.named (hnames.subset hmem),
      hm'.namesDistinct.sublist hnames.sublist, fun _ _ => List.not_mem_nil⟩
  have hrepeated : repeated .duplicateSwitch [] m.switches = [] :=
    (repeated_eq_nil_iff _ _ _).mpr
      ⟨hm'.switchesDistinct.sublist hswitches.sublist, fun _ _ => List.not_mem_nil⟩
  rw [Module.diagnostics, hnameViolations, hrepeated, List.append_nil, List.map_nil,
    List.nil_append] at hd
  obtain ⟨f, hf, hd⟩ := List.mem_flatMap.mp hd
  exact mem_functionDiagnostics_filledBy h (hcode f hf) hd

end FilledBy

/-! ## Mutated modules -/

namespace Module.Mutates

variable {m m' : Module} {id : ModuleId} {points : List Point}

/-- Every function keeps its name and its signature, and its code is kept somewhere. -/
theorem kept (h : m.Mutates id points m') {g : Nat} {f : Function}
    (hf : m.functions[g]? = some f) :
    (∃ f', m'.functions[g]? = some f' ∧ f'.name = f.name ∧ f.SameSignature f') ∧
      ∃ name, { f with name := name } ∈ m'.functions := by
  by_cases hpoints : pointsIn id points g = []
  · have huntouched := h.untouched g (List.getElem?_eq_some_iff.mp hf).1 hpoints
    rw [hf] at huntouched
    exact ⟨⟨f, huntouched, rfl, .refl f⟩, f.name, List.mem_of_getElem? huntouched⟩
  · obtain ⟨fallback, arms, hdispatcher, hcopy, -⟩ := (h.mutated g f hf hpoints).split
    obtain ⟨name, hname⟩ := hcopy.present
    exact ⟨⟨_, hdispatcher, rfl, ⟨rfl, rfl⟩⟩, name, List.mem_of_getElem? hname⟩

theorem extension (h : m.Mutates id points m') : m.Extends m' := by
  obtain ⟨new, hnew, -⟩ := h.switches
  refine ⟨fun g f hf => ?_, ?_⟩
  · obtain ⟨⟨f', hf', -, hsame⟩, -⟩ := h.kept hf
    exact ⟨f', hf', hsame⟩
  · rw [hnew, List.length_append]
    exact Nat.le_add_right _ _

theorem names_prefix (h : m.Mutates id points m') :
    m.functions.map Function.name <+: m'.functions.map Function.name := by
  refine List.prefix_iff_getElem?.mpr fun g hg => ?_
  have hf := List.getElem?_eq_getElem (l := m.functions) (by simpa using hg)
  obtain ⟨⟨f', hf', hname, -⟩, -⟩ := h.kept hf
  rw [List.getElem?_map, hf', List.getElem_map]
  exact congrArg some hname

theorem wellFormedIn (h : m.Mutates id points m') (hm' : m'.WellFormed) :
    ∀ f ∈ m.functions, f.WellFormedIn m' := by
  intro f hf
  obtain ⟨g, hg⟩ := List.mem_iff_getElem?.mp hf
  obtain ⟨-, name, hname⟩ := h.kept hg
  exact (hm'.functions _ hname).rename f.name

end Module.Mutates

/-- If the mutated module passes the gate, nothing is wrong with the module but references to
functions and switches that making the mutants has filled. -/
theorem diagnostics_filledBy_of_mutate {program program' : Program} {l l' : LoadedModule}
    {operators : List Operator} {filter : Filter} {points : List Point}
    (hprogram : program.modules = [l])
    (hpoints : points = discover operators filter program (candidates program))
    (hmutate : Validator.mutate program points = .ok program') (hl' : l' ∈ program'.modules)
    (haccepted : l'.module.isWellFormed = true) :
    ∀ d ∈ l.module.diagnostics, d.violation.FilledBy l.module l'.module := by
  intro d hd
  have hfound : ∀ p ∈ points, p.module = l.id ∧ p.location.function < l.module.functions.length :=
    hpoints ▸ mem_discover_single hprogram
  obtain ⟨l₁, hmodules, hmutates⟩ := mutates_of_mutate hprogram hfound hmutate
  rw [hmodules, List.mem_singleton] at hl'
  subst hl'
  have hwf := (Module.isWellFormed_iff l'.module).mp haccepted
  obtain ⟨new, hnew, -⟩ := hmutates.switches
  exact mem_diagnostics_filledBy hmutates.extension hmutates.names_prefix
    (hnew ▸ List.prefix_append _ _) hwf (hmutates.wellFormedIn hwf) hd

/-! ## An input that is not well-formed and is let through -/

/-- A module whose second function calls what will be the copy of the first. -/
def dangling : Module :=
  let r : Nat → Operand := fun n => .register ⟨n.toUInt8⟩
  ⟨"dangling.json",
    [⟨"add", 2, 1, [[⟨.add, some ⟨2⟩, [r 0, r 1]⟩, ⟨.ret, none, [r 2]⟩]], .int⟩,
      ⟨"double", 1, 1, [[⟨.call, some ⟨1⟩, [.function 2, r 0, r 0]⟩, ⟨.ret, none, [r 1]⟩]], .int⟩],
    0, 1, []⟩

def danglingProgram : Program := (Program.empty 1).add dangling "dangling.json"

def danglingPoints : List Point :=
  discover [.addToSub] .acceptAll danglingProgram (candidates danglingProgram)

theorem dangling_mutate :
    ∃ program' l', Validator.mutate danglingProgram danglingPoints = .ok program' ∧
      program'.modules = [l'] ∧ l'.module.isWellFormed = true := by
  have haccepted : (Validator.mutate danglingProgram danglingPoints).toOption.map
      (fun p => p.modules.map fun l => l.module.isWellFormed) = some [true] := by
    decide +kernel
  cases hmutate : Validator.mutate danglingProgram danglingPoints with
  | error e =>
      rw [hmutate] at haccepted
      cases haccepted
  | ok program' =>
      rw [hmutate] at haccepted
      obtain ⟨l', hmodules, hwf⟩ := List.map_eq_singleton_iff.mp (Option.some.inj haccepted)
      exact ⟨program', l', rfl, hmodules, hwf⟩

/-- The gate lets the mutated module through. -/
theorem dangling_accepted :
    dangling.isWellFormed = false ∧
      ∃ program', Validator.mutate danglingProgram danglingPoints = .ok program' ∧
        ∀ l' ∈ program'.modules, l'.module.isWellFormed = true := by
  obtain ⟨program', l', hmutate, hmodules, hwf⟩ := dangling_mutate
  refine ⟨by decide, program', hmutate, fun l hl => ?_⟩
  rw [hmodules, List.mem_singleton] at hl
  exact hl ▸ hwf

/-- Its one defect is the call, which the copy has filled. -/
theorem diagnostics_filledBy_of_mutate_dangling :
    ∃ program' l', Validator.mutate danglingProgram danglingPoints = .ok program' ∧
      l' ∈ program'.modules ∧ (Violation.missingCallee 2).FilledBy dangling l'.module := by
  obtain ⟨program', l', hmutate, hmodules, hwf⟩ := dangling_mutate
  have hl' : l' ∈ program'.modules := hmodules ▸ List.mem_singleton_self l'
  have hfilled := diagnostics_filledBy_of_mutate rfl rfl hmutate hl' hwf
  exact ⟨program', l', hmutate, hl',
    hfilled ⟨.instruction "double" 0 0, .missingCallee 2⟩ (by decide)⟩

end MutantGate
