import MutantGate.Proofs.MutatedModule
import MutantGate.Proofs.DispatcherRuns
/-!
# A mutated module behaves as the selected mutants

A valuation of the switches selects a mutant of each function: the first whose switch is
on.  The mutated module under the valuation behaves as the module in which every function
has been replaced by its selected mutant.

Runs of the two are compared bound by bound.  A call that enters a dispatcher takes one
more call, and as many more blocks as there are tests; so a bound on the selected module
shows what a multiple of it shows on the mutated module.  The other way the bound stays,
for the dispatcher only adds to a run.

## What is proved

For every well-formed module, every search in it and all values of the switches: a call returns in
the mutated module exactly if it returns the same in the module with the selected mutants, and traps
exactly if it traps there.  The two inductions are `Module.Mutates.call_approximates` and
`Module.Mutates.approximates_call`; functions, switches and points are fewer than `2 ^ 30` each, so
that no operand cuts an index off.

## What is left outside

Calls by an index that the module did not have before.  And runs that come to no end, of which only
this is said.
-/

namespace MutantGate

/-! ## The selected mutants -/

/-- Is the switch of a name on, given the names and the values of all switches? -/
def switchOn (names : List String) (values : List Word) (name : String) : Bool :=
  ((names.zip values).lookup name).any (· != 0)

/-- A function with the replacement of the first of its points that is on, or as it is. -/
def Function.selectMutant (f : Function) (points : List Point) (on : String → Bool) : Function :=
  match points.find? fun p => on p.identifier with
  | some p => (p.rewrite? f).getD f
  | none => f

/-- A module in which each function has been replaced by its selected mutant. -/
def Module.selectMutants (m : Module) (id : ModuleId) (points : List Point) (on : String → Bool) :
    Module :=
  { m with
    functions := m.functions.mapIdx fun g f => f.selectMutant (pointsIn id points g) on }

theorem switchOn_eq {names : List String} {values : List Word} {name : String} {k : Nat}
    (hdistinct : names.Nodup) (hlength : values.length = names.length)
    (hname : names[k]? = some name) :
    switchOn names values name = values[k]?.any (· != 0) := by
  have hk := (List.getElem?_eq_some_iff.mp hname).1
  have hvalue := List.getElem?_eq_getElem (hlength ▸ hk : k < values.length)
  have hkeys : ((names.zip values).map Prod.fst).Nodup := by
    rw [List.map_fst_zip (Nat.le_of_eq hlength.symm)]
    exact hdistinct
  have hmem : (name, values[k]) ∈ names.zip values := by
    refine List.mem_iff_getElem?.mpr ⟨k, ?_⟩
    rw [List.getElem?_zip_eq_some]
    exact ⟨hname, hvalue⟩
  rw [switchOn, lookup_eq_some_of_mem hkeys hmem, hvalue]

theorem Module.selectMutants_getElem? {m : Module} {id : ModuleId} {points : List Point}
    {on : String → Bool} {g : Nat} {f : Function} (hf : m.functions[g]? = some f) :
    (m.selectMutants id points on).functions[g]? =
      some (f.selectMutant (pointsIn id points g) on) := by
  simp [selectMutants, hf]

/-- The dispatcher calls the selected mutant. -/
theorem Module.MutatedAt.dispatched {m : Module} {base fallback : Nat} {f : Function}
    {values : List Word} (hdistinct : m.switches.Nodup)
    (hlength : values.length = m.switches.length) (hfallback : m.CopyAt base f fallback)
    {arms : List Arm} {points : List Point} (h : List.Forall₂ (m.MutantArm base f) arms points) :
    m.CopyAt base (f.selectMutant points (switchOn m.switches values))
      (dispatched values fallback arms) := by
  induction h with
  | nil => exact hfallback
  | @cons a p arms points harm harms ih =>
      have hon := switchOn_eq hdistinct hlength harm.switch
      unfold MutantGate.dispatched Function.selectMutant
      rw [List.find?_cons, hon]
      cases values[a.switch]?.any (· != 0) with
      | false => exact ih
      | true =>
          obtain ⟨f', hf', hcopy⟩ := harm.clone
          rw [if_pos rfl]
          simp only [hf', Option.getD_some]
          exact hcopy

/-! ## What the selected mutants keep -/

theorem Function.WellFormedIn.namesBelow {m : Module} {f : Function} (h : f.WellFormedIn m) :
    f.NamesBelow m.functions.length m.switches.length := by
  intro b hb i hi
  obtain ⟨block, hblock⟩ := List.mem_iff_getElem?.mp hb
  have hsound := (h.blocks block b hblock).sound i hi
  have hoperands := ((instructionViolations_eq_nil_iff m f block i).mp hsound).2.1
  unfold operandViolations at hoperands
  constructor
  · intro hop g args hargs
    rw [hop] at hoperands
    obtain ⟨g', args', callee, hops, hcallee, -⟩ := (callViolations_eq_nil_iff m i).mp hoperands
    cases hargs.symm.trans hops
    exact (List.getElem?_eq_some_iff.mp hcallee).1
  · intro hop k hk
    rw [hop] at hoperands
    obtain ⟨k', hops, hlt⟩ := (switchViolations_eq_nil_iff m i).mp hoperands
    cases hk.symm.trans hops
    exact hlt

namespace Function

variable {f : Function} {points : List Point} {on : String → Bool}

/-- A selected mutant is the function or has one replacement in it. -/
theorem selectMutant_cases (f : Function) (points : List Point) (on : String → Bool) :
    f.selectMutant points on = f ∨ ∃ p : Point, p.rewrite? f = some (f.selectMutant points on) := by
  unfold selectMutant
  cases points.find? fun p => on p.identifier with
  | none => exact Or.inl rfl
  | some p =>
      cases hf : p.rewrite? f with
      | none => exact Or.inl (by simp [hf])
      | some f' => exact Or.inr ⟨p, by simp [hf]⟩

theorem selectMutant_namesBelow {functions switches : Nat} (h : f.NamesBelow functions switches) :
    (f.selectMutant points on).NamesBelow functions switches := by
  rcases f.selectMutant_cases points on with heq | ⟨p, hp⟩
  · rw [heq]
    exact h
  · obtain ⟨i, j, -, hj, heq⟩ := Point.rewrite?_eq_some_iff.mp hp
    rw [heq]
    exact setInstruction_namesBelow h (Operator.mutate_replacedBy hj)

theorem selectMutant_sameSignature : f.SameSignature (f.selectMutant points on) := by
  rcases f.selectMutant_cases points on with heq | ⟨p, hp⟩
  · rw [heq]
    exact .refl f
  · obtain ⟨i, j, -, -, heq⟩ := Point.rewrite?_eq_some_iff.mp hp
    rw [heq]
    exact ⟨rfl, rfl⟩

theorem runFrom_rename {σ : Surroundings} {f : Function} {name : String} (n b : Nat) (s : Frame) :
    { f with name := name }.runFrom σ n b s = f.runFrom σ n b s := by
  induction n generalizing b s with
  | zero => rfl
  | succ n ih =>
      unfold runFrom
      cases f.blocks[b]? with
      | none => rfl
      | some is =>
          dsimp only
          cases execBlock σ f.returns b is s with
          | error e => rfl
          | ok flow =>
              cases flow with
              | next t => rfl
              | goto d t => exact ih d t
              | ret r => rfl

theorem run_eq_stuck {σ : Surroundings} {f : Function} {n : Nat} {args : List Word}
    (hargs : args.length ≠ f.params.toNat) (memory : Memory) :
    f.run σ n args memory = .error .stuck := if_neg hargs

/-- The name of a function means nothing to its runs. -/
theorem run_rename {σ : Surroundings} (f : Function) (name : String) (n : Nat)
    (args : List Word) (memory : Memory) :
    { f with name := name }.run σ n args memory = f.run σ n args memory := by
  unfold run
  rw [runFrom_rename]
  rfl

end Function

/-! ## Runs under a bound -/

/-- A module with all mutants made, and values for its switches.  No index is so large that
an operand would cut it off. -/
structure Module.Mutates.Valued (m : Module) (id : ModuleId) (points : List Point) (m' : Module)
    (values : List Word) : Prop where
  mutates : m.Mutates id points m'
  distinct : m'.switches.Nodup
  length : values.length = m'.switches.length
  functions : m'.functions.length ≤ 2 ^ 32
  switches : m'.switches.length ≤ 2 ^ 32
  points : 2 * points.length + 1 ≤ 2 ^ 32

theorem Module.MutantArm.sameSignature {m : Module} {base : Nat} {f : Function} {a : Arm}
    {p : Point} (h : m.MutantArm base f a p) :
    ∃ f', m.functions[a.clone]? = some f' ∧ f.SameSignature f' := by
  obtain ⟨f', hf', hcopy⟩ := h.clone
  obtain ⟨i, j, -, -, rfl⟩ := Point.rewrite?_eq_some_iff.mp hf'
  obtain ⟨s, hs⟩ := hcopy.present
  exact ⟨_, hs, ⟨rfl, rfl⟩⟩

namespace Module.Mutates.Valued

variable {m m' : Module} {id : ModuleId} {points : List Point} {values : List Word} {g : Nat}
  {f : Function}

/-- A function of the mutated module is the selected mutant, or a dispatcher that calls it. -/
theorem selected (h : Valued m id points m' values) (hf : m.functions[g]? = some f) :
    m'.functions[g]? =
        some (f.selectMutant (pointsIn id points g) (switchOn m'.switches values)) ∨
      ∃ fallback arms, m'.functions[g]? = some (dispatcher f fallback arms) ∧
        f.params.toNat ≤ maxForwarded ∧ arms.length ≤ points.length ∧
        (∀ callee, (callee = fallback ∨ ∃ a ∈ arms, callee = a.clone) → m'.StandIn f callee) ∧
        (∀ a ∈ arms, a.switch < values.length) ∧
        ∃ name, m'.functions[dispatched values fallback arms]? =
          some { f.selectMutant (pointsIn id points g) (switchOn m'.switches values) with
            name := name } := by
  by_cases hpoints : pointsIn id points g = []
  · refine Or.inl ?_
    rw [hpoints]
    exact (h.mutates.untouched g (List.getElem?_eq_some_iff.mp hf).1 hpoints).trans hf
  · refine Or.inr ?_
    have hmutated := h.mutates.mutated g f hf hpoints
    obtain ⟨fallback, arms, hdispatcher, hcopy, harms⟩ := hmutated.split
    have hstandIn : ∀ {callee : Nat} {f' : Function}, m'.functions[callee]? = some f' →
        f.SameSignature f' → m'.StandIn f callee := fun hf' hsame =>
      ⟨Nat.lt_of_lt_of_le (List.getElem?_eq_some_iff.mp hf').1 h.functions, _, hf', hsame⟩
    refine ⟨fallback, arms, hdispatcher, hmutated.params, ?_, fun callee hcallee => ?_,
      fun a ha => ?_, (Module.MutatedAt.dispatched h.distinct h.length hcopy harms).present⟩
    · rw [harms.length_eq, pointsIn]
      exact Nat.le_trans (List.length_filter_le _ _) (List.length_filter_le _ _)
    · rcases hcallee with rfl | ⟨a, ha, rfl⟩
      · obtain ⟨s, hs⟩ := hcopy.present
        exact hstandIn hs ⟨rfl, rfl⟩
      · obtain ⟨p, harm⟩ := exists_of_forall₂ harms ha
        obtain ⟨f', hf', hsame⟩ := harm.sameSignature
        exact hstandIn hf' hsame
    · obtain ⟨p, harm⟩ := exists_of_forall₂ harms ha
      exact h.length ▸ (List.getElem?_eq_some_iff.mp harm.switch).1

/-- Where a dispatcher has enough room, a call of it is a call of the selected mutant. -/
theorem dispatcher_call (h : Valued m id points m' values) {fallback n N : Nat} {arms : List Arm}
    (hparams : f.params.toNat ≤ maxForwarded) (hlength : arms.length ≤ points.length)
    (hcallees : ∀ callee, (callee = fallback ∨ ∃ a ∈ arms, callee = a.clone) →
      m'.StandIn f callee)
    (hswitches : ∀ a ∈ arms, a.switch < values.length) (hN : points.length + 2 ≤ N)
    {args : List Word} (hargs : args.length = f.params.toNat) (memory : Memory) :
    (dispatcher f fallback arms).run ⟨values, m'.call values n⟩ N args memory =
      m'.call values n (dispatched values fallback arms) args memory := by
  have hcount := h.points
  refine dispatcher_run hparams hargs (hcallees _ (Or.inl rfl)).indexed (fun a ha => ?_)
    (by omega) (fun callee r hcallee hr => ?_) (by omega)
  · have hswitch := hswitches a ha
    have hindices := h.switches
    have hvalues := h.length
    exact ⟨(hcallees _ (Or.inr ⟨a, ha, rfl⟩)).indexed, by omega, hswitch⟩
  · obtain ⟨f', hf', hsame⟩ := (hcallees callee hcallee).present
    rw [← hsame.returns]
    exact Module.call_result hf' hr

/-- A call of the mutated module says no more than the selected mutant that calls into the
mutated module. -/
theorem call_approximates_selected (h : Valued m id points m' values)
    (hf : m.functions[g]? = some f) (n : Nat) (args : List Word) (memory : Memory) :
    (m'.call values (n + 1) g args memory).Approximates
      ((f.selectMutant (pointsIn id points g) (switchOn m'.switches values)).run
        ⟨values, m'.call values n⟩ (n + 1) args memory) := by
  unfold Module.call
  rcases h.selected hf with hsame | ⟨fallback, arms, hdispatcher, hparams, hlength, hcallees,
    hswitches, name, htarget⟩
  · rw [hsame]
    exact .refl _
  · rw [hdispatcher]
    dsimp only
    by_cases hargs : args.length = f.params.toNat
    -- Under this bound the dispatcher may run out of blocks; with more of them it says more.
    · refine .trans (Function.run_approximates (m'.call_within values (Nat.le_refl n))
        (Function.namesBelow_indices _) (Nat.le_add_right (n + 1) (points.length + 2)) args
        memory) ?_
      rw [h.dispatcher_call hparams hlength hcallees hswitches (by omega) hargs]
      cases n with
      | zero => exact Outcome.approximates_of_unfinished _
      | succ n =>
          -- The clone runs one call deeper than the selected mutant would in its place.
          unfold Module.call
          rw [htarget]
          dsimp only
          rw [Function.run_rename _ name]
          exact Function.run_approximates (m'.call_within values (Nat.le_succ n))
            (Function.namesBelow_indices _) (Nat.le_succ _) args memory
    · rw [Function.run_eq_stuck, Function.run_eq_stuck]
      · exact .refl _
      · rw [Function.selectMutant_sameSignature.params]
        exact hargs
      · exact hargs

/-- What the selected mutant says that calls into the mutated module, a call of the mutated
module says as well, if it has room for a dispatcher. -/
theorem selected_approximates_call (h : Valued m id points m' values)
    (hf : m.functions[g]? = some f) (n : Nat) (args : List Word) (memory : Memory) :
    ((f.selectMutant (pointsIn id points g) (switchOn m'.switches values)).run
      ⟨values, m'.call values n⟩ (n + 1) args memory).Approximates
      (m'.call values (n + (points.length + 2)) g args memory) := by
  rw [show n + (points.length + 2) = n + points.length + 1 + 1 from rfl]
  unfold Module.call
  rcases h.selected hf with hsame | ⟨fallback, arms, hdispatcher, hparams, hlength, hcallees,
    hswitches, name, htarget⟩
  · rw [hsame]
    exact Function.run_approximates (m'.call_within values (by omega))
      (Function.namesBelow_indices _) (by omega) args memory
  · rw [hdispatcher]
    dsimp only
    by_cases hargs : args.length = f.params.toNat
    · rw [h.dispatcher_call hparams hlength hcallees hswitches (by omega) hargs]
      unfold Module.call
      rw [htarget]
      dsimp only
      rw [Function.run_rename _ name]
      exact Function.run_approximates (m'.call_within values (by omega))
        (Function.namesBelow_indices _) (by omega) args memory
    · rw [Function.run_eq_stuck, Function.run_eq_stuck]
      · exact .refl _
      · exact hargs
      · rw [Function.selectMutant_sameSignature.params]
        exact hargs

/-! The selected mutants call each other in a module of their own, which has the functions and
the switches that were there before. -/

variable {args : List Word} {memory : Memory}

/-- Under the same bound the mutated module says no more than the selected mutants. -/
theorem call_approximates (hm : m.WellFormed) (h : Valued m id points m' values) (n : Nat)
    {g : Nat} (hg : g < m.functions.length) (args : List Word) (memory : Memory) :
    (m'.call values n g args memory).Approximates
      ((m.selectMutants id points (switchOn m'.switches values)).call
        (values.take m.switches.length) n g args memory) := by
  induction n generalizing g args memory with
  | zero => exact Outcome.approximates_of_unfinished _
  | succ n ih =>
      have hf := List.getElem?_eq_getElem hg
      have hwithin : Surroundings.Within m.functions.length m.switches.length
          ⟨values, m'.call values n⟩ ⟨values.take m.switches.length,
            (m.selectMutants id points (switchOn m'.switches values)).call
              (values.take m.switches.length) n⟩ :=
        ⟨fun k hk => (List.getElem?_take_of_lt hk).symm,
          fun g hg args memory => ih hg args memory⟩
      refine .trans (h.call_approximates_selected hf n args memory) ?_
      rw [call, selectMutants_getElem? hf]
      exact Function.run_approximates hwithin (Function.selectMutant_namesBelow
        (hm.functions _ (List.getElem_mem hg)).namesBelow) (Nat.le_refl _) args memory

/-- A multiple of the bound on the selected mutants lets the mutated module say as much. -/
theorem approximates_call (hm : m.WellFormed) (h : Valued m id points m' values) (n : Nat)
    {g : Nat} (hg : g < m.functions.length) (args : List Word) (memory : Memory) :
    ((m.selectMutants id points (switchOn m'.switches values)).call
        (values.take m.switches.length) n g args memory).Approximates
      (m'.call values (n * (points.length + 2)) g args memory) := by
  induction n generalizing g args memory with
  | zero => exact Outcome.approximates_of_unfinished _
  | succ n ih =>
      have hf := List.getElem?_eq_getElem hg
      have hwithin : Surroundings.Within m.functions.length m.switches.length
          ⟨values.take m.switches.length,
            (m.selectMutants id points (switchOn m'.switches values)).call
              (values.take m.switches.length) n⟩
          ⟨values, m'.call values (n * (points.length + 2))⟩ :=
        ⟨fun k hk => List.getElem?_take_of_lt hk,
          fun g hg args memory => ih hg args memory⟩
      have hbound : n ≤ n * (points.length + 2) := Nat.le_mul_of_pos_right n (Nat.succ_pos _)
      rw [Nat.succ_mul]
      refine .trans ?_ (h.selected_approximates_call hf (n * (points.length + 2)) args memory)
      rw [call, selectMutants_getElem? hf]
      exact Function.run_approximates hwithin (Function.selectMutant_namesBelow
        (hm.functions _ (List.getElem_mem hg)).namesBelow) (Nat.succ_le_succ hbound) args memory

/-- So a call ends in one of them as it ends in the other. -/
theorem call_iff (hm : m.WellFormed) (h : Valued m id points m' values)
    (hg : g < m.functions.length) {o : Outcome Returned} (ho : o ≠ .error .unfinished) :
    (∃ n, m'.call values n g args memory = o) ↔
      ∃ n, (m.selectMutants id points (switchOn m'.switches values)).call
        (values.take m.switches.length) n g args memory = o := by
  constructor
  · rintro ⟨n, rfl⟩
    exact ⟨n, (call_approximates hm h n hg args memory).eq_of_ne ho⟩
  · rintro ⟨n, rfl⟩
    exact ⟨_, (approximates_call hm h n hg args memory).eq_of_ne ho⟩

end Module.Mutates.Valued

/-! ## All mutants of a module -/

/-- A module in which all mutants have been made behaves, under any values of its switches, as
the module in which every function is replaced by the mutant that is selected for it. -/
theorem mutate_selects {program program' : Program} {l l' : LoadedModule}
    {operators : List Operator} {filter : Filter} {points : List Point} {values : List Word}
    (hprogram : program.modules = [l])
    (hpoints : points = discover operators filter program (candidates program))
    (hwf : l.module.isWellFormed = true)
    (hmutate : Validator.mutate program points = .ok program') (hl' : l' ∈ program'.modules)
    (hfunctions : l.module.functions.length < 2 ^ 30)
    (hswitches : l.module.switches.length < 2 ^ 30) (hcount : points.length < 2 ^ 30)
    (hvalues : values.length = l'.module.switches.length) {index : Nat}
    (hindex : index < l.module.functions.length) (args : List Word) (memory : Memory) :
    (∀ r, l'.module.Returns values index args memory r ↔
      (l.module.selectMutants l.id points (switchOn l'.module.switches values)).Returns
        (values.take l.module.switches.length) index args memory r) ∧
    (l'.module.Traps values index args memory ↔
      (l.module.selectMutants l.id points (switchOn l'.module.switches values)).Traps
        (values.take l.module.switches.length) index args memory) := by
  have hm := (Module.isWellFormed_iff l.module).mp hwf
  have hfound : ∀ p ∈ points, p.module = l.id ∧ p.location.function < l.module.functions.length :=
    hpoints ▸ mem_discover_single hprogram
  obtain ⟨l₁, hmodules, hmutates⟩ := mutates_of_mutate hprogram hfound hmutate
  rw [hmodules, List.mem_singleton] at hl'
  subst hl'
  have hlength := hmutates.length
  obtain ⟨new, hnew, hdistinct, hfresh, hnewlength⟩ := hmutates.switches
  have hvalued : Module.Mutates.Valued l.module l.id points l'.module values := by
    refine ⟨hmutates, ?_, hvalues, by omega, ?_, by omega⟩
    · rw [hnew]
      exact List.nodup_append.mpr ⟨hm.switchesDistinct, hdistinct,
        fun s hs t ht heq => hfresh t ht (heq ▸ hs)⟩
    · rw [hnew, List.length_append]
      omega
  exact ⟨fun r => hvalued.call_iff hm hindex (by simp), hvalued.call_iff hm hindex (by simp)⟩

/-- The program of one module that doubles, and the mutant of its sum. -/
def doublingProgram : Program := (Program.empty 1).add doubling "doubling.json"

def doublingPoints : List Point :=
  discover [.addToSub] .acceptAll doublingProgram (candidates doublingProgram)

/-- With the mutant switched on, the double of a number is zero. -/
theorem mutate_selects_doubling :
    ∃ program' l', Validator.mutate doublingProgram doublingPoints = .ok program' ∧
      l' ∈ program'.modules ∧ l'.module.Returns [1] 1 [5] [] (some 0, []) := by
  have hswitches : (Validator.mutate doublingProgram doublingPoints).toOption.map
      (fun p => p.modules.map fun l => l.module.switches) =
        some [["cxx_add_to_sub:doubling.json:add:0:0:0"]] := by
    decide +kernel
  cases hmutate : Validator.mutate doublingProgram doublingPoints with
  | error e =>
      rw [hmutate] at hswitches
      cases hswitches
  | ok program' =>
      rw [hmutate] at hswitches
      obtain ⟨l', hmodules, hnames⟩ := List.map_eq_singleton_iff.mp (Option.some.inj hswitches)
      have hl' : l' ∈ program'.modules := hmodules ▸ List.mem_singleton_self l'
      have hvalues : List.length [(1 : Word)] = l'.module.switches.length := hnames ▸ rfl
      have hindex : 1 < doubling.functions.length := by decide
      have hselects := mutate_selects rfl rfl (by decide) hmutate hl' (by decide) (by decide)
        (by decide +kernel) hvalues hindex [5] []
      refine ⟨program', l', rfl, hl', (hselects.1 _).mpr ⟨2, ?_⟩⟩
      rw [hnames]
      decide +kernel

end MutantGate
