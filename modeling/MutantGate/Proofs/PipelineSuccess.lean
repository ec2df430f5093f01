import MutantGate.Proofs.LoweredModule
import MutantGate.Proofs.MutantIsolation
import MutantGate.Proofs.MutationSuccess
import MutantGate.Proofs.ProtocolInvariant
/-!
# Well-formed modules pass the gate

For a well-formed module all stages of a run fit together: every point that is found can be
isolated and applied, the module with all mutants is well-formed, and it is lowered exactly
if the module without them is.  What can still stop the run is a memory that does not fit or
a refusal by the code generator.

## What is proved

For every well-formed module and every search in it, with functions and points fewer than `2 ^ 30`,
with 255 parameters at most where there are points, and with no switch of the name of a mutant: all
points are isolated and applied, the result passes the gate, and under any options it is lowered
exactly if the module itself is, for which its memory alone decides.  A run with these findings has
no failure of the stages of application and verification.

## What is left outside

The code generator.  Its refusals, of the target and of the lowered module, are the failures that
remain, and it is not said when it makes them.
-/

namespace MutantGate

/-! ## What the module keeps -/

section Kept

variable {l l₁ l' : LoadedModule} {points : List Point}

theorem LoadedModule.foldlM_apply_ready {k : Nat} (h : l.Ready k)
    (happly : points.foldlM LoadedModule.apply l = .ok l') : l'.Ready k := by
  induction points generalizing l with
  | nil =>
      cases happly
      exact h
  | cons p points ih =>
      rw [List.foldlM_cons] at happly
      cases hfirst : l.apply p with
      | error e => rw [hfirst] at happly; cases happly
      | ok l₁ =>
          rw [hfirst] at happly
          exact ih (h.apply hfirst) happly

/-- Neither isolation nor application changes the memory. -/
theorem LoadedModule.memoryWords_kept
    (hbelow : ∀ p ∈ points, p.module = l.id →
      p.location.function < l.module.functions.length)
    (hisolate : l.isolate points = (l₁, .ok ()))
    (happly : points.foldlM LoadedModule.apply l₁ = .ok l') :
    l'.module.memoryWords = l.module.memoryWords := by
  obtain ⟨r, hall, hrecords, rfl⟩ := isolate_isolatesAll hisolate hbelow
  have happlied := foldlM_apply_appliesAll
    (l := { l with module := r.module, clones := some r.clones }) hrecords.lookup_injective happly
  rw [happlied.rest]
  show r.module.memoryWords = l.module.memoryWords
  rw [hall.rest]

end Kept

/-! ## The stages after application -/

theorem Toolchain.compile_error_stage {t : Toolchain} {m : Module} {e : Failure}
    (h : t.compile m = .error e) : e.stage = .compile := by
  rw [Toolchain.compile] at h
  split at h
  · cases h
    rfl
  · split at h
    · cases h
      rfl
    · cases h

theorem compileModules_error_stage {t : Toolchain} {ls : List LoadedModule} {e : Failure}
    (h : compileModules t ls = .error e) : e.stage = .compile := by
  induction ls with
  | nil => cases h
  | cons l ls ih =>
      rw [compileModules] at h
      split at h
      · rename_i hfirst
        cases h
        exact Toolchain.compile_error_stage hfirst
      · cases hrest : compileModules t ls with
        | ok ws => rw [hrest] at h; cases h
        | error e' =>
            rw [hrest] at h
            cases h
            exact ih hrest

/-- A reason that is passed on as a fault of the settings. -/
theorem config_error_stage {x : Except Wording Unit} {lead : String} {e : Failure}
    (h : x.mapError (fun reason => Failure.config (reason.following lead)) = .error e) :
    e.stage = .usage := by
  cases x with
  | ok u => cases h
  | error reason =>
      cases h
      rfl

/-- Whatever the generator has against a target, the settings are at fault. -/
theorem Target.check_error_stage {t : Target} {generator : CodeGenerator} {e : Failure}
    (h : t.check generator = .error e) : e.stage = .usage := by
  rw [Target.check] at h
  split at h
  · rename_i hmachine
    cases h
    rw [Target.findMachine] at hmachine
    split at hmachine
    · cases hmachine
    · exact config_error_stage hmachine
  · exact config_error_stage h

/-- Modules that are verified are refused for the target or by the compiler only. -/
theorem Validator.accept_error_stage {v : Validator} {program : Program} {e : Failure}
    (hverify : verifyModules program.modules = .ok ()) (h : v.accept program = .error e) :
    e.stage = .usage ∨ e.stage = .compile := by
  unfold Validator.accept at h
  rw [hverify] at h
  dsimp only at h
  split at h
  · rename_i htarget
    cases h
    exact Or.inl (Target.check_error_stage htarget)
  · exact Or.inr (compileModules_error_stage h)

/-- Once the mutants are made and verified, these are the only failures that are left. -/
theorem Validator.conclude_error_stage {v : Validator} {found : Findings} {program : Program}
    {e : Failure} (hmutate : Validator.mutate found.program found.points = .ok program)
    (hverify : verifyModules program.modules = .ok ()) (h : v.conclude found = .error e) :
    e.stage ≠ .apply ∧ e.stage ≠ .verify := by
  simp only [Validator.conclude, hmutate] at h
  cases haccept : v.accept program with
  | ok ws => rw [haccept] at h; cases h
  | error e' =>
      rw [haccept] at h
      cases h
      rcases Validator.accept_error_stage hverify haccept with hstage | hstage <;>
        rw [hstage] <;> decide

/-! ## The whole run -/

/-- In a well-formed module every mutant that is found can be made, the module with all of
them is verified, and it can be lowered exactly if the module itself can be, that is, if the
memory fits.  Nothing but the target and the memory stops the run. -/
theorem discovered_mutants_succeed {m : Module} {name : String} {version : UInt32}
    {operators : List Operator} {filter : Filter} {program : Program} {points : List Point}
    (hprogram : program = (Program.empty version).add m name)
    (hpoints : points = discover operators filter program (candidates program))
    (hwf : m.isWellFormed = true)
    (hparams : ∀ p ∈ points, ∀ f, m.functions[p.location.function]? = some f →
      f.params.toNat ≤ 255)
    (hswitches : ∀ p ∈ points, p.identifier ∉ m.switches)
    (hroom : m.functions.length < 2 ^ 30) (hcount : points.length < 2 ^ 30) :
    ∃ prepared final l, program.isolate points = (prepared, .ok ()) ∧
      Program.applyAll points prepared = (final, .ok ()) ∧
      final.modules = [l] ∧ verifyModules final.modules = .ok () ∧
      (∀ options,
        ((∃ w, lower options l.module = .ok w) ↔ ∃ w, lower options m = .ok w) ∧
        ((∃ w, lower options m = .ok w) ↔
          max 1 (4 * m.memoryWords.toNat ⌈/⌉ 65536) ≤ options.maxPages.toNat)) ∧
      ∀ (v : Validator) (e : Failure), v.conclude ⟨program, points⟩ = .error e →
        e.stage ≠ .apply ∧ e.stage ≠ .verify := by
  have hm := (Module.isWellFormed_iff m).mp hwf
  obtain ⟨l, hmodules, rfl, hclones, happlied⟩ :
      ∃ l, program.modules = [l] ∧ l.module = m ∧ l.clones = none ∧ l.applied = [] :=
    ⟨⟨0, name, m, none, []⟩, by rw [hprogram]; rfl, rfl, rfl, rfl⟩
  have hfound : ∀ p ∈ points, ∃ f i, p.FoundIn l f i :=
    hpoints ▸ foundIn_of_mem_discover hmodules
  have hown : ∀ p ∈ points, p.module = l.id := fun p hp => by
    obtain ⟨f, i, hf⟩ := hfound p hp
    exact hf.module
  obtain ⟨l₁, l', hisolate, happly⟩ := LoadedModule.isolate_apply_isOk hclones happlied hfound
    hparams hswitches (hpoints ▸ discover_single_identifiers_nodup hmodules hm.namesDistinct)
  have hid : l₁.id = l.id := by
    obtain ⟨r, -, rfl⟩ := LoadedModule.isolate_eq_ok hisolate
    rfl
  have hprepared := Program.isolate_isOk hmodules hisolate
  have hfinal : Program.applyAll points { program with modules := [l₁] } =
      ({ program with modules := [l'] }, .ok ()) :=
    Program.applyAll_isOk rfl (fun p hp => (hown p hp).trans hid.symm) happly
  -- The module with all mutants is well-formed, and its memory is that of the module.
  have hready : l.Ready (points.length + 0) := ⟨hm, by omega⟩
  have hready₁ : l₁.Ready 0 := by
    have h := hready.isolate
    rwa [hisolate] at h
  have hm' : l'.module.WellFormed := (LoadedModule.foldlM_apply_ready hready₁ happly).wellFormed
  have hmemory : l'.module.memoryWords = l.module.memoryWords := by
    refine LoadedModule.memoryWords_kept (fun p hp _ => ?_) hisolate happly
    obtain ⟨f, i, hf⟩ := hfound p hp
    exact (List.getElem?_eq_some_iff.mp hf.function).1
  have hverified : verifyModules [l'] = .ok () := by
    simp only [verifyModules, Module.verify, (Module.isWellFormed_iff _).mpr hm', if_true]
  refine ⟨_, _, l', hprepared, hfinal, rfl, hverified, fun options => ⟨?_, ?_⟩, ?_⟩
  · rw [hm'.lower_isOk_iff, hm.lower_isOk_iff, hmemory]
  · rw [hm.lower_isOk_iff, pagesFor_eq]
  · intro v e he
    have hmutate : Validator.mutate program points = .ok { program with modules := [l'] } := by
      simp only [Validator.mutate, hprepared, hfinal]
    exact Validator.conclude_error_stage hmutate hverified he

/-- Every mutant of any operator in the module that doubles. -/
def doublingMutants : List Point :=
  discover Operator.all .acceptAll doublingProgram (candidates doublingProgram)

/-- All three of them can be made at once, and lowered. -/
theorem discovered_mutants_succeed_doubling :
    doublingMutants.length = 3 ∧ ∃ prepared final l,
      doublingProgram.isolate doublingMutants = (prepared, .ok ()) ∧
      Program.applyAll doublingMutants prepared = (final, .ok ()) ∧ final.modules = [l] ∧
      verifyModules final.modules = .ok () ∧ ∃ w, lower .default l.module = .ok w := by
  have hprogram : doublingProgram = (Program.empty 1).add doubling "doubling.json" := rfl
  have hpoints : doublingMutants =
      discover Operator.all .acceptAll doublingProgram (candidates doublingProgram) := rfl
  have hparams : ∀ f ∈ doubling.functions, f.params.toNat ≤ 255 := by decide
  have hlength : doublingMutants.length = 3 := by decide +kernel
  obtain ⟨prepared, final, l, hprepared, hfinal, hmodules, hverified, hlower, -⟩ :=
    discovered_mutants_succeed hprogram hpoints (by decide)
      (fun p _ f hf => hparams f (List.mem_of_getElem? hf)) (fun p _ => List.not_mem_nil)
      (by decide) (by rw [hlength]; decide)
  exact ⟨hlength, prepared, final, l, hprepared, hfinal, hmodules, hverified,
    (hlower .default).1.mpr ((hlower .default).2.mpr (by decide))⟩

end MutantGate
