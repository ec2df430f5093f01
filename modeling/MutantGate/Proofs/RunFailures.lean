import MutantGate.Proofs.PipelineSuccess
import MutantGate.Proofs.Resolution
import MutantGate.Proofs.RunEffects
/-!
# The stage that a failed run reports

The stage of a failure is read off its kind, and some kinds of failures come from more than one
place.  Up to the end of compilation this does no harm: a failure has the stage in which the run
failed.  A file that cannot be written is the exception.  It is reported like a file that cannot
be read, so a run that has loaded, changed, verified and compiled its module can still report
that it failed to load.

## What is proved

For every validator, with any code generator, and every access to files in which reading changes
nothing: the stage that a failure reports is the stage in which the run fails (`Validator.FailsIn`),
unless everything has succeeded and only the file could not be written; then it is the stage of
loading.  `FailsIn` follows the stages in their order, the refusal of a target among them, and each
is reached only by a run that has passed those before it.  The exception occurs: a directory and a
call are given in which the module is loaded and counted, and the failure says that it was not
loaded.

## What is left outside

Which targets and modules a code generator refuses: `FailsIn` has its answers among the conditions,
whatever they are.  The words of failures are not compared either, and calls of the command that
fail before there is a run, for their arguments or their settings, report what `CommandLine` says.
-/

namespace MutantGate

/-! ## Failures of the stages -/

theorem resolve_error_stage {group : String} {e : Failure} (h : resolve [group] = .error e) :
    e.stage = .resolution := by
  obtain ⟨hnil, -⟩ | ⟨_, _, _, -, -, -, rfl⟩ := resolve_eq_error_iff.mp h
  · cases hnil
  · rfl

theorem IsolationObstacle.failure_stage (o : IsolationObstacle) : o.failure.stage = .apply := by
  cases o <;> rfl

theorem Program.applyAll_error_stage {points : List Point} {program final : Program} {e : Failure}
    (h : Program.applyAll points program = (final, .error e)) : e.stage = .apply := by
  induction points generalizing program with
  | nil => cases h
  | cons p points ih =>
      rw [Program.applyAll] at h
      cases hfirst : program.apply p with
      | error o =>
          rw [hfirst] at h
          cases h
          rfl
      | ok program₁ =>
          rw [hfirst] at h
          exact ih h

theorem Validator.mutate_error_stage {program : Program} {points : List Point} {e : Failure}
    (h : Validator.mutate program points = .error e) : e.stage = .apply := by
  unfold Validator.mutate at h
  split at h
  · rename_i o hisolate
    cases h
    exact o.failure_stage
  · split at h
    · rename_i happly
      cases h
      exact Program.applyAll_error_stage happly
    · cases h

theorem verifyModules_error_stage {ls : List LoadedModule} {e : Failure}
    (h : verifyModules ls = .error e) : e.stage = .verify := by
  induction ls with
  | nil => cases h
  | cons l ls ih =>
      rw [verifyModules, Module.verify] at h
      by_cases hwf : l.module.isWellFormed = true
      · rw [if_pos hwf] at h
        exact ih h
      · rw [if_neg hwf] at h
        cases h
        rfl

/-! ## The failing stage -/

namespace Validator

variable {v : Validator} {group path : String} {content : Except FileFault (List UInt8)}
  {stage : Stage} {e : Failure}

/-- The stage in which a run fails: those before it have succeeded, and it does not. -/
inductive FailsIn (v : Validator) (group path : String)
    (content : Except FileFault (List UInt8)) : Stage → Prop
  | resolution {e : Failure} : resolve [group] = .error e → FailsIn v group path content .resolution
  | load {operators : List Operator} {o : LoadObstacle} : resolve [group] = .ok operators →
      (Program.empty Module.currentVersion).load path content = .error o →
      FailsIn v group path content .load
  | apply {f : Findings} {e : Failure} : v.Finds group path content f →
      mutate f.program f.points = .error e → FailsIn v group path content .apply
  | verify {f : Findings} {final : Program} {e : Failure} : v.Finds group path content f →
      mutate f.program f.points = .ok final → verifyModules final.modules = .error e →
      FailsIn v group path content .verify
  /-- The generator refuses the target. -/
  | usage {f : Findings} {final : Program} {e : Failure} : v.Finds group path content f →
      mutate f.program f.points = .ok final → verifyModules final.modules = .ok () →
      v.settings.target.check v.generator = .error e → FailsIn v group path content .usage
  | compile {f : Findings} {final : Program} {e : Failure} : v.Finds group path content f →
      mutate f.program f.points = .ok final → verifyModules final.modules = .ok () →
      v.settings.target.check v.generator = .ok () →
      compileModules v.toolchain final.modules = .error e →
      FailsIn v group path content .compile

/-- A failure has the stage in which the run fails. -/
theorem failsIn_of_run_error (h : (v.run group path content).outcome = .error e) :
    v.FailsIn group path content e.stage := by
  rw [run] at h
  cases hsearch : v.search group path content with
  | error e' =>
      rw [hsearch] at h
      cases h
      unfold search at hsearch
      split at hsearch
      · rename_i hresolve
        cases hsearch
        rw [resolve_error_stage hresolve]
        exact .resolution hresolve
      · rename_i operators hresolve
        split at hsearch
        · rename_i hload
          cases hsearch
          exact .load hresolve hload
        · cases hsearch
  | ok f =>
      have hfinds := search_eq_ok_iff.mp hsearch
      rw [hsearch] at h
      change v.conclude f = .error e at h
      unfold conclude at h
      split at h
      · rename_i hmutate
        cases h
        rw [mutate_error_stage hmutate]
        exact .apply hfinds hmutate
      · rename_i final hmutate
        unfold accept at h
        cases hverify : verifyModules final.modules with
        | error e' =>
            rw [hverify] at h
            cases h
            rw [verifyModules_error_stage hverify]
            exact .verify hfinds hmutate hverify
        | ok u =>
            rw [hverify] at h
            cases htarget : v.settings.target.check v.generator with
            | error e' =>
                rw [htarget] at h
                cases h
                rw [Target.check_error_stage htarget]
                exact .usage hfinds hmutate hverify htarget
            | ok u =>
                rw [htarget] at h
                cases hcompile : compileModules v.toolchain final.modules with
                | error e' =>
                    rw [hcompile] at h
                    cases h
                    rw [compileModules_error_stage hcompile]
                    exact .compile hfinds hmutate hverify htarget hcompile
                | ok as =>
                    rw [hcompile] at h
                    cases h

/-- A run that fails in a stage ends with a failure that has this stage. -/
theorem FailsIn.run_error (h : v.FailsIn group path content stage) :
    ∃ e, (v.run group path content).outcome = .error e ∧ e.stage = stage := by
  cases h with
  | @resolution e hresolve =>
      refine ⟨e, ?_, resolve_error_stage hresolve⟩
      rw [run, search, hresolve]
  | @load operators o hresolve hload =>
      refine ⟨o.failure path, ?_, rfl⟩
      simp only [run, search, hresolve, hload]
  | @apply f e hfinds hmutate =>
      refine ⟨e, ?_, mutate_error_stage hmutate⟩
      simp only [run, search_eq_ok_iff.mpr hfinds, conclude, hmutate]
  | @verify f final e hfinds hmutate hverify =>
      refine ⟨e, ?_, verifyModules_error_stage hverify⟩
      simp only [run, search_eq_ok_iff.mpr hfinds, conclude, hmutate, accept, hverify]
      rfl
  | @usage f final e hfinds hmutate hverify htarget =>
      refine ⟨e, ?_, Target.check_error_stage htarget⟩
      simp only [run, search_eq_ok_iff.mpr hfinds, conclude, hmutate, accept, hverify, htarget]
      rfl
  | @compile f final e hfinds hmutate hverify htarget hcompile =>
      refine ⟨e, ?_, compileModules_error_stage hcompile⟩
      simp only [run, search_eq_ok_iff.mpr hfinds, conclude, hmutate, accept, hverify, htarget,
        hcompile]
      rfl

theorem run_error_stage_iff (h : (v.run group path content).outcome = .error e) :
    e.stage = stage ↔ v.FailsIn group path content stage := by
  constructor
  · rintro rfl
    exact failsIn_of_run_error h
  · intro hfails
    obtain ⟨e', he', hstage⟩ := hfails.run_error
    obtain rfl : e = e' := Except.error.inj (h.symm.trans he')
    exact hstage

/-! ## Emission -/

section Emission

variable {σ : Type} {files : FileAccess (StateM σ)} {s : σ} {emitTo? : Option String}

/-- Everything succeeds but for writing the result. -/
def FailsToEmit (v : Validator) (files : FileAccess (StateM σ)) (emitTo? : Option String)
    (group path : String) (content : Except FileFault (List UInt8)) (s : σ) : Prop :=
  ∃ f l a target fault, v.Finds group path content f ∧ v.Passes f l a ∧ emitTo? = some target ∧
    ((files.write target a.wasm.bytes).run s).1 = .error fault

/-- The stage of a failure is that in which the run failed, or loading if the run failed to write
its result. -/
theorem runOn_error_stage (hread : files.ReadsOnly)
    (h : ((v.runOn files emitTo? group path).run s).1.outcome = .error e) (stage : Stage) :
    e.stage = stage ↔ v.FailsIn group path ((files.read path).run s).1 stage ∨
      stage = .load ∧ v.FailsToEmit files emitTo? group path ((files.read path).run s).1 s := by
  rw [runOn_run hread] at h
  generalize ((files.read path).run s).1 = content at h ⊢
  cases hr : (v.run group path content).outcome with
  | error e' =>
      rw [Run.emit_error hr, hr] at h
      obtain rfl : e' = e := Except.error.inj h
      rw [run_error_stage_iff hr]
      refine (or_iff_left ?_).symm
      rintro ⟨-, f, l, a, target, fault, hfinds, hpasses, -⟩
      cases hr.symm.trans (run_outcome_eq_ok_iff.mpr ⟨f, l, a, hfinds, hpasses, rfl⟩)
  | ok verdict =>
      obtain ⟨f, l, a, hfinds, hpasses, rfl⟩ := run_outcome_eq_ok_iff.mp hr
      have hnone : ¬ v.FailsIn group path content stage := by
        intro hfails
        obtain ⟨e', he', -⟩ := hfails.run_error
        cases hr.symm.trans he'
      cases emitTo? with
      | none =>
          rw [Run.emit_none, hr] at h
          cases h
      | some target =>
          rw [Run.emit_some hr] at h
          dsimp only at h
          split at h
          · rw [hr] at h
            cases h
          · rename_i fault hwritten
            cases h
            rw [or_iff_right hnone]
            constructor
            · rintro rfl
              exact ⟨rfl, f, l, a, target, fault, hfinds, hpasses, rfl, hwritten⟩
            · rintro ⟨rfl, -⟩
              rfl

end Emission

/-- A module file that is not there is a failure to load. -/
theorem runOn_error_stage_missing :
    defaultValidator.FailsIn "cxx_add_to_sub" "missing.bc" (doublingFiles.read "missing.bc") .load ∧
      ∃ e, ((defaultValidator.runOn .ofDirectory (some "out.wasm") "cxx_add_to_sub"
        "missing.bc").run doublingFiles).1.outcome = .error e ∧ e.stage = .load := by
  have hcontent : doublingFiles.read "missing.bc" = .error .notFound := by decide +kernel
  have hfails : defaultValidator.FailsIn "cxx_add_to_sub" "missing.bc"
      (doublingFiles.read "missing.bc") .load := by
    have hresolve : resolve ["cxx_add_to_sub"] = .ok [.addToSub] := by decide +kernel
    rw [hcontent]
    exact .load hresolve rfl
  obtain ⟨e, he, -⟩ := hfails.run_error
  have houtcome : ((defaultValidator.runOn .ofDirectory (some "out.wasm") "cxx_add_to_sub"
      "missing.bc").run doublingFiles).1.outcome = .error e := by
    rw [runOn_ofDirectory, Run.emit_error he]
    exact he
  exact ⟨hfails, e, houtcome,
    (runOn_error_stage FileAccess.ofDirectory_readsOnly houtcome .load).mpr (.inl hfails)⟩

/-- A result for a directory that is not there is reported as a failure to load, although the
module was loaded and its mutant counted.  So a run does not always report the stage in which it
failed. -/
theorem runOn_error_stage_unwritten :
    ¬ ∀ (generator : CodeGenerator) (settings : Settings) (v : Validator)
        (emitTo? : Option String) (group path : String) (d : Directory) (r : Run) (e : Failure),
      Validator.ofSettings settings generator = .ok v →
      r = ((v.runOn .ofDirectory emitTo? group path).run d).1 → r.outcome = .error e →
        (e.stage = .resolution ↔ ∃ e', resolve [group] = .error e') ∧
        (e.stage = .load ↔ (∃ operators, resolve [group] = .ok operators) ∧
          ∃ o, (Program.empty Module.currentVersion).load path (d.read path) = .error o) ∧
        (r.output ≠ "" → e.stage ≠ .resolution ∧ e.stage ≠ .load) := by
  intro hreports
  obtain ⟨l, a, hpasses⟩ := exists_passes_doublingFindings
  have hr : (defaultValidator.run "cxx_add_to_sub" "doubling.bc"
      (doublingFiles.read "doubling.bc")).outcome = .ok ⟨1, [a]⟩ :=
    run_outcome_eq_ok_iff.mpr ⟨_, l, a, doublingFindings_found, hpasses, rfl⟩
  have hwritten : doublingFiles.write "missing/out.wasm" a.wasm.bytes = .error .notFound := by
    have hwalk : doublingFiles.walk "missing/out.wasm" = .error .notFound := by decide +kernel
    rw [Directory.write, hwalk]
  have hrun : ((defaultValidator.runOn .ofDirectory (some "missing/out.wasm") "cxx_add_to_sub"
      "doubling.bc").run doublingFiles).1.outcome = .error (.io FileFault.notFound.message) := by
    rw [runOn_ofDirectory, Run.emit_some hr, FileAccess.ofDirectory_write, hwritten]
  obtain ⟨-, hload, -⟩ := hreports .simple .default defaultValidator (some "missing/out.wasm")
    "cxx_add_to_sub" "doubling.bc" doublingFiles _ _ rfl rfl hrun
  obtain ⟨-, o, ho⟩ := hload.mp rfl
  cases doublingFindings_found.loaded.symm.trans ho

end Validator

end MutantGate
