import MutantGate.Proofs.MutatedModule
import MutantGate.Proofs.SavedModules
/-!
# What a run leaves behind

A run prints one line at most, and it writes one file at most.  The line is there once the group
is resolved and the module is loaded, and it stays whatever comes of the mutants it counts.  The
file is written last: all mutants have been made by then, the module with them is verified, and
its code has been generated.

Files are held by any state that reading leaves as it is, so a file that is not written is not
touched in any other way.

## What is proved

For every validator, with any settings, any exclusions and any code generator, for all groups, paths
and contents of the module file: what is printed, which files are there afterwards, and how the run
ends (`Validator.Effects`).  The file that is written has the bytes of the lowered module, and it is
written exactly if a path is given for it and all stages have succeeded (`Validator.Passes`).
Writing may fail at any path for any reason, and then its fault is the failure of the run.

## What is left outside

When the code generator refuses a target or a module: it answers as it likes, and `Passes` has its
answers among the conditions.  Printing always succeeds, and log lines are not described.  A file
may be written in part before writing fails; what such a write leaves is up to the `FileAccess`.
-/

namespace MutantGate

theorem Toolchain.compile_eq_ok_iff {t : Toolchain} {m : Module} {a : Artifact} :
    t.compile m = .ok a ↔
      lower t.options m = .ok a.wasm ∧ t.generator.generate t.target a.wasm = .ok a.native := by
  obtain ⟨w, native⟩ := a
  rw [Toolchain.compile]
  cases hlower : lower t.options m with
  | error o => simp
  | ok w' =>
      dsimp only
      cases hgenerate : t.generator.generate t.target w' with
      | error reason =>
          constructor
          · rintro ⟨⟩
          · rintro ⟨⟨⟩, hgenerated⟩
            cases hgenerate.symm.trans hgenerated
      | ok native' =>
          constructor
          · rintro ⟨⟩
            exact ⟨rfl, hgenerate⟩
          · rintro ⟨⟨⟩, hgenerated⟩
            rw [Except.ok.inj (hgenerate.symm.trans hgenerated)]

namespace Validator

variable {v : Validator} {group path : String} {content : Except FileFault (List UInt8)}
  {f f' : Findings} {l : LoadedModule} {a : Artifact}

/-! ## The search -/

/-- What a search finds: the module is loaded, the group is resolved, and the points are those
of its operators. -/
structure Finds (v : Validator) (group path : String) (content : Except FileFault (List UInt8))
    (f : Findings) : Prop where
  loaded : (Program.empty Module.currentVersion).load path content = .ok f.program
  resolved : ∃ operators, resolve [group] = .ok operators ∧
    f.points = v.discover operators f.program

theorem search_eq_ok_iff : v.search group path content = .ok f ↔ v.Finds group path content f := by
  unfold search
  constructor
  · intro h
    split at h
    · cases h
    · rename_i operators hresolve
      split at h
      · cases h
      · rename_i program hload
        cases h
        exact ⟨hload, operators, hresolve, rfl⟩
  · rintro ⟨hload, operators, hresolve, hpoints⟩
    simp only [hresolve, hload, ← hpoints]

theorem Finds.unique (h : v.Finds group path content f) (h' : v.Finds group path content f') :
    f = f' :=
  Except.ok.inj ((search_eq_ok_iff.mpr h).symm.trans (search_eq_ok_iff.mpr h'))

/-- A program that is loaded from a file has one module, and what is found is in it. -/
theorem Finds.single (h : v.Finds group path content f) :
    ∃ l, f.program.modules = [l] ∧ ∀ p ∈ f.points, p.module = l.id := by
  obtain ⟨hload, operators, -, hpoints⟩ := h
  rw [Program.load] at hload
  cases hm : Module.load (Program.empty Module.currentVersion).formatVersion path content with
  | error o => rw [hm] at hload; cases hload
  | ok m =>
      rw [hm] at hload
      have hprogram : (Program.empty Module.currentVersion).add m path = f.program :=
        Except.ok.inj hload
      have hmodules : f.program.modules = [⟨0, path, m, none, []⟩] := by
        rw [← hprogram]
        rfl
      refine ⟨_, hmodules, ?_⟩
      intro p hp
      rw [hpoints] at hp
      exact (mem_discover_single hmodules p hp).1

/-! ## The gate -/

/-- All stages after the search succeed: they make `l` of the module that was found, with all
mutants in it, and `a` of that. -/
structure Passes (v : Validator) (f : Findings) (l : LoadedModule) (a : Artifact) : Prop where
  mutated : ∃ prepared final, f.program.isolate f.points = (prepared, .ok ()) ∧
    Program.applyAll f.points prepared = (final, .ok ()) ∧ final.modules = [l]
  verified : l.module.isWellFormed = true
  /-- The generator takes the target. -/
  supported : v.settings.target.check v.generator = .ok ()
  lowered : lower v.settings.lowering l.module = .ok a.wasm
  /-- The generator takes the lowered module. -/
  generated : v.generator.generate v.settings.target a.wasm = .ok a.native

/-- The module with the mutants passes if it is verified and its code can be generated. -/
theorem accept_eq_ok_iff {program : Program} {as : List Artifact}
    (hmodules : program.modules = [l]) :
    v.accept program = .ok as ↔
      l.module.isWellFormed = true ∧ v.settings.target.check v.generator = .ok () ∧
        ∃ a, lower v.settings.lowering l.module = .ok a.wasm ∧
          v.generator.generate v.settings.target a.wasm = .ok a.native ∧ as = [a] := by
  have hverify : verifyModules program.modules = .ok () ↔ l.module.isWellFormed = true := by
    rw [hmodules, verifyModules, Module.verify]
    by_cases hwf : l.module.isWellFormed = true <;> simp [hwf, verifyModules]
  have hcompile : compileModules v.toolchain program.modules = .ok as ↔
      ∃ a, v.toolchain.compile l.module = .ok a ∧ as = [a] := by
    rw [hmodules, compileModules]
    cases v.toolchain.compile l.module with
    | error e => simp
    | ok a => simp [compileModules, Except.map, eq_comm]
  simp only [Toolchain.compile_eq_ok_iff, toolchain, and_assoc] at hcompile
  rw [← hverify, ← hcompile, accept]
  cases verifyModules program.modules with
  | error e => simp
  | ok u => cases v.settings.target.check v.generator <;> simp [toolchain]

/-- After the search a run succeeds if all stages do. -/
theorem Finds.conclude_eq_ok_iff (h : v.Finds group path content f) {verdict : Verdict} :
    v.conclude f = .ok verdict ↔
      ∃ l a, v.Passes f l a ∧ verdict = ⟨f.points.length, [a]⟩ := by
  obtain ⟨l₀, hmodules, hown⟩ := h.single
  rw [conclude]
  constructor
  · intro hok
    split at hok
    · cases hok
    · rename_i final hmutate
      obtain ⟨prepared, hisolate, happly⟩ := mutate_eq_ok_iff.mp hmutate
      obtain ⟨-, l, -, -, hfinal⟩ := mutate_single_eq_ok hmodules hown hmutate
      cases haccept : v.accept final with
      | error e => rw [haccept] at hok; cases hok
      | ok as =>
          rw [haccept] at hok
          cases hok
          obtain ⟨hverified, htarget, a, hlower, hgenerated, rfl⟩ :=
            (accept_eq_ok_iff hfinal).mp haccept
          exact ⟨l, a, ⟨⟨prepared, final, hisolate, happly, hfinal⟩, hverified, htarget, hlower,
            hgenerated⟩, rfl⟩
  · rintro ⟨l, a, hpasses, rfl⟩
    obtain ⟨prepared, final, hisolate, happly, hfinal⟩ := hpasses.mutated
    have hmutate : mutate f.program f.points = .ok final :=
      mutate_eq_ok_iff.mpr ⟨prepared, hisolate, happly⟩
    have haccept : v.accept final = .ok [a] := (accept_eq_ok_iff hfinal).mpr
      ⟨hpasses.verified, hpasses.supported, a, hpasses.lowered, hpasses.generated, rfl⟩
    simp only [hmutate, haccept]
    rfl

/-! ## The run -/

theorem run_output_of_finds (h : v.Finds group path content f) :
    (v.run group path content).output = s!"Found {f.points.length} mutants\n" := by
  rw [run, search_eq_ok_iff.mpr h]
  rfl

theorem run_output_of_not_finds (h : ∀ f, ¬ v.Finds group path content f) :
    (v.run group path content).output = "" := by
  rw [run]
  cases hsearch : v.search group path content with
  | error e => rfl
  | ok f => exact absurd (search_eq_ok_iff.mp hsearch) (h f)

theorem run_outcome_eq_ok_iff {verdict : Verdict} :
    (v.run group path content).outcome = .ok verdict ↔
      ∃ f l a, v.Finds group path content f ∧ v.Passes f l a ∧
        verdict = ⟨f.points.length, [a]⟩ := by
  rw [run]
  cases hsearch : v.search group path content with
  | error e =>
      constructor
      · rintro ⟨⟩
      · rintro ⟨f, l, a, hfinds, -⟩
        cases hsearch.symm.trans (search_eq_ok_iff.mpr hfinds)
  | ok f =>
      have hfinds := search_eq_ok_iff.mp hsearch
      rw [hfinds.conclude_eq_ok_iff]
      constructor
      · rintro ⟨l, a, hpasses, hverdict⟩
        exact ⟨f, l, a, hfinds, hpasses, hverdict⟩
      · rintro ⟨f', l, a, hfinds', hpasses, hverdict⟩
        obtain rfl := hfinds.unique hfinds'
        exact ⟨l, a, hpasses, hverdict⟩

end Validator

/-! ## Files -/

section Files

variable {σ : Type} {files : FileAccess (StateM σ)} {s : σ}

/-- Reading leaves all files as they are. -/
def FileAccess.ReadsOnly (files : FileAccess (StateM σ)) : Prop :=
  ∀ path s, ((files.read path).run s).2 = s

section Emission

variable {path? : Option String} {r : Run}

/-- A failed run writes nothing. -/
theorem Run.emit_error {e : Failure} (h : r.outcome = .error e) :
    (r.emit files path?).run s = (r, s) := by
  unfold Run.emit
  rw [h]
  rfl

theorem Run.emit_none : (r.emit files none).run s = (r, s) := by
  unfold Run.emit
  split
  · rename_i hpath
    cases hpath
  · rfl

/-- What is written is the first compiled module, and a fault is the failure of the run. -/
theorem Run.emit_some {target : String} {n : Nat} {a : Artifact} {as : List Artifact}
    (h : r.outcome = .ok ⟨n, a :: as⟩) :
    (r.emit files (some target)).run s =
      (match ((files.write target a.wasm.bytes).run s).1 with
        | .ok () => r
        | .error fault => { r with outcome := .error (.io fault.message) },
        ((files.write target a.wasm.bytes).run s).2) := by
  unfold Run.emit
  rw [h]
  dsimp only
  rw [StateT.run_bind]
  rcases (files.write target a.wasm.bytes).run s with ⟨fault | u, s'⟩ <;> rfl

/-- Writing a file prints nothing. -/
theorem Run.emit_output : ((r.emit files path?).run s).1.output = r.output := by
  rcases hr : r.outcome with e | ⟨n, _ | ⟨a, as⟩⟩
  · rw [Run.emit_error hr]
  · unfold Run.emit
    rw [hr]
    rfl
  · cases path? with
    | none => rw [Run.emit_none]
    | some target =>
        rw [Run.emit_some hr]
        dsimp only
        split <;> rfl

/-- A run with a compiled module ends as before if that module is written or need not be. -/
theorem Run.emit_outcome_eq_ok_iff {n : Nat} {a : Artifact} {as : List Artifact}
    {verdict : Verdict} (h : r.outcome = .ok ⟨n, a :: as⟩) :
    ((r.emit files path?).run s).1.outcome = .ok verdict ↔
      (∀ target, path? = some target →
        ((files.write target a.wasm.bytes).run s).1 = .ok ()) ∧ verdict = ⟨n, a :: as⟩ := by
  cases path? with
  | none =>
      rw [Run.emit_none, h, Except.ok.injEq, eq_comm]
      exact (and_iff_right nofun).symm
  | some target =>
      rw [Run.emit_some h]
      dsimp only
      split
      · rename_i hwritten
        rw [h, Except.ok.injEq, eq_comm]
        refine (and_iff_right ?_).symm
        rintro _ ⟨⟩
        exact hwritten
      · rename_i fault hfault
        constructor
        · rintro ⟨⟩
        · rintro ⟨hwritten, -⟩
          cases hfault.symm.trans (hwritten target rfl)

end Emission

/-- A run starts with the content of the module file and leaves the files as they are up to its
end. -/
theorem Validator.runOn_run (hread : files.ReadsOnly) (v : Validator) (emitTo? : Option String)
    (group path : String) (s : σ) :
    (v.runOn files emitTo? group path).run s =
      ((v.run group path ((files.read path).run s).1).emit files emitTo?).run s := by
  show ((v.run group path ((files.read path).run s).1).emit files emitTo?).run
    ((files.read path).run s).2 = _
  rw [hread path s]

/-- What can be seen of a run over a module file with some content: the line it prints, the files
it leaves, and how it ends. -/
structure Validator.Effects (v : Validator) (files : FileAccess (StateM σ))
    (emitTo? : Option String) (group path : String) (content : Except FileFault (List UInt8))
    (s : σ) (r : Run) (s' : σ) : Prop where
  /-- Nothing is printed if the group is not resolved. -/
  unresolved : ∀ e, resolve [group] = .error e → r.output = ""
  /-- Nothing is printed if the module is not loaded. -/
  unloaded : ∀ o, (Program.empty Module.currentVersion).load path content = .error o →
    r.output = ""
  /-- Otherwise there is one line, whatever happens later. -/
  reported : ∀ f, v.Finds group path content f →
    r.output = s!"Found {f.points.length} mutants\n"
  /-- Unless all stages succeed and there is a file to write, all files stay. -/
  untouched : (¬ ∃ f l a target,
    v.Finds group path content f ∧ v.Passes f l a ∧ emitTo? = some target) → s' = s
  /-- What is written is the module with all mutants, as it was lowered. -/
  emitted : ∀ f l a target, v.Finds group path content f → v.Passes f l a →
    emitTo? = some target → s' = ((files.write target a.wasm.bytes).run s).2
  /-- A run succeeds exactly if all stages do and the file, if there is one, is written. -/
  succeeds : ∀ verdict, r.outcome = .ok verdict ↔ ∃ f l a,
    v.Finds group path content f ∧ v.Passes f l a ∧
      (∀ target, emitTo? = some target →
        ((files.write target a.wasm.bytes).run s).1 = .ok ()) ∧
      verdict = ⟨f.points.length, [a]⟩

/-- The effects of a run over files that reading leaves as they are. -/
theorem Validator.runOn_effects (hread : files.ReadsOnly) (v : Validator)
    (emitTo? : Option String) (group path : String) (s : σ) :
    v.Effects files emitTo? group path ((files.read path).run s).1 s
      ((v.runOn files emitTo? group path).run s).1
      ((v.runOn files emitTo? group path).run s).2 := by
  rw [Validator.runOn_run hread]
  generalize ((files.read path).run s).1 = content
  have hok : ∀ {f l a}, v.Finds group path content f → v.Passes f l a →
      (v.run group path content).outcome = .ok ⟨f.points.length, [a]⟩ :=
    fun hfinds hpasses => run_outcome_eq_ok_iff.mpr ⟨_, _, _, hfinds, hpasses, rfl⟩
  refine ⟨?unresolved, ?unloaded, ?reported, ?untouched, ?emitted, ?succeeds⟩
  case unresolved =>
    intro e he
    rw [Run.emit_output]
    refine run_output_of_not_finds fun f hfinds => ?_
    obtain ⟨operators, hresolve, -⟩ := hfinds.resolved
    cases hresolve.symm.trans he
  case unloaded =>
    intro o ho
    rw [Run.emit_output]
    refine run_output_of_not_finds fun f hfinds => ?_
    cases hfinds.loaded.symm.trans ho
  case reported =>
    intro f hfinds
    rw [Run.emit_output, run_output_of_finds hfinds]
  case untouched =>
    intro hnone
    cases hr : (v.run group path content).outcome with
    | error e => rw [Run.emit_error hr]
    | ok verdict =>
        cases emitTo? with
        | none => rw [Run.emit_none]
        | some target =>
            obtain ⟨f, l, a, hfinds, hpasses, -⟩ := run_outcome_eq_ok_iff.mp hr
            exact absurd ⟨f, l, a, target, hfinds, hpasses, rfl⟩ hnone
  case emitted =>
    rintro f l a target hfinds hpasses rfl
    rw [Run.emit_some (hok hfinds hpasses)]
  case succeeds =>
    intro verdict
    constructor
    · intro h
      cases hr : (v.run group path content).outcome with
      | error e =>
          rw [Run.emit_error hr, hr] at h
          cases h
      | ok verdict' =>
          obtain ⟨f, l, a, hfinds, hpasses, rfl⟩ := run_outcome_eq_ok_iff.mp hr
          exact ⟨f, l, a, hfinds, hpasses, (Run.emit_outcome_eq_ok_iff hr).mp h⟩
    · rintro ⟨f, l, a, hfinds, hpasses, hend⟩
      exact (Run.emit_outcome_eq_ok_iff (hok hfinds hpasses)).mpr hend

end Files

/-! ## Runs over a directory -/

theorem FileAccess.ofDirectory_readsOnly : FileAccess.ofDirectory.ReadsOnly := by
  intro path d
  rfl

theorem Validator.runOn_ofDirectory (v : Validator) (emitTo? : Option String)
    (group path : String) (d : Directory) :
    (v.runOn .ofDirectory emitTo? group path).run d =
      ((v.run group path (d.read path)).emit .ofDirectory emitTo?).run d :=
  runOn_run FileAccess.ofDirectory_readsOnly v emitTo? group path d

/-- A write that fails changes nothing. -/
theorem FileAccess.ofDirectory_write (d : Directory) (path : String) (bytes : List UInt8) :
    (FileAccess.ofDirectory.write path bytes).run d =
      match d.write path bytes with
      | .error fault => (.error fault, d)
      | .ok d' => (.ok (), d') := by
  rw [FileAccess.ofDirectory]
  simp only [StateT.run_bind, StateT.run_get]
  cases h : d.write path bytes <;> simp only [pure_bind, h] <;> rfl

/-- The validator without settings. -/
def defaultValidator : Validator := ⟨.default, ⟨[], []⟩, .simple⟩

/-- A directory with the module that doubles in it. -/
def doublingFiles : Directory := Directory.empty.put "doubling.bc" doubling.toBytes

/-- What is found in that module if additions are to be replaced. -/
def doublingFindings : Findings :=
  ⟨(Program.empty Module.currentVersion).add doubling "doubling.bc",
    [.ofMatch 0 "doubling.bc" "add" ⟨0, 0, 0⟩ .addToSub 0 0]⟩

theorem doublingFindings_found :
    defaultValidator.Finds "cxx_add_to_sub" "doubling.bc" (doublingFiles.read "doubling.bc")
      doublingFindings := by
  have hread : doublingFiles.read "doubling.bc" = .ok doubling.toBytes := by decide +kernel
  have hform : ModuleForm.ofPath "doubling.bc" = .binary := by decide +kernel
  have hfit : doubling.LengthsFit := by decide
  have hload : Module.load Module.currentVersion "doubling.bc" (.ok doubling.toBytes) =
      .ok doubling :=
    Module.load_eq_ok_iff.mpr ⟨by rw [hform]; exact hfit.decode_binary_encode, rfl⟩
  refine ⟨?_, [.addToSub], by decide +kernel, by decide +kernel⟩
  rw [hread, Program.load]
  exact congrArg (Except.map _) hload

theorem exists_passes_doublingFindings : ∃ l a, defaultValidator.Passes doublingFindings l a := by
  have hok : (defaultValidator.conclude doublingFindings).isOk = true := by decide +kernel
  cases hconclude : defaultValidator.conclude doublingFindings with
  | error e => rw [hconclude] at hok; cases hok
  | ok verdict =>
      obtain ⟨l, a, hpasses, -⟩ := doublingFindings_found.conclude_eq_ok_iff.mp hconclude
      exact ⟨l, a, hpasses⟩

/-- The mutant is counted, and the module with it is written. -/
theorem Validator.runOn_effects_doubling :
    let run := (defaultValidator.runOn .ofDirectory (some "out.wasm") "cxx_add_to_sub"
      "doubling.bc").run doublingFiles
    defaultValidator.Effects .ofDirectory (some "out.wasm") "cxx_add_to_sub" "doubling.bc"
        (doublingFiles.read "doubling.bc") doublingFiles run.1 run.2 ∧
      run.1.output = "Found 1 mutants\n" ∧
      ∃ a, run.1.outcome = .ok ⟨1, [a]⟩ ∧
        run.2.file? ⟨.above 0, ["out.wasm"]⟩ = some a.wasm.bytes := by
  intro run
  have heffects := runOn_effects FileAccess.ofDirectory_readsOnly defaultValidator
    (some "out.wasm") "cxx_add_to_sub" "doubling.bc" doublingFiles
  obtain ⟨l, a, hpasses⟩ := exists_passes_doublingFindings
  have hwritten : doublingFiles.write "out.wasm" a.wasm.bytes =
      .ok (doublingFiles.withFile ⟨.above 0, ["out.wasm"]⟩ a.wasm.bytes) := by
    have hwalk : doublingFiles.walk "out.wasm" =
        .ok (.entry ⟨.above 0, ["out.wasm"]⟩ "out.wasm" false) := by decide +kernel
    have hfree : doublingFiles.hasDirectory ⟨.above 0, ["out.wasm"]⟩ = false := by decide +kernel
    have hshort : ¬ Path.maxName < "out.wasm".utf8ByteSize := by decide +kernel
    simp only [Directory.write, hwalk, hfree, hshort]
    rfl
  have hwrite := FileAccess.ofDirectory_write doublingFiles "out.wasm" a.wasm.bytes
  rw [hwritten] at hwrite
  refine ⟨heffects, heffects.reported _ doublingFindings_found, a, ?_, ?_⟩
  · refine (heffects.succeeds _).mpr ⟨_, l, a, doublingFindings_found, hpasses, ?_, rfl⟩
    rintro _ ⟨⟩
    rw [hwrite]
  · have hfiles : run.2 = _ :=
      heffects.emitted _ l a "out.wasm" doublingFindings_found hpasses rfl
    rw [hfiles, hwrite]
    simp [Directory.file?, Directory.withFile]

end MutantGate
