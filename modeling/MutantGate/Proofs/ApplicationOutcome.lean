import MutantGate.Proofs.ModuleIndependence
import MutantGate.Proofs.MutationSuccess
/-!
# When a point is applied, and what it changes

Applying a point asks for six things in turn: its module, the clones of the module, the clone
of the mutant, that the mutant is new, the instruction, and the replacement.  All of them are
looked at before anything is touched, so whichever is missing, the program stays as it is.  If
none is, one instruction of one clone gives way, and the mutant goes on record.

Applying points one after the other stops with the first that is refused, and leaves what those
before it have made.

## What is proved

For any program and any point: a point is applied exactly if all six things are there
(`Program.Admits`).  Then all that changes is said (`Program.ChangedBy`), and otherwise the program
is the same and the failure names the point and the thing that is missing.  For a list of points the
failing one is found by `Program.applyAll_eq_error_iff`.

## What is left outside

Nothing is assumed about where the program comes from, so nothing is said either about the clone
that is changed but that it is the one on record.  That it belongs to this mutant alone is a matter
of isolation (`Proofs.Bookkeeping`).
-/

namespace MutantGate

/-! ## One instruction in the place of another -/

/-- A change that does not show in an entry does not show in the list. -/
theorem map_modify_of_eq {α β : Type} (see : α → β) {change : α → α}
    (h : ∀ x, see (change x) = see x) (k : Nat) (xs : List α) :
    (xs.modify k change).map see = xs.map see := by
  refine List.ext_getElem? fun n => ?_
  rw [List.getElem?_map, List.getElem?_map, List.getElem?_modify]
  by_cases hn : k = n
  · cases hx : xs[n]? <;> simp [hn, h]
  · simp [hn]

/-- What is left of a function if all its instructions are taken for the same one. -/
def Function.outline (f : Function) : Function :=
  { f with blocks := f.blocks.map fun b => b.map fun _ => .nop }

/-- What is left of a module if all its instructions are taken for the same one. -/
def Module.outline (m : Module) : Module :=
  { m with functions := m.functions.map Function.outline }

/-- One module becomes another by an instruction at one place that gives way to another. -/
structure Module.ReplacedAt (place : Location) (i j : Instruction) (m m' : Module) : Prop where
  before : m.instruction? place = some i
  after : m'.instruction? place = some j
  others : ∀ place', place' ≠ place → m'.instruction? place' = m.instruction? place'
  outline : m'.outline = m.outline

theorem Function.setInstruction_outline (f : Function) (block index : Nat) (j : Instruction) :
    (f.setInstruction block index j).outline = f.outline := by
  have hblock : ∀ b : Block, (b.set index j).map (fun _ => Instruction.nop) =
      b.map fun _ => Instruction.nop := fun b => by simp [List.map_const']
  have hblocks := map_modify_of_eq (fun b : Block => b.map fun _ => Instruction.nop) hblock block
    f.blocks
  rw [outline, setInstruction, hblocks]
  rfl

theorem Module.setInstruction_outline (m : Module) (l : Location) (j : Instruction) :
    (m.setInstruction l j).outline = m.outline := by
  have hfunctions := map_modify_of_eq Function.outline
    (fun f => f.setInstruction_outline l.block l.instruction j) l.function m.functions
  rw [outline, setInstruction, modifyFunction, hfunctions]
  rfl

namespace Function

variable {f : Function} {block index block' index' : Nat} {i j : Instruction}

theorem setInstruction_instruction?_self (h : f.instruction? block index = some i) :
    (f.setInstruction block index j).instruction? block index = some j := by
  obtain ⟨b, hb, hi⟩ := Option.bind_eq_some_iff.mp h
  have hindex := (List.getElem?_eq_some_iff.mp hi).1
  simp only [instruction?, setInstruction, List.getElem?_modify_eq, hb]
  exact List.getElem?_set_self hindex

theorem setInstruction_instruction?_of_ne (h : block' = block → index' ≠ index) :
    (f.setInstruction block index j).instruction? block' index' =
      f.instruction? block' index' := by
  simp only [instruction?, setInstruction, List.getElem?_modify]
  by_cases hblock : block = block'
  · have hindex : index ≠ index' := (h hblock.symm).symm
    cases f.blocks[block']? with
    | none => rfl
    | some b => simp [hblock, hindex]
  · simp [hblock]

end Function

theorem Module.setInstruction_replacedAt {m : Module} {place : Location} {i : Instruction}
    (h : m.instruction? place = some i) (j : Instruction) :
    m.ReplacedAt place i j (m.setInstruction place j) := by
  refine ⟨h, ?_, fun place' hne => ?_, m.setInstruction_outline place j⟩
  · obtain ⟨f, hf, hi⟩ := Option.bind_eq_some_iff.mp h
    simp only [instruction?, setInstruction, modifyFunction, List.getElem?_modify_eq, hf]
    exact Function.setInstruction_instruction?_self hi
  · simp only [instruction?, setInstruction, modifyFunction, List.getElem?_modify]
    by_cases hfunction : place.function = place'.function
    · cases m.functions[place'.function]? with
      | none => rfl
      | some f =>
          simp only [hfunction, if_true, Option.map_eq_map, Option.map_some, Option.bind_some]
          -- Two places in one function that agree in block and index are the same.
          refine Function.setInstruction_instruction?_of_ne fun hblock hindex => hne ?_
          cases place
          cases place'
          simp_all
    · simp [hfunction]

/-! ## One point -/

namespace Program

/-- All that applying a point asks for. -/
structure Admits (program : Program) (p : Point) (l : LoadedModule) (clone : Nat)
    (i : Instruction) : Prop where
  loaded : program.module? p.module = some l
  prepared : l.isPrepared = true
  reserved : l.clone? p.identifier = some clone
  new : l.isApplied p.identifier = false
  instruction : l.module.instruction? (p.placeIn clone) = some i
  variant : p.variant < p.operator.replacementCount i

/-- What applying a point changes: in its module one instruction of a clone, which gives way to
what the operator offers, and the record of applied mutants.  No other module changes, and each
keeps its place and its number. -/
structure ChangedBy (p : Point) (l : LoadedModule) (clone : Nat) (i : Instruction)
    (program program' : Program) : Prop where
  module : ∃ j l', (p.operator.replacements i)[p.variant]? = some j ∧
    l.module.ReplacedAt (p.placeIn clone) i j l'.module ∧
    l' = { l with module := l'.module, applied := l.applied ++ [p.identifier] } ∧
    program'.module? p.module = some l'
  others : ∀ (k : Nat) (l₀ : LoadedModule), program.modules[k]? = some l₀ → l₀.id ≠ p.module →
    program'.modules[k]? = some l₀
  ids : program'.ids = program.ids
  rest : program' = { program with modules := program'.modules }

variable {program program' final : Program} {p : Point} {points : List Point} {l l' : LoadedModule}
  {clone : Nat} {i : Instruction}

/-- The module that takes the place of the one with its number is the one that is found then. -/
theorem module?_modifyModule {id : ModuleId} (h : program.module? id = some l) (hid : l'.id = id) :
    (program.modifyModule id fun _ => l').module? id = some l' := by
  have hsame : (fun l₀ : LoadedModule => (if l₀.id == id then l' else l₀).id == id) =
      fun l₀ => l₀.id == id := by
    funext l₀
    by_cases hl₀ : l₀.id = id <;> simp [hl₀, hid]
  rw [module?, modifyModule, List.find?_map]
  show Option.map _ (program.modules.find? fun l₀ => (if l₀.id == id then l' else l₀).id == id) = _
  rw [hsame, ← module?, h]
  simp [id_of_module? h]

theorem modifyModule_others {id : ModuleId} (k : Nat) (l₀ : LoadedModule)
    (hl₀ : program.modules[k]? = some l₀) (hne : l₀.id ≠ id) :
    (program.modifyModule id fun _ => l').modules[k]? = some l₀ := by
  simp [modifyModule, hl₀, hne]

/-- A point is applied exactly if all is there that it asks for. -/
theorem apply_isOk_iff :
    (∃ program', program.apply p = .ok program') ↔ ∃ l clone i, program.Admits p l clone i := by
  constructor
  · rintro ⟨program', h⟩
    obtain ⟨l, l', hl, happly, -⟩ := apply_eq_ok h
    obtain ⟨clone, i, j, hclone, hnew, hi, hj, -⟩ := LoadedModule.apply_eq_ok happly
    refine ⟨l, clone, i, hl, ?_, hclone, ?_, hi, ?_⟩
    · obtain ⟨cs, hcs, -⟩ := Option.bind_eq_some_iff.mp hclone
      exact Option.isSome_iff_exists.mpr ⟨cs, hcs⟩
    · simpa [LoadedModule.isApplied] using hnew
    · exact (List.getElem?_eq_some_iff.mp (Operator.mutate_eq_ok_iff.mp hj)).1
  · rintro ⟨l, clone, i, h⟩
    obtain ⟨f, hf, hi⟩ := Option.bind_eq_some_iff.mp h.instruction
    have hcan : l.CanApply p :=
      ⟨by simpa [LoadedModule.isApplied] using h.new, clone, f, i, h.reserved, hf, hi, h.variant⟩
    obtain ⟨l', hl'⟩ := hcan.apply_isOk
    exact ⟨program.modifyModule p.module fun _ => l', by simp only [apply, h.loaded, hl']; rfl⟩

theorem apply_changedBy (h : program.apply p = .ok program') :
    ∃ l clone i, program.Admits p l clone i ∧ program.ChangedBy p l clone i program' := by
  obtain ⟨l, clone, i, hadmits⟩ := apply_isOk_iff.mp ⟨program', h⟩
  obtain ⟨l₀, l', hl, happly, rfl⟩ := apply_eq_ok h
  obtain rfl : l = l₀ := Option.some.inj (hadmits.loaded.symm.trans hl)
  have hid := (LoadedModule.apply_id happly).trans (id_of_module? hl)
  obtain ⟨clone', i', j, hclone, -, hi, hj, hl'⟩ := LoadedModule.apply_eq_ok happly
  obtain rfl : clone = clone' := Option.some.inj (hadmits.reserved.symm.trans hclone)
  obtain rfl : i = i' := Option.some.inj (hadmits.instruction.symm.trans hi)
  refine ⟨l, clone, i, hadmits, ⟨j, l', Operator.mutate_eq_ok_iff.mp hj, ?_, ?_,
    module?_modifyModule hl hid⟩, modifyModule_others, ids_modifyModule program hid, rfl⟩
  · rw [hl']
    exact Module.setInstruction_replacedAt hi j
  · rw [hl']

/-! ## Points one after the other -/

/-- Applying points fails with the first that is refused, after those before it. -/
theorem applyAll_eq_error_iff {e : Failure} :
    applyAll points program = (final, .error e) ↔
      ∃ before p after o, points = before ++ p :: after ∧
        applyAll before program = (final, .ok ()) ∧ final.apply p = .error o ∧
        e = o.failure p.identifier := by
  induction points generalizing program with
  | nil =>
      constructor
      · intro h
        cases h
      · rintro ⟨before, p, after, o, h, -⟩
        simp at h
  | cons q points ih =>
      constructor
      · intro h
        unfold applyAll at h
        split at h
        · rename_i o happly
          cases h
          exact ⟨[], q, points, o, rfl, rfl, happly, rfl⟩
        · rename_i program₁ happly
          obtain ⟨before, p, after, o, rfl, hbefore, hp, rfl⟩ := ih.mp h
          refine ⟨q :: before, p, after, o, rfl, ?_, hp, rfl⟩
          rw [applyAll, happly]
          exact hbefore
      · rintro ⟨before, p, after, o, hpoints, hbefore, hp, rfl⟩
        rcases before with - | ⟨q', before⟩
        · cases hbefore
          cases hpoints
          rw [applyAll, hp]
        · obtain ⟨rfl, rfl⟩ := List.cons.inj hpoints
          unfold applyAll at hbefore ⊢
          split at hbefore
          · cases hbefore
          · exact ih.mpr ⟨before, p, after, o, rfl, hbefore, hp, rfl⟩

theorem applyAll_singleton_eq_ok :
    applyAll [p] program = (program', .ok ()) ↔ program.apply p = .ok program' := by
  cases happly : program.apply p <;> simp [applyAll, happly]

/-- A point is applied exactly if its module is loaded and prepared, its mutant has a clone and has
not been applied, the clone has an instruction in the place of the point and the operator has as
many replacements for it as the point counts on.  Then this instruction and the record of applied
mutants are all that changes; otherwise the failure names the mutant, and nothing changes. -/
theorem applyAll_singleton_outcome (program : Program) (p : Point) :
    ((∃ program', applyAll [p] program = (program', .ok ())) ↔
      ∃ l clone i, program.Admits p l clone i) ∧
    (∀ program', applyAll [p] program = (program', .ok ()) →
      ∃ l clone i, program.Admits p l clone i ∧ program.ChangedBy p l clone i program') ∧
    ∀ program' e, applyAll [p] program = (program', .error e) →
      program' = program ∧ ∃ o : ApplicationObstacle, e = .application p.identifier o.message := by
  simp only [applyAll_singleton_eq_ok]
  refine ⟨apply_isOk_iff, fun program' => apply_changedBy, fun program' e h => ?_⟩
  obtain ⟨before, q, after, o, hpoints, hbefore, -, rfl⟩ := applyAll_eq_error_iff.mp h
  rcases before with - | ⟨q', before⟩
  · cases hbefore
    cases hpoints
    exact ⟨rfl, o, rfl⟩
  · simp at hpoints

/-- The point of the addition in the module that doubles. -/
def additionPoint : Point := .ofMatch 0 "doubling.json" "add" ⟨0, 0, 0⟩ .addToSub 0 0

/-- The program that doubles, with a clone for that point. -/
def preparedDoubling : Program :=
  ((ofModules 1 [(doubling, "doubling.json")]).isolate [additionPoint]).1

/-- The point is applied in its clone, the fourth function; a second time it is refused. -/
theorem applyAll_singleton_outcome_addition :
    ∃ once l i, applyAll [additionPoint] preparedDoubling = (once, .ok ()) ∧
      preparedDoubling.ChangedBy additionPoint l 3 i once ∧
      ∃ o : ApplicationObstacle, applyAll [additionPoint] once =
        (once, .error (.application additionPoint.identifier o.message)) := by
  have hclone : (preparedDoubling.module? 0).bind (fun l => l.clone? additionPoint.identifier) =
      some 3 := by decide +kernel
  have hok : (applyAll [additionPoint] preparedDoubling).2 = .ok () := by decide +kernel
  have hagain : (applyAll [additionPoint] (applyAll [additionPoint] preparedDoubling).1).2 ≠
      .ok () := by decide +kernel
  obtain ⟨once, honce⟩ : ∃ once, applyAll [additionPoint] preparedDoubling = (once, .ok ()) :=
    ⟨_, Prod.ext rfl hok⟩
  obtain ⟨l, clone, i, hadmits, hchanged⟩ := (applyAll_singleton_outcome _ _).2.1 once honce
  obtain rfl : clone = 3 := by
    rw [show preparedDoubling.module? 0 = some l from hadmits.loaded] at hclone
    exact Option.some.inj (hadmits.reserved.symm.trans hclone)
  refine ⟨once, l, i, honce, hchanged, ?_⟩
  rw [honce] at hagain
  rcases htwice : applyAll [additionPoint] once with ⟨twice, e | u⟩
  · obtain ⟨rfl, o, rfl⟩ := (applyAll_singleton_outcome _ _).2.2 twice e htwice
    exact ⟨o, rfl⟩
  · exact absurd (congrArg Prod.snd htwice) hagain

end Program

end MutantGate
