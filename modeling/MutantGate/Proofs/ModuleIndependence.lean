import MutantGate.Proofs.Bookkeeping
/-!
# The modules of a program are independent

A program finds a module by its number, and a point carries the number of its module.  Numbers
are given out once, so isolation and application of points do to each module exactly what they
would do to it in a program of its own with its own points.  Names play no part in this: two
modules may have the same identifier, the same functions and mutants of the same names.

The argument goes step by step.  Isolating looks at the points of one module only; applying a
point changes the module with its number and no other.  So a run over all points splits into
one run for each module.

## What is proved

For every program that has been built by adding modules and all points: making the mutants succeeds
exactly if each point is in some module of the program and each module succeeds alone, with its own
points; and then each module is what it has become alone.

## What is left outside

Failures: which one is reported if several modules have one depends on their order.  And the search,
which gives the points of all modules in one list (`Proofs.FoundPoints`).
-/

namespace MutantGate

/-! ## Lists in step -/

theorem forall₂_congr_left {α β : Type} {R S : α → β → Prop} {xs : List α}
    (h : ∀ x ∈ xs, ∀ y, R x y ↔ S x y) (ys : List β) :
    List.Forall₂ R xs ys ↔ List.Forall₂ S xs ys := by
  induction xs generalizing ys with
  | nil => simp only [List.forall₂_nil_left_iff]
  | cons x xs ih =>
      have hrest := ih fun x' hx' => h x' (List.mem_cons_of_mem _ hx')
      simp only [List.forall₂_cons_left_iff, h x List.mem_cons_self, hrest]

theorem forall₂_comp_iff {α β γ : Type} {R : α → β → Prop} {S : β → γ → Prop} {xs : List α}
    {zs : List γ} : (∃ ys, List.Forall₂ R xs ys ∧ List.Forall₂ S ys zs) ↔
      List.Forall₂ (fun x z => ∃ y, R x y ∧ S y z) xs zs := by
  induction xs generalizing zs with
  | nil => simp
  | cons x xs ih =>
      simp only [List.forall₂_cons_left_iff, ← ih]
      constructor
      · rintro ⟨_, ⟨y, ys, hy, hys, rfl⟩, hall⟩
        obtain ⟨z, zs, hz, hzs, rfl⟩ := List.forall₂_cons_left_iff.mp hall
        exact ⟨z, zs, ⟨y, hy, hz⟩, ⟨ys, hys, hzs⟩, rfl⟩
      · rintro ⟨z, zs, ⟨y, hy, hz⟩, ⟨ys, hys, hzs⟩, rfl⟩
        exact ⟨y :: ys, ⟨y, ys, hy, hys, rfl⟩, .cons hz hzs⟩

/-! ## Numbers -/

/-- A program to which modules have been added.  It may share its numbers with other programs,
so some are passed over. -/
inductive Program.Built : Program → Prop
  | empty (formatVersion : UInt32) (next : ModuleId) : Built ⟨formatVersion, next, []⟩
  | add {program : Program} (m : Module) (identifier : String) :
      Built program → Built (program.add m identifier)
  | passOver {program : Program} :
      Built program → Built { program with nextId := program.nextId + 1 }

namespace Program

/-- The numbers of the modules of a program. -/
def ids (program : Program) : List ModuleId := program.modules.map LoadedModule.id

theorem Built.ids_lt {program : Program} (h : program.Built) :
    ∀ id ∈ program.ids, id < program.nextId := by
  induction h with
  | empty formatVersion next => exact nofun
  | @add program m identifier _ ih =>
      intro id hid
      rw [ids, Program.add, List.map_append, List.mem_append] at hid
      rcases hid with hid | hid
      · exact Nat.lt_succ_of_lt (ih id hid)
      · exact List.mem_singleton.mp hid ▸ Nat.lt_succ_self program.nextId
  | passOver _ ih => exact fun id hid => Nat.lt_succ_of_lt (ih id hid)

/-- No two modules have the same number. -/
theorem Built.ids_nodup {program : Program} (h : program.Built) : program.ids.Nodup := by
  induction h with
  | empty formatVersion next => exact List.nodup_nil
  | @add program m identifier hbuilt ih =>
      rw [ids, Program.add, List.map_append]
      refine List.nodup_append.mpr ⟨ih, List.nodup_singleton _, fun id hid id' hid' => ?_⟩
      rw [List.mem_singleton.mp hid']
      exact Nat.ne_of_lt (hbuilt.ids_lt id hid)
  | passOver _ ih => exact ih

end Program

/-! ## Isolation -/

namespace LoadedModule

variable {l l' : LoadedModule}

theorem isolate_id (l : LoadedModule) (points : List Point) : (l.isolate points).1.id = l.id :=
  (StepsTo.isolates points).id_eq.1

theorem apply_id {p : Point} (h : l.apply p = .ok l') : l'.id = l.id :=
  (StepsTo.applies h).id_eq.1

/-- Isolation looks at no points but those of the module. -/
theorem isolate_ownPoints (l : LoadedModule) (points : List Point) :
    l.isolate (ownPoints l.id points) = l.isolate points := by
  have hgroups : mutantsByFunction l.id (ownPoints l.id points) =
      mutantsByFunction l.id points := by
    show mutantsByFunction l.id (points.filter _) = _
    simp only [mutantsByFunction, List.filter_filter, Bool.and_self]
  rw [isolate, hgroups]
  rfl

end LoadedModule

theorem isolateModules_eq_ok_iff {points : List Point} {ls ls' : List LoadedModule} :
    isolateModules points ls = (ls', .ok ()) ↔
      List.Forall₂ (fun l l' => l.isolate points = (l', .ok ())) ls ls' := by
  induction ls generalizing ls' with
  | nil =>
      rw [isolateModules, List.forall₂_nil_left_iff, Prod.mk.injEq]
      exact ⟨fun h => h.1.symm, fun h => ⟨h.symm, rfl⟩⟩
  | cons l ls ih =>
      rw [List.forall₂_cons_left_iff, isolateModules]
      rcases hfirst : l.isolate points with ⟨l₁, e | u⟩
      · simp
      · simp only [← ih]
        rcases isolateModules points ls with ⟨ls₁, e | u⟩
        · simp
        · simp [eq_comm]

theorem Program.isolate_eq_ok_iff {program prepared : Program} {points : List Point} :
    program.isolate points = (prepared, .ok ()) ↔
      ∃ ls, List.Forall₂ (fun l l' => l.isolate points = (l', .ok ())) program.modules ls ∧
        prepared = { program with modules := ls } := by
  simp only [Program.isolate, ← isolateModules_eq_ok_iff]
  rcases isolateModules points program.modules with ⟨ls, e | u⟩
  · simp
  · simp [eq_comm]

theorem Program.ids_of_isolate {program prepared : Program} {points : List Point}
    (h : program.isolate points = (prepared, .ok ())) : prepared.ids = program.ids := by
  obtain ⟨ls, hls, rfl⟩ := isolate_eq_ok_iff.mp h
  show ls.map LoadedModule.id = program.modules.map LoadedModule.id
  rw [← List.forall₂_eq_eq_eq, List.forall₂_map_left_iff, List.forall₂_map_right_iff]
  refine List.Forall₂.flip (hls.imp fun l l' hl => ?_)
  have hid := l.isolate_id points
  rw [hl] at hid
  exact hid

/-! ## Application -/

/-- The points of the module among these, applied one after the other, make the second module
of the first. -/
def LoadedModule.AppliesOwn (points : List Point) (l l' : LoadedModule) : Prop :=
  (ownPoints l.id points).foldlM LoadedModule.apply l = .ok l'

namespace LoadedModule

variable {l l₁ l' : LoadedModule} {p : Point} {points : List Point}

theorem appliesOwn_nil : l.AppliesOwn [] l' ↔ l = l' := by
  rw [AppliesOwn]
  exact ⟨Except.ok.inj, congrArg _⟩

theorem appliesOwn_cons_of_ne (h : p.module ≠ l.id) :
    l.AppliesOwn (p :: points) l' ↔ l.AppliesOwn points l' := by
  rw [AppliesOwn, ownPoints_cons_of_ne h]
  rfl

theorem appliesOwn_cons_of_eq (h : p.module = l.id) :
    l.AppliesOwn (p :: points) l' ↔ ∃ l₁, l.apply p = .ok l₁ ∧ l₁.AppliesOwn points l' := by
  rw [AppliesOwn, ownPoints_cons_of_eq h, List.foldlM_cons]
  cases happly : l.apply p with
  | error e => exact ⟨nofun, fun ⟨_, h, _⟩ => by cases h⟩
  | ok l₁ =>
      have hid := apply_id happly
      constructor
      · intro hrest
        exact ⟨l₁, rfl, by rw [AppliesOwn, hid]; exact hrest⟩
      · rintro ⟨_, hsame, hrest⟩
        obtain rfl := Except.ok.inj hsame
        rw [AppliesOwn, hid] at hrest
        exact hrest

end LoadedModule

namespace Program

variable {program program' final : Program} {p : Point} {points : List Point}

theorem id_of_module? {id : ModuleId} {l : LoadedModule} (h : program.module? id = some l) :
    l.id = id := by
  simpa using List.find?_some h

theorem module?_eq_some_iff (hids : program.ids.Nodup) {id : ModuleId} {l : LoadedModule} :
    program.module? id = some l ↔ l ∈ program.modules ∧ l.id = id := by
  constructor
  · intro h
    exact ⟨List.mem_of_find?_eq_some h, id_of_module? h⟩
  · rintro ⟨hl, rfl⟩
    cases hfind : program.module? l.id with
    | some l₀ => rw [eq_of_module? hids hl hfind]
    | none => simpa using List.find?_eq_none.mp hfind l hl

theorem apply_eq_ok_iff (hids : program.ids.Nodup) :
    program.apply p = .ok program' ↔
      ∃ l ∈ program.modules, l.id = p.module ∧ ∃ l₁, l.apply p = .ok l₁ ∧
        program' = program.modifyModule p.module fun _ => l₁ := by
  constructor
  · intro h
    obtain ⟨l, l₁, hl, happly, rfl⟩ := apply_eq_ok h
    obtain ⟨hl, hid⟩ := (module?_eq_some_iff hids).mp hl
    exact ⟨l, hl, hid, l₁, happly, rfl⟩
  · rintro ⟨l, hl, hid, l₁, happly, rfl⟩
    simp only [Program.apply, (module?_eq_some_iff hids).mpr ⟨hl, hid⟩, happly, Except.map]

/-- A module that takes the place of one with its number leaves the numbers as they are. -/
theorem ids_modifyModule (program : Program) {id : ModuleId} {l₁ : LoadedModule} (h : l₁.id = id) :
    (program.modifyModule id fun _ => l₁).ids = program.ids := by
  rw [ids, modifyModule, List.map_map]
  refine List.map_congr_left fun l _ => ?_
  by_cases hl : l.id = id
  · simp [hl, h]
  · simp [hl]

/-- After a point has been applied, what is left to do in each module is what was to be done
there without that point. -/
theorem forall₂_appliesOwn_modifyModule (hids : program.ids.Nodup) {l l₁ : LoadedModule}
    (hl : l ∈ program.modules) (hid : l.id = p.module) (happly : l.apply p = .ok l₁)
    (ls : List LoadedModule) :
    List.Forall₂ (LoadedModule.AppliesOwn points)
        (program.modifyModule p.module fun _ => l₁).modules ls ↔
      List.Forall₂ (LoadedModule.AppliesOwn (p :: points)) program.modules ls := by
  rw [modifyModule, List.forall₂_map_left_iff]
  refine forall₂_congr_left (fun l₀ hl₀ l' => ?_) ls
  by_cases hl₀id : l₀.id = p.module
  · obtain rfl : l₀ = l := List.inj_on_of_nodup_map hids hl₀ hl (hl₀id.trans hid.symm)
    rw [if_pos (by simpa using hid), LoadedModule.appliesOwn_cons_of_eq hid.symm, happly]
    constructor
    · intro h
      exact ⟨l₁, rfl, h⟩
    · rintro ⟨_, hsame, hrest⟩
      cases hsame
      exact hrest
  · rw [if_neg (by simpa using hl₀id), LoadedModule.appliesOwn_cons_of_ne (Ne.symm hl₀id)]

/-- Applying points one after the other applies in each module its own points. -/
theorem applyAll_eq_ok_iff (hids : program.ids.Nodup) :
    applyAll points program = (final, .ok ()) ↔
      (∀ p ∈ points, p.module ∈ program.ids) ∧
      ∃ ls, List.Forall₂ (LoadedModule.AppliesOwn points) program.modules ls ∧
        final = { program with modules := ls } := by
  induction points generalizing program with
  | nil =>
      have hsame : ∀ ls, List.Forall₂ (LoadedModule.AppliesOwn []) program.modules ls ↔
          program.modules = ls := by
        intro ls
        rw [← List.forall₂_eq_eq_eq]
        exact forall₂_congr_left (fun _ _ _ => LoadedModule.appliesOwn_nil) ls
      simp only [applyAll, hsame]
      simp [eq_comm]
  | cons p points ih =>
      rw [applyAll]
      cases happly : program.apply p with
      | error e =>
          refine ⟨nofun, fun ⟨hloaded, ls, hown, _⟩ => ?_⟩
          obtain ⟨l, hl, hid⟩ := List.mem_map.mp (hloaded p List.mem_cons_self)
          obtain ⟨l', hl'⟩ := exists_of_forall₂ hown hl
          obtain ⟨l₁, hl₁, -⟩ := (LoadedModule.appliesOwn_cons_of_eq hid.symm).mp hl'
          have hok := (apply_eq_ok_iff hids).mpr ⟨l, hl, hid, l₁, hl₁, rfl⟩
          rw [happly] at hok
          cases hok
      | ok program₁ =>
          obtain ⟨l, hl, hid, l₁, hl₁, rfl⟩ := (apply_eq_ok_iff hids).mp happly
          have hids₁ := ids_modifyModule program ((LoadedModule.apply_id hl₁).trans hid)
          have hloaded : p.module ∈ program.ids := hid ▸ List.mem_map_of_mem hl
          dsimp only
          rw [ih (hids₁ ▸ hids), hids₁, List.forall_mem_cons, and_iff_right hloaded]
          simp only [forall₂_appliesOwn_modifyModule hids hl hid hl₁]
          rfl

end Program

/-! ## Both together -/

/-- Isolating and applying the points of the module among these makes the second module of the
first. -/
def LoadedModule.Makes (points : List Point) (l l' : LoadedModule) : Prop :=
  ∃ l₁, l.isolate points = (l₁, .ok ()) ∧ l₁.AppliesOwn points l'

theorem LoadedModule.makes_ownPoints {l l' : LoadedModule} {points : List Point} :
    l.Makes (ownPoints l.id points) l' ↔ l.Makes points l' := by
  have hown : ∀ l₁ : LoadedModule, l.isolate points = (l₁, .ok ()) →
      (l₁.AppliesOwn (ownPoints l.id points) l' ↔ l₁.AppliesOwn points l') := by
    intro l₁ h
    have hid := l.isolate_id points
    rw [h] at hid
    rw [AppliesOwn, AppliesOwn, ← hid, ownPoints_ownPoints]
  simp only [Makes, isolate_ownPoints]
  exact exists_congr fun l₁ => and_congr_right (hown l₁)

/-- Making the mutants of a program makes those of each of its modules. -/
theorem Validator.mutate_eq_ok_iff_forall₂ {program final : Program} {points : List Point}
    (hids : program.ids.Nodup) :
    Validator.mutate program points = .ok final ↔
      (∀ p ∈ points, p.module ∈ program.ids) ∧
      ∃ ls, List.Forall₂ (LoadedModule.Makes points) program.modules ls ∧
        final = { program with modules := ls } := by
  rw [Validator.mutate_eq_ok_iff]
  constructor
  · rintro ⟨prepared, hisolate, happly⟩
    have hids₁ := Program.ids_of_isolate hisolate
    obtain ⟨ls, hls, rfl⟩ := Program.isolate_eq_ok_iff.mp hisolate
    obtain ⟨hloaded, ls', hls', rfl⟩ := (Program.applyAll_eq_ok_iff (hids₁ ▸ hids)).mp happly
    exact ⟨hids₁ ▸ hloaded, ls', forall₂_comp_iff.mp ⟨ls, hls, hls'⟩, rfl⟩
  · rintro ⟨hloaded, ls', hmakes, rfl⟩
    obtain ⟨ls, hls, hls'⟩ := forall₂_comp_iff.mpr hmakes
    have hisolate := Program.isolate_eq_ok_iff.mpr ⟨ls, hls, rfl⟩
    have hids₁ := Program.ids_of_isolate hisolate
    refine ⟨_, hisolate, (Program.applyAll_eq_ok_iff (hids₁ ▸ hids)).mpr ⟨?_, ls', hls', rfl⟩⟩
    exact hids₁ ▸ hloaded

/-- A module by itself, in a program in which it keeps its number. -/
def Program.alone (program : Program) (l : LoadedModule) : Program := { program with modules := [l] }

theorem Validator.mutate_alone_iff {program : Program} {points : List Point} {l l' : LoadedModule} :
    Validator.mutate (program.alone l) (ownPoints l.id points) = .ok (program.alone l') ↔
      l.Makes points l' := by
  have hids : (program.alone l).ids.Nodup := List.nodup_singleton l.id
  rw [mutate_eq_ok_iff_forall₂ hids, ← LoadedModule.makes_ownPoints]
  constructor
  · rintro ⟨-, ls, hls, hsame⟩
    obtain rfl : [l'] = ls := congrArg Program.modules hsame
    exact (List.forall₂_cons.mp hls).1
  · intro h
    refine ⟨fun p hp => ?_, [l'], .cons h .nil, rfl⟩
    exact List.mem_singleton.mpr (mem_ownPoints.mp hp).2

/-- Making all mutants of a program succeeds exactly if every point is in a module of the program
and making the mutants of each module by itself, from its own points, succeeds; and then each
module is what it has become by itself, with its clones and the record of its applied mutants. -/
theorem Validator.mutate_eq_ok_iff_alone {program : Program} (hbuilt : program.Built)
    (points : List Point) (final : Program) :
    Validator.mutate program points = .ok final ↔
      (∀ p ∈ points, p.module ∈ program.ids) ∧
      ∃ ls, List.Forall₂ (fun l l' =>
          Validator.mutate (program.alone l) (ownPoints l.id points) = .ok (program.alone l'))
        program.modules ls ∧ final = { program with modules := ls } := by
  simp only [mutate_alone_iff]
  exact mutate_eq_ok_iff_forall₂ hbuilt.ids_nodup

/-- Two modules that are the same and have the same identifier; the number between theirs has
gone to another program. -/
def namesakes : Program :=
  let first := (Program.empty 1).add doubling "doubling.json"
  { first with nextId := first.nextId + 1 }.add doubling "doubling.json"

/-- A mutant of each of the two, under one name. -/
def namesakePoints : List Point :=
  [.ofMatch 2 "doubling.json" "add" ⟨0, 0, 0⟩ .addToSub 0 0,
    .ofMatch 0 "doubling.json" "add" ⟨0, 0, 0⟩ .addToSub 0 0]

/-- Both are made, each in its module as if the other were not there. -/
theorem Validator.mutate_eq_ok_iff_alone_namesakes :
    namesakes.Built ∧ ¬ (namesakePoints.map Point.identifier).Nodup ∧
      ∃ l₀ l₁ l₀' l₁', namesakes.modules = [l₀, l₁] ∧
        Validator.mutate namesakes namesakePoints =
          .ok { namesakes with modules := [l₀', l₁'] } ∧
        Validator.mutate (namesakes.alone l₀) (ownPoints 0 namesakePoints) =
          .ok (namesakes.alone l₀') ∧
        Validator.mutate (namesakes.alone l₁) (ownPoints 2 namesakePoints) =
          .ok (namesakes.alone l₁') := by
  have hbuilt : namesakes.Built :=
    ((Program.Built.empty 1 0).add doubling "doubling.json").passOver.add doubling "doubling.json"
  obtain ⟨final, hfinal⟩ : ∃ final, Validator.mutate namesakes namesakePoints = .ok final := by
    have hok : (Validator.mutate namesakes namesakePoints).isOk = true := by decide +kernel
    cases hmutate : Validator.mutate namesakes namesakePoints with
    | error e => rw [hmutate] at hok; cases hok
    | ok final => exact ⟨final, rfl⟩
  obtain ⟨-, ls, hls, rfl⟩ := (mutate_eq_ok_iff_alone hbuilt _ _).mp hfinal
  obtain ⟨l₀', ls', h₀, hls', rfl⟩ := List.forall₂_cons_left_iff.mp hls
  obtain ⟨l₁', ls'', h₁, hls'', rfl⟩ := List.forall₂_cons_left_iff.mp hls'
  obtain rfl := List.forall₂_nil_left_iff.mp hls''
  exact ⟨hbuilt, by decide, _, _, l₀', l₁', rfl, hfinal, h₀, h₁⟩

end MutantGate
