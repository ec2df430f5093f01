import Mathlib.Data.List.Pairwise
import MutantGate.Proofs.PipelineSuccess
/-!
# Applying some of the mutants, in any order

Once the mutants of a module have been isolated, each of them has a function of its own to work
in.  So any of them can be applied in any order: each changes one instruction of its own clone
and nothing else, and what comes out depends on which of them have been applied only.

## What is proved

After a successful isolation every list of found points without repetitions can be applied.  What
comes out is described function by function (`LoadedModule.ChangedBy`): the clones of the applied
points, the clones of the others, the dispatchers, the untouched copies, and the rest.  Any other
order of the same points makes the same module; if none of them has an effect, that is the module
before.  The step is `LoadedModule.AppliesAll.cons`, the run goes over the list of points.

## What is left outside

Points that a search does not find, and points that are applied twice.  What becomes of those is
said in `Proofs.ApplicationOutcome`, one application at a time.  When isolation succeeds is no
matter of this module either (`Proofs.IsolationOutcome`).
-/

namespace MutantGate

/-! ## What applications change -/

theorem Function.setInstruction_self {f : Function} {block index : Nat} {i : Instruction}
    (h : f.instruction? block index = some i) : f.setInstruction block index i = f := by
  obtain ⟨b, hb, hi⟩ := Option.bind_eq_some_iff.mp h
  obtain ⟨hindex, rfl⟩ := List.getElem?_eq_some_iff.mp hi
  have hblocks : (f.blocks.modify block fun b' => b'.set index b[index]) = f.blocks := by
    refine List.ext_getElem? fun k => ?_
    rw [List.getElem?_modify]
    by_cases hk : block = k
    · subst hk
      simp [hb]
    · simp [hk]
  rw [Function.setInstruction, hblocks]

/-- The operator without effect puts an instruction in its own place. -/
theorem Point.rewrite?_noMutation {p : Point} {f f' : Function} (hp : p.operator = .noMutation)
    (h : p.rewrite? f = some f') : f' = f := by
  obtain ⟨i, j, hi, hj, rfl⟩ := Point.rewrite?_eq_some_iff.mp h
  have hj := Operator.mutate_eq_ok_iff.mp hj
  rw [hp] at hj
  rw [(Operator.mem_unchanged (List.mem_of_getElem? hj)).2]
  exact f.setInstruction_self hi

namespace LoadedModule

variable {l l₁ l' l'' : LoadedModule} {points S S' : List Point}

/-- The outcome of applying mutants depends on which they are, but not on their order. -/
theorem AppliesAll.functions_eq (h : AppliesAll S l l') (h' : AppliesAll S' l l'')
    (hsame : ∀ p, p ∈ S ↔ p ∈ S') : l''.module.functions = l'.module.functions := by
  refine List.ext_getElem? fun g => ?_
  by_cases hg : ∃ p ∈ S, l.clone? p.identifier = some g
  · obtain ⟨p, hp, hclone⟩ := hg
    obtain ⟨c, f, f', hc, hf, hf', hresult⟩ := h.rewritten p hp
    obtain ⟨c', f₁, f₁', hc', hf₁, hf₁', hresult'⟩ := h'.rewritten p ((hsame p).mp hp)
    obtain rfl : c = g := Option.some.inj (hc.symm.trans hclone)
    obtain rfl : c' = c := Option.some.inj (hc'.symm.trans hclone)
    obtain rfl : f₁ = f := Option.some.inj (hf₁.symm.trans hf)
    rw [hresult', hresult, ← hf₁', ← hf']
  · have hnone : ∀ p ∈ S, l.clone? p.identifier ≠ some g := fun p hp hclone => hg ⟨p, hp, hclone⟩
    rw [h.others g hnone, h'.others g fun p hp => hnone p ((hsame p).mpr hp)]

/-- Points without effect leave all functions as they are. -/
theorem AppliesAll.functions_eq_of_noMutation (h : AppliesAll S l l')
    (hnone : ∀ p ∈ S, p.operator = .noMutation) : l'.module.functions = l.module.functions := by
  refine List.ext_getElem? fun g => ?_
  by_cases hg : ∃ p ∈ S, l.clone? p.identifier = some g
  · obtain ⟨p, hp, hclone⟩ := hg
    obtain ⟨c, f, f', hc, hf, hf', hresult⟩ := h.rewritten p hp
    obtain rfl : c = g := Option.some.inj (hc.symm.trans hclone)
    rw [hresult, hf, Point.rewrite?_noMutation (hnone p hp) hf']
  · exact h.others g fun p hp hclone => hg ⟨p, hp, hclone⟩

/-! ## After isolation -/

theorem below_of_found (hfound : ∀ p ∈ points, ∃ f i, p.FoundIn l f i) :
    ∀ p ∈ points, p.module = l.id ∧ p.location.function < l.module.functions.length := by
  intro p hp
  obtain ⟨f, i, hp⟩ := hfound p hp
  exact ⟨hp.module, (List.getElem?_eq_some_iff.mp hp.function).1⟩

/-- Isolation succeeds only if no two points of the module have the same name. -/
theorem identifier_inj_of_isolate (hfound : ∀ p ∈ points, ∃ f i, p.FoundIn l f i)
    (h : l.isolate points = (l₁, .ok ())) {p q : Point} (hp : p ∈ points) (hq : q ∈ points)
    (hname : p.identifier = q.identifier) : p = q := by
  have hbelow := below_of_found hfound
  obtain ⟨r, hall, -, -⟩ := isolate_isolatesAll h fun p hp _ => (hbelow p hp).2
  have hdistinct := (mutantsByFunction_names_perm l.id points).nodup_iff.mp hall.distinct
  have hown : ∀ p ∈ points, p ∈ ownPoints l.id points := fun p hp =>
    mem_ownPoints.mpr ⟨hp, (hbelow p hp).1⟩
  exact List.inj_on_of_nodup_map hdistinct (hown p hp) (hown q hq) hname

/-- No two points of the module have the same clone. -/
theorem own_of_isolate (hfound : ∀ p ∈ points, ∃ f i, p.FoundIn l f i)
    (h : l.isolate points = (l₁, .ok ())) {p q : Point} (hp : p ∈ points) (hq : q ∈ points)
    {g : Nat} (hclone : l₁.clone? p.identifier = some g)
    (hclone' : l₁.clone? q.identifier = some g) : p = q := by
  have hname : p.identifier = q.identifier := by
    obtain ⟨r, -, hrecords, rfl⟩ :=
      isolate_isolatesAll h fun p hp _ => (below_of_found hfound p hp).2
    exact hrecords.lookup_injective _ _ g hclone hclone'
  exact identifier_inj_of_isolate hfound h hp hq hname

/-- In the place of a function with points stands a dispatcher, and the copy of the function that
it falls back on is the clone of no point. -/
theorem dispatcher_of_isolate (hfound : ∀ p ∈ points, ∃ f i, p.FoundIn l f i)
    (h : l.isolate points = (l₁, .ok ())) {p : Point} (hp : p ∈ points) :
    ∃ f fallback arms s, l.module.functions[p.location.function]? = some f ∧
      l₁.module.functions[p.location.function]? = some (dispatcher f fallback arms) ∧
      l₁.module.functions[fallback]? = some { f with name := s } ∧
      ∀ name, l₁.clone? name ≠ some fallback := by
  have hbelow := below_of_found hfound
  obtain ⟨r, hall, -, rfl⟩ := isolate_isolatesAll h fun p hp _ => (hbelow p hp).2
  have hown := mem_pointsIn.mpr ⟨hp, (hbelow p hp).1, rfl⟩
  obtain ⟨f, hf, hisolated⟩ := hall.owned (List.ne_nil_of_mem hown)
  obtain ⟨fallback, arms, hdispatcher, hcopy, hfallback, -⟩ := hisolated.split
  obtain ⟨s, hs⟩ := hcopy.present
  exact ⟨f, fallback, arms, s, hf, hdispatcher, hs, fun name hclone =>
    hfallback _ (mem_of_lookup_eq_some hclone) rfl⟩

/-- What a module `l'` is after the points `S` have been applied to `l`, which has been made from
a module `m` by isolating `points`. -/
structure ChangedBy (m : Module) (points S : List Point) (l l' : LoadedModule) : Prop where
  /-- The clone of each point has the replacement where the function of the point has the
  instruction. -/
  clones : ∀ p ∈ S, ∃ g f i j s, l.clone? p.identifier = some g ∧ m.functions.length ≤ g ∧
    m.functions[p.location.function]? = some f ∧
    f.instruction? p.location.block p.location.instruction = some i ∧
    (p.operator.replacements i)[p.variant]? = some j ∧
    l.module.functions[g]? = some { f with name := s } ∧
    l'.module.functions[g]? = some
      ({ f with name := s }.setInstruction p.location.block p.location.instruction j)
  /-- No two points have the same clone. -/
  own : ∀ p ∈ points, ∀ q ∈ points, ∀ g, l.clone? p.identifier = some g →
    l.clone? q.identifier = some g → p = q
  /-- Every function that is no such clone is left. -/
  others : ∀ g, (∀ p ∈ S, l.clone? p.identifier ≠ some g) →
    l'.module.functions[g]? = l.module.functions[g]?
  /-- The functions in the places of those of `m`, dispatchers among them, are no clones. -/
  originals : ∀ g < m.functions.length, l'.module.functions[g]? = l.module.functions[g]?
  /-- Neither are the untouched copies that the dispatchers fall back on. -/
  copies : ∀ p ∈ points, ∃ f fallback arms s, m.functions[p.location.function]? = some f ∧
    l.module.functions[p.location.function]? = some (dispatcher f fallback arms) ∧
    l.module.functions[fallback]? = some { f with name := s } ∧
    l'.module.functions[fallback]? = some { f with name := s }
  /-- The clones of the other points are left. -/
  unapplied : ∀ p ∈ points, p ∉ S → ∀ g, l.clone? p.identifier = some g →
    l'.module.functions[g]? = l.module.functions[g]?
  /-- All that is not a function is left, and the points are on record. -/
  rest : l' = { l with
    module := { l.module with functions := l'.module.functions }
    applied := S.map Point.identifier }

section Changed

variable (hfound : ∀ p ∈ points, ∃ f i, p.FoundIn l f i)
  (hisolate : l.isolate points = (l₁, .ok ())) (hsub : S ⊆ points)

include hfound hisolate hsub

/-- No two points have the same clone, so no clone is changed but by its own point. -/
theorem changedBy_of_appliesAll (happlied : l₁.applied = []) (h : AppliesAll S l₁ l') :
    ChangedBy l.module points S l₁ l' := by
  have hclones := fun p (hp : p ∈ S) =>
    clone_of_isolate (fun p hp _ => hfound p hp) hisolate (hsub hp)
      (below_of_found hfound p (hsub hp)).1
  have hown : ∀ p ∈ points, ∀ q ∈ points, ∀ g, l₁.clone? p.identifier = some g →
      l₁.clone? q.identifier = some g → p = q := fun p hp q hq g =>
    own_of_isolate hfound hisolate hp hq
  constructor
  case clones =>
    intro p hp
    obtain ⟨g, f, i, s, hpf, hclone, hg, hf⟩ := hclones p hp
    obtain ⟨g', f₀, f', hclone', hf₀, hrewrite, hf'⟩ := h.rewritten p hp
    obtain rfl : g' = g := Option.some.inj (hclone'.symm.trans hclone)
    obtain rfl : f₀ = { f with name := s } := Option.some.inj (hf₀.symm.trans hf)
    obtain ⟨i', j, hi', hj, rfl⟩ := Point.rewrite?_eq_some_iff.mp hrewrite
    obtain rfl : i' = i := Option.some.inj (hi'.symm.trans hpf.instruction)
    exact ⟨g', f, i', j, s, hclone, hg, hpf.function, hpf.instruction,
      Operator.mutate_eq_ok_iff.mp hj, hf, hf'⟩
  case own => exact hown
  case others => exact h.others
  case originals =>
    intro g hg
    refine h.others g fun p hp hclone => ?_
    obtain ⟨g', f, i, s, -, hclone', hg', -⟩ := hclones p hp
    obtain rfl : g' = g := Option.some.inj (hclone'.symm.trans hclone)
    exact absurd hg (Nat.not_lt_of_le hg')
  case copies =>
    intro p hp
    obtain ⟨f, fallback, arms, s, hf, hdispatcher, hs, hno⟩ :=
      dispatcher_of_isolate hfound hisolate hp
    have hkept := h.others fallback fun q _ => hno q.identifier
    exact ⟨f, fallback, arms, s, hf, hdispatcher, hs, hkept.trans hs⟩
  case unapplied =>
    intro q hq hqS g hclone
    refine h.others g fun p hp hclone' => hqS ?_
    exact hown p (hsub hp) q hq g hclone' hclone ▸ hp
  case rest => rw [h.rest, happlied, List.nil_append]

/-- Any of the points can be applied, in any order. -/
theorem foldlM_apply_changedBy (happlied : l.applied = []) (hS : S.Nodup) :
    ∃ l', S.foldlM LoadedModule.apply l₁ = .ok l' ∧ AppliesAll S l₁ l' ∧
      ChangedBy l.module points S l₁ l' := by
  obtain ⟨hinj, hcan⟩ := canApply_of_isolate happlied (fun p hp _ => hfound p hp) hisolate
  have hnames : (S.map Point.identifier).Nodup := hS.map_on fun p hp q hq hname =>
    identifier_inj_of_isolate hfound hisolate (hsub hp) (hsub hq) hname
  obtain ⟨l', happly⟩ := foldlM_apply_isOk hinj hnames fun p hp =>
    hcan p (hsub hp) (below_of_found hfound p (hsub hp)).1
  have hl₁ : l₁.applied = [] := by
    obtain ⟨r, -, rfl⟩ := isolate_eq_ok hisolate
    exact happlied
  have hall := foldlM_apply_appliesAll hinj happly
  exact ⟨l', happly, hall, changedBy_of_appliesAll hfound hisolate hsub hl₁ hall⟩

end Changed

end LoadedModule

/-! ## The program of one module -/

/-- Any of the points that are found in a module can be applied after isolation, in any order.
The clone of each is changed where the point is and nothing else is changed, whatever the order;
only the record of the points follows it.  Points without effect leave the module as it is. -/
theorem applyAll_any_order {m : Module} {name : String} {version : UInt32}
    {operators : List Operator} {filter : Filter} {program prepared : Program}
    {points : List Point} (hprogram : program = (Program.empty version).add m name)
    (hpoints : points = discover operators filter program (candidates program))
    (hprepared : program.isolate points = (prepared, .ok ())) :
    ∃ l, prepared = { program with modules := [l] } ∧
      ∀ S : List Point, S.Nodup → S ⊆ points → ∃ l',
        Program.applyAll S prepared = ({ prepared with modules := [l'] }, .ok ()) ∧
        LoadedModule.ChangedBy m points S l l' ∧
        (∀ S' : List Point, S'.Perm S → Program.applyAll S' prepared =
          ({ prepared with modules := [{ l' with applied := S'.map Point.identifier }] },
            .ok ())) ∧
        ((∀ p ∈ S, p.operator = .noMutation) → l'.module = l.module) := by
  obtain ⟨l₀, hmodules, rfl, happlied⟩ :
      ∃ l, program.modules = [l] ∧ l.module = m ∧ l.applied = [] :=
    ⟨⟨0, name, m, none, []⟩, by rw [hprogram]; rfl, rfl, rfl⟩
  have hfound : ∀ p ∈ points, ∃ f i, p.FoundIn l₀ f i :=
    hpoints ▸ foundIn_of_mem_discover hmodules
  obtain ⟨l, hisolate, -⟩ := Program.isolate_eq_ok hmodules hprepared
  obtain rfl : { program with modules := [l] } = prepared :=
    congrArg Prod.fst ((Program.isolate_isOk hmodules hisolate).symm.trans hprepared)
  have hid : l.id = l₀.id := by
    obtain ⟨r, -, rfl⟩ := LoadedModule.isolate_eq_ok hisolate
    rfl
  have hmodule : ∀ p ∈ points, p.module = l.id := fun p hp =>
    (LoadedModule.below_of_found hfound p hp).1.trans hid.symm
  refine ⟨l, rfl, fun S hS hsub => ?_⟩
  obtain ⟨l', happly, hall, hchanged⟩ :=
    LoadedModule.foldlM_apply_changedBy hfound hisolate hsub happlied hS
  refine ⟨l', Program.applyAll_isOk rfl (fun p hp => hmodule p (hsub hp)) happly, hchanged,
    fun S' hperm => ?_, fun hnone => ?_⟩
  · have hsub' : S' ⊆ points := fun p hp => hsub (hperm.mem_iff.mp hp)
    obtain ⟨l'', happly', hall', hchanged'⟩ := LoadedModule.foldlM_apply_changedBy hfound hisolate
      hsub' happlied (hperm.nodup_iff.mpr hS)
    have hsame := hall.functions_eq hall' fun p => hperm.mem_iff.symm
    have hl'' : l'' = { l' with applied := S'.map Point.identifier } := by
      rw [hchanged'.rest, hsame, hchanged.rest]
    rw [← hl'']
    exact Program.applyAll_isOk rfl (fun p hp => hmodule p (hsub' hp)) happly'
  · rw [hchanged.rest, hall.functions_eq_of_noMutation hnone]

/-- The three mutants of the small module can be applied from the last to the first. -/
theorem applyAll_any_order_doubling :
    doublingMutants.length = 3 ∧ ∃ prepared l l',
      doublingProgram.isolate doublingMutants = (prepared, .ok ()) ∧
      Program.applyAll doublingMutants.reverse prepared =
        ({ prepared with modules := [l'] }, .ok ()) ∧
      LoadedModule.ChangedBy doubling doublingMutants doublingMutants.reverse l l' := by
  have hprogram : doublingProgram = (Program.empty 1).add doubling "doubling.json" := rfl
  have hpoints : doublingMutants =
      discover Operator.all .acceptAll doublingProgram (candidates doublingProgram) := rfl
  have hlength : doublingMutants.length = 3 := by decide +kernel
  have hdistinct : (doublingMutants.map Point.identifier).Nodup := by decide +kernel
  have hparams : ∀ f ∈ doubling.functions, f.params.toNat ≤ maxForwarded := by decide
  have hmodules : doublingProgram.modules = [⟨0, "doubling.json", doubling, none, []⟩] := rfl
  obtain ⟨l₁, -, hisolate, -⟩ := LoadedModule.isolate_apply_isOk
    (l := ⟨0, "doubling.json", doubling, none, []⟩) rfl rfl
    (hpoints ▸ foundIn_of_mem_discover hmodules)
    (fun _ _ f hf => hparams f (List.mem_of_getElem? hf)) (fun _ _ => List.not_mem_nil) hdistinct
  have hprepared := Program.isolate_isOk hmodules hisolate
  obtain ⟨l, -, hany⟩ := applyAll_any_order hprogram hpoints hprepared
  obtain ⟨l', happly, hchanged, -⟩ := hany doublingMutants.reverse
    (List.nodup_reverse.mpr hdistinct.of_map) fun p hp => List.mem_reverse.mp hp
  exact ⟨hlength, _, l, l', hprepared, happly, hchanged⟩

end MutantGate
