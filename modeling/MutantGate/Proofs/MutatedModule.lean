import MutantGate.Proofs.Isolation
import MutantGate.Proofs.MutantNames
import MutantGate.Proofs.Replacement
import MutantGate.Validation
/-!
# The module with all its mutants

Every mutant is applied in a clone of its own, so the applications do not meet: after all
of them each clone is the function with the one replacement that belongs to its point,
and everything else is as isolation has left it.  A mutant that is applied twice would be
refused, so no two of the points have the same name.

## What is proved

`LoadedModule.Mutates` says what each function of the module is once all mutants have been made, and
`mutates_of_mutate` that it is so after every run that makes them.

## What is left outside

What the module does then (`Proofs.MutantIsolation`), and modules in which only some of the mutants
have been applied (`Proofs.ApplicationOrder`).
-/

namespace MutantGate

/-! ## One replacement in a function -/

/-- The function of a point with the replacement in it, if there is one. -/
def Point.rewrite? (p : Point) (f : Function) : Option Function :=
  match f.instruction? p.location.block p.location.instruction with
  | none => none
  | some i =>
    match p.operator.mutate p.variant i with
    | .error _ => none
    | .ok j => some (f.setInstruction p.location.block p.location.instruction j)

theorem Point.rewrite?_eq_some_iff {p : Point} {f f' : Function} :
    p.rewrite? f = some f' ↔ ∃ i j,
      f.instruction? p.location.block p.location.instruction = some i ∧
      p.operator.mutate p.variant i = .ok j ∧
      f' = f.setInstruction p.location.block p.location.instruction j := by
  unfold Point.rewrite?
  constructor
  · intro h
    split at h
    · cases h
    · rename_i i hi
      split at h
      · cases h
      · rename_i j hj
        cases h
        exact ⟨i, j, hi, hj, rfl⟩
  · rintro ⟨i, j, hi, hj, rfl⟩
    simp only [hi, hj]

/-- The name of a function makes no difference to a replacement. -/
theorem Point.rewrite?_rename {p : Point} {f f' : Function} {name : String}
    (h : p.rewrite? { f with name := name } = some f') :
    ∃ f₀, p.rewrite? f = some f₀ ∧ f' = { f₀ with name := name } := by
  obtain ⟨i, j, hi, hj, rfl⟩ := rewrite?_eq_some_iff.mp h
  exact ⟨_, rewrite?_eq_some_iff.mpr ⟨i, j, hi, hj, rfl⟩, rfl⟩

/-! ## Applying all mutants -/

namespace LoadedModule

variable {l l' : LoadedModule} {points : List Point}

/-- What applying mutants does to the functions of a module: a rewritten function in the place
of each clone. -/
structure AppliesAll (points : List Point) (l l' : LoadedModule) : Prop where
  others : ∀ g, (∀ p ∈ points, l.clone? p.identifier ≠ some g) →
    l'.module.functions[g]? = l.module.functions[g]?
  rewritten : ∀ p ∈ points, ∃ g f f', l.clone? p.identifier = some g ∧
    l.module.functions[g]? = some f ∧ p.rewrite? f = some f' ∧
    l'.module.functions[g]? = some f'
  length : l'.module.functions.length = l.module.functions.length
  rest : l' = { l with
    module := { l.module with functions := l'.module.functions }
    applied := l.applied ++ points.map Point.identifier }
  new : ∀ p ∈ points, p.identifier ∉ l.applied
  distinct : (points.map Point.identifier).Nodup

theorem apply_appliesAll {p : Point} (h : l.apply p = .ok l') : AppliesAll [p] l l' := by
  obtain ⟨g, i, j, hclone, hnew, hi, hj, rfl⟩ := apply_eq_ok h
  obtain ⟨f, hf, hi⟩ := Option.bind_eq_some_iff.mp hi
  change l.module.functions[g]? = some f at hf
  refine ⟨fun g' hg' => ?_, fun q hq => ?_, List.length_modify _ _ _, rfl, fun q hq => ?_,
    List.nodup_singleton _⟩
  · have hne : g ≠ g' := fun heq => hg' p List.mem_cons_self (heq ▸ hclone)
    exact List.getElem?_modify_ne _ _ hne
  · rw [List.mem_singleton.mp hq]
    refine ⟨g, f, _, hclone, hf, Point.rewrite?_eq_some_iff.mpr ⟨i, j, hi, hj, rfl⟩, ?_⟩
    show (l.module.functions.modify g _)[g]? = _
    rw [List.getElem?_modify_eq, hf]
    rfl
  · rw [List.mem_singleton.mp hq]
    exact hnew

/-- Different mutants are applied in different clones, as long as different names lead to
different clones. -/
theorem AppliesAll.cons {p : Point} {l₁ : LoadedModule}
    (hinj : ∀ s t g, l.clone? s = some g → l.clone? t = some g → s = t)
    (h₁ : AppliesAll [p] l l₁) (h : AppliesAll points l₁ l') : AppliesAll (p :: points) l l' := by
  have hclone : l₁.clone? = l.clone? := by
    rw [h₁.rest]
    rfl
  have happlied : l₁.applied = l.applied ++ [p.identifier] := by
    rw [h₁.rest]
    rfl
  -- The names of the later points differ from that of the first, as it is on record.
  have hnew : ∀ q ∈ points, q.identifier ∉ l.applied ∧ q.identifier ≠ p.identifier := by
    intro q hq
    have hq := h.new q hq
    rw [happlied, List.mem_append, List.mem_singleton, not_or] at hq
    exact hq
  refine ⟨fun g hg => ?_, fun q hq => ?_, h.length.trans h₁.length, ?_, fun q hq => ?_, ?_⟩
  · rw [h.others g fun q hq => hclone ▸ hg q (List.mem_cons_of_mem _ hq)]
    exact h₁.others g fun q hq => by
      rw [List.mem_singleton.mp hq]
      exact hg p List.mem_cons_self
  · rcases List.mem_cons.mp hq with rfl | hq
    · obtain ⟨g, f, f', hg, hf, hf', hresult⟩ := h₁.rewritten q List.mem_cons_self
      refine ⟨g, f, f', hg, hf, hf', ?_⟩
      rw [h.others g fun q' hq' heq => ?_]
      · exact hresult
      · exact (hnew q' hq').2 (hinj _ _ g (hclone ▸ heq) hg)
    · obtain ⟨g, f, f', hg, hf, hf', hresult⟩ := h.rewritten q hq
      rw [hclone] at hg
      refine ⟨g, f, f', hg, ?_, hf', hresult⟩
      rw [← h₁.others g fun q' hq' heq => ?_]
      · exact hf
      · rw [List.mem_singleton.mp hq'] at heq
        exact (hnew q hq).2 (hinj _ _ g hg heq)
  · rw [h.rest, h₁.rest]
    simp
  · rcases List.mem_cons.mp hq with rfl | hq
    · exact h₁.new q List.mem_cons_self
    · exact (hnew q hq).1
  · refine List.nodup_cons.mpr ⟨fun hmem => ?_, h.distinct⟩
    obtain ⟨q, hq, heq⟩ := List.mem_map.mp hmem
    exact (hnew q hq).2 heq

theorem foldlM_apply_appliesAll
    (hinj : ∀ s t g, l.clone? s = some g → l.clone? t = some g → s = t)
    (h : points.foldlM LoadedModule.apply l = .ok l') : AppliesAll points l l' := by
  induction points generalizing l with
  | nil =>
      cases h
      refine ⟨fun _ _ => rfl, ?_, rfl, ?_, ?_, List.nodup_nil⟩ <;> simp
  | cons p points ih =>
      rw [List.foldlM_cons] at h
      cases hfirst : l.apply p with
      | error e => rw [hfirst] at h; cases h
      | ok l₁ =>
          rw [hfirst] at h
          have h₁ := apply_appliesAll hfirst
          have hclone : l₁.clone? = l.clone? := by
            rw [h₁.rest]
            rfl
          exact h₁.cons hinj (ih (hclone ▸ hinj) h)

theorem isolate_eq_ok (h : l.isolate points = (l', .ok ())) :
    ∃ r, isolateFunctions (mutantsByFunction l.id points) ⟨l.module, []⟩ = (r, .ok ()) ∧
      l' = { l with module := r.module, clones := some r.clones } := by
  rw [isolate_eq] at h
  split at h
  · cases h
  · split at h
    · cases h
    · rename_i r hr
      cases h
      exact ⟨r, hr, rfl⟩

end LoadedModule

/-! ## Isolation and application together -/

theorem lookup_eq_some_of_mem {α : Type} {entries : List (String × α)}
    (h : (entries.map Prod.fst).Nodup) {s : String} {a : α} (hmem : (s, a) ∈ entries) :
    entries.lookup s = some a := by
  obtain ⟨before, after, rfl⟩ := List.append_of_mem hmem
  refine List.lookup_eq_some_iff.mpr ⟨before, after, rfl, fun c hc => ?_⟩
  rw [List.map_append, List.map_cons, List.nodup_append] at h
  have hne := h.2.2 c.1 (List.mem_map_of_mem hc) s List.mem_cons_self
  simpa using hne.symm

theorem mem_of_lookup_eq_some {α : Type} {entries : List (String × α)} {s : String} {a : α}
    (h : entries.lookup s = some a) : (s, a) ∈ entries := by
  obtain ⟨before, after, rfl, -⟩ := List.lookup_eq_some_iff.mp h
  exact List.mem_append_right _ List.mem_cons_self

/-- Different names have different clones. -/
theorem RecordsClones.lookup_injective {mutants : List String} {low high : Nat}
    {cs : List (String × Nat)} (h : RecordsClones mutants low high cs) (s t : String) (g : Nat)
    (hs : cs.lookup s = some g) (ht : cs.lookup t = some g) : s = t := by
  have hvalues : (cs.map Prod.snd).Nodup := h.rising.imp Nat.ne_of_lt
  exact congrArg Prod.fst (List.inj_on_of_nodup_map hvalues (mem_of_lookup_eq_some hs)
    (mem_of_lookup_eq_some ht) rfl)

/-- The arm of a point: its switch has the name of the point, and its clone is the function
with the replacement of the point. -/
structure Module.MutantArm (m : Module) (base : Nat) (f : Function) (a : Arm) (p : Point) :
    Prop where
  switch : m.switches[a.switch]? = some p.identifier
  clone : ∃ f', p.rewrite? f = some f' ∧ m.CopyAt base f' a.clone

/-- In the place of a function stands its dispatcher, over an untouched copy and the mutants
of the function. -/
structure Module.MutatedAt (m : Module) (base index : Nat) (points : List Point) (f : Function) :
    Prop where
  params : f.params.toNat ≤ maxForwarded
  split : ∃ fallback arms, m.functions[index]? = some (dispatcher f fallback arms) ∧
    m.CopyAt base f fallback ∧ List.Forall₂ (m.MutantArm base f) arms points

/-- What a module is once all its mutants have been made. -/
structure Module.Mutates (m : Module) (id : ModuleId) (points : List Point) (m' : Module) :
    Prop where
  length : m'.functions.length ≤ m.functions.length + 2 * points.length
  untouched : ∀ g < m.functions.length, pointsIn id points g = [] →
    m'.functions[g]? = m.functions[g]?
  mutated : ∀ g f, m.functions[g]? = some f → pointsIn id points g ≠ [] →
    m'.MutatedAt m.functions.length g (pointsIn id points g) f
  switches : ∃ new, m'.switches = m.switches ++ new ∧ new.Nodup ∧ (∀ s ∈ new, s ∉ m.switches) ∧
    new.length ≤ points.length

section Mutates

variable {l l₁ l' : LoadedModule} {points : List Point}

/-- Applying a mutant in its clone makes the arm of the clone the arm of the mutant. -/
theorem Module.ArmFor.mutantArm {r : Reservation} {base : Nat} {f : Function} {a : Arm} {p : Point}
    (hrecorded : ∀ {s g}, (s, g) ∈ r.clones → r.clones.lookup s = some g)
    (happlied : LoadedModule.AppliesAll points
      { l with module := r.module, clones := some r.clones } l')
    (hp : p ∈ points) (h : r.module.ArmFor r.clones base f a p.identifier) :
    l'.module.MutantArm base f a p := by
  obtain ⟨c, f₀, f₁, hc, hf₀, hf₁, hresult⟩ := happlied.rewritten p hp
  obtain rfl : c = a.clone := Option.some.inj (hc.symm.trans (hrecorded h.recorded))
  obtain ⟨s, hs⟩ := h.clone.present
  obtain rfl : f₀ = { f with name := s } := Option.some.inj (hf₀.symm.trans hs)
  obtain ⟨f₂, hf₂, rfl⟩ := Point.rewrite?_rename hf₁
  refine ⟨?_, f₂, hf₂, h.clone.appended, s, hresult⟩
  rw [happlied.rest]
  exact h.switch

/-- The dispatcher and the untouched copy are no clones, so applying mutants leaves them. -/
theorem Module.IsolatedAt.mutatedAt {r : Reservation} {base g : Nat} {f : Function}
    {own : List Point} (hrecorded : ∀ {s g}, (s, g) ∈ r.clones → r.clones.lookup s = some g)
    (happlied : LoadedModule.AppliesAll points
      { l with module := r.module, clones := some r.clones } l')
    (hkept : l'.module.functions[g]? = r.module.functions[g]?) (hown : ∀ p ∈ own, p ∈ points)
    (h : r.module.IsolatedAt r.clones base g (own.map Point.identifier) f) :
    l'.module.MutatedAt base g own f := by
  obtain ⟨fallback, arms, hdispatcher, hcopy, hfallback, harms⟩ := h.split
  refine ⟨h.params, fallback, arms, hkept.trans hdispatcher, ⟨hcopy.appended, ?_⟩, ?_⟩
  · obtain ⟨s, hs⟩ := hcopy.present
    refine ⟨s, (happlied.others fallback fun p hp hclone => ?_).trans hs⟩
    exact hfallback _ (mem_of_lookup_eq_some hclone) rfl
  · have hpoints : List.Forall₂ (fun p a => p ∈ points ∧
        r.module.ArmFor r.clones base f a p.identifier) own arms :=
      List.forall₂_and_left _ _ |>.mpr ⟨hown, (List.forall₂_map_right_iff.mp harms).flip⟩
    exact hpoints.flip.imp fun a p harm => harm.2.mutantArm hrecorded happlied harm.1

/-- What a module is once its mutants have been isolated, with the loop that makes it. -/
theorem LoadedModule.isolate_loop (h : l.isolate points = (l', .ok ()))
    (hbelow : ∀ p ∈ points, p.module = l.id →
      p.location.function < l.module.functions.length) :
    ∃ r, isolateFunctions (mutantsByFunction l.id points) ⟨l.module, []⟩ = (r, .ok ()) ∧
      IsolatesAll l.module.functions.length (mutantsByFunction l.id points) ⟨l.module, []⟩ r ∧
      RecordsClones ((mutantsByFunction l.id points).flatMap Prod.snd) l.module.functions.length
        r.module.functions.length r.clones ∧
      l' = { l with module := r.module, clones := some r.clones } := by
  obtain ⟨r, hr, rfl⟩ := isolate_eq_ok h
  have hall := isolateFunctions_eq_ok (mutantsByFunction_distinct l.id points)
    (fun o => mutantsByFunction_below hbelow) (Nat.le_refl _)
    (fun _ hc => absurd hc List.not_mem_nil) hr
  obtain ⟨cs, hcs, hrecords⟩ := hall.clones
  rw [List.nil_append] at hcs
  subst hcs
  exact ⟨r, hr, hall, hrecords, rfl⟩

theorem LoadedModule.isolate_isolatesAll (h : l.isolate points = (l', .ok ()))
    (hbelow : ∀ p ∈ points, p.module = l.id →
      p.location.function < l.module.functions.length) :
    ∃ r, IsolatesAll l.module.functions.length (mutantsByFunction l.id points) ⟨l.module, []⟩ r ∧
      RecordsClones ((mutantsByFunction l.id points).flatMap Prod.snd) l.module.functions.length
        r.module.functions.length r.clones ∧
      l' = { l with module := r.module, clones := some r.clones } := by
  obtain ⟨r, -, hmade⟩ := isolate_loop h hbelow
  exact ⟨r, hmade⟩

theorem LoadedModule.mutates
    (hbelow : ∀ p ∈ points, p.location.function < l.module.functions.length)
    (hisolate : l.isolate points = (l₁, .ok ()))
    (happly : points.foldlM LoadedModule.apply l₁ = .ok l') :
    l.module.Mutates l.id points l'.module := by
  obtain ⟨r, hall, hrecords, rfl⟩ := isolate_isolatesAll hisolate fun p hp _ => hbelow p hp
  have hlookup : ∀ {s g}, (s, g) ∈ r.clones → r.clones.lookup s = some g :=
    lookup_eq_some_of_mem (hrecords.names ▸ hall.distinct)
  have happlied := LoadedModule.foldlM_apply_appliesAll
    (l := { l with module := r.module, clones := some r.clones }) hrecords.lookup_injective happly
  -- No clone is among the functions that were there.
  have hkept : ∀ g < l.module.functions.length,
      l'.module.functions[g]? = r.module.functions[g]? := by
    intro g hg
    refine happlied.others g fun p hp hclone => ?_
    have hclone := (hrecords.range _ (mem_of_lookup_eq_some hclone)).1
    exact absurd hg (Nat.not_lt_of_le hclone)
  refine ⟨?_, fun g hg hnone => ?_, fun g f hf hsome => ?_, ?_⟩
  · rw [happlied.length, hall.length]
    exact Nat.add_le_add_left (addedFunctions_le _ _) _
  · rw [hkept g hg]
    exact hall.unowned hg hnone
  · obtain ⟨f', hf', hisolated⟩ := hall.owned hsome
    obtain rfl : f' = f := Option.some.inj (hf'.symm.trans hf)
    exact hisolated.mutatedAt hlookup happlied (hkept g (List.getElem?_eq_some_iff.mp hf).1)
      fun p hp => (mem_pointsIn.mp hp).1
  · refine ⟨_, ?_, hall.distinct, hall.fresh, ?_⟩
    · rw [happlied.rest]
      exact hall.switches
    · rw [List.length_flatMap]
      exact mutantsByFunction_length_le _ _

end Mutates

/-! ## Programs of one module -/

/-- All mutants are made if they can be isolated and then applied one after the other. -/
theorem Validator.mutate_eq_ok_iff {program final : Program} {points : List Point} :
    Validator.mutate program points = .ok final ↔
      ∃ prepared, program.isolate points = (prepared, .ok ()) ∧
        Program.applyAll points prepared = (final, .ok ()) := by
  rw [Validator.mutate]
  rcases program.isolate points with ⟨prepared, o | u⟩
  · simp
  · rcases happly : Program.applyAll points prepared with ⟨program', e | u⟩ <;>
      simp [happly]

section Programs

variable {program program' : Program} {points : List Point}

theorem Program.applyAll_eq_ok {l : LoadedModule} (hmodules : program.modules = [l])
    (hown : ∀ p ∈ points, p.module = l.id)
    (h : Program.applyAll points program = (program', .ok ())) :
    ∃ l', points.foldlM LoadedModule.apply l = .ok l' ∧ program'.modules = [l'] := by
  induction points generalizing program l with
  | nil =>
      cases h
      exact ⟨l, rfl, hmodules⟩
  | cons p points ih =>
      unfold Program.applyAll at h
      split at h
      · cases h
      · rename_i program₁ hfirst
        obtain ⟨l₀, l₁, hl₀, hl₁, rfl⟩ := Program.apply_eq_ok hfirst
        have hid := hown p List.mem_cons_self
        rw [Program.module?, hmodules, List.find?_cons_of_pos (by simp [hid])] at hl₀
        obtain rfl : l = l₀ := Option.some.inj hl₀
        have hid₁ : l₁.id = l.id := by rw [(LoadedModule.apply_appliesAll hl₁).rest]
        have hmodules₁ : (program.modifyModule p.module fun _ => l₁).modules = [l₁] := by
          rw [Program.modifyModule, hmodules]
          simp [hid]
        obtain ⟨l', hl', hmodules'⟩ := ih hmodules₁
          (fun q hq => (hown q (List.mem_cons_of_mem _ hq)).trans hid₁.symm) h
        refine ⟨l', ?_, hmodules'⟩
        rw [List.foldlM_cons, hl₁]
        exact hl'

theorem Program.isolate_eq_ok {l : LoadedModule} (hmodules : program.modules = [l])
    (h : program.isolate points = (program', .ok ())) :
    ∃ l₁, l.isolate points = (l₁, .ok ()) ∧ program'.modules = [l₁] := by
  unfold Program.isolate at h
  rw [hmodules, isolateModules] at h
  rcases hisolate : l.isolate points with ⟨l₁, e | u⟩ <;> rw [hisolate] at h <;> cases h
  exact ⟨l₁, rfl, rfl⟩

/-- Making all mutants of a program of one module makes them in that module. -/
theorem Validator.mutate_single_eq_ok {l : LoadedModule} (hmodules : program.modules = [l])
    (hown : ∀ p ∈ points, p.module = l.id)
    (h : Validator.mutate program points = .ok program') :
    ∃ l₁ l', l.isolate points = (l₁, .ok ()) ∧ points.foldlM LoadedModule.apply l₁ = .ok l' ∧
      program'.modules = [l'] := by
  obtain ⟨program₁, hisolate, happly⟩ := mutate_eq_ok_iff.mp h
  obtain ⟨l₁, hl₁, hmodules₁⟩ := Program.isolate_eq_ok hmodules hisolate
  have hid₁ : l₁.id = l.id := by
    obtain ⟨r, -, rfl⟩ := LoadedModule.isolate_eq_ok hl₁
    rfl
  obtain ⟨l', hl', hmodules'⟩ := Program.applyAll_eq_ok hmodules₁
    (fun p hp => (hown p hp).trans hid₁.symm) happly
  exact ⟨l₁, l', hl₁, hl', hmodules'⟩

/-- What making all mutants of a program of one module makes of the module. -/
theorem mutates_of_mutate {l : LoadedModule} (hmodules : program.modules = [l])
    (hpoints : ∀ p ∈ points, p.module = l.id ∧ p.location.function < l.module.functions.length)
    (h : Validator.mutate program points = .ok program') :
    ∃ l', program'.modules = [l'] ∧ l.module.Mutates l.id points l'.module := by
  obtain ⟨l₁, l', hl₁, hl', hmodules'⟩ :=
    Validator.mutate_single_eq_ok hmodules (fun p hp => (hpoints p hp).1) h
  exact ⟨l', hmodules', LoadedModule.mutates (fun p hp => (hpoints p hp).2) hl₁ hl'⟩

/-- Points that are found in a program of one module are in functions of that module. -/
theorem mem_discover_single {l : LoadedModule} {operators : List Operator} {filter : Filter}
    {cs : List Candidate} (hmodules : program.modules = [l]) :
    ∀ p ∈ discover operators filter program cs,
      p.module = l.id ∧ p.location.function < l.module.functions.length := by
  intro p hp
  obtain ⟨f, i, hp⟩ := foundIn_of_mem_discover hmodules p hp
  exact ⟨hp.module, (List.getElem?_eq_some_iff.mp hp.function).1⟩

end Programs

end MutantGate
