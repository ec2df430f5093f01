import MutantGate.Proofs.MutatedModule
/-!
# When mutants can be made

Isolation can stop at four obstacles, and application at six.  If a module has not been
isolated before, its functions that own points have few enough parameters, and the names of
the points differ from each other and from those of its switches, none of the four is met.
From then on each point has what it needs to be applied: a clone of its own with the
instruction in it that the point was found at.  Applying one point takes nothing away from the
others, so all of them can be applied, in whatever order.

## What is proved

For isolation the conditions are necessary as well: `LoadedModule.isolate_isOk_iff` has them for any
points, also for those in functions that are not there.  For application `CanApply` is what is
needed, and `foldlM_apply_isOk` carries it through a list of points.

## What is left outside

The failures; those of isolation are described in `Proofs.InterruptedIsolation`, those of
application in `Proofs.ApplicationOutcome`.
-/

namespace MutantGate

/-! ## Isolation -/

section Isolation

variable {f : Function} {r : Reservation}

theorem reserve_isOk (f : Function) (n : Nat) {mutant : String}
    (hfresh : mutant ∉ r.module.switches) : ∃ r' a, reserve f n mutant r = (r', .ok a) := by
  have hcontains : (r.module.pushCopy f s!"{f.name}$m{n}").switches.contains mutant = false := by
    simpa [Module.pushCopy, Module.pushFunction] using hfresh
  unfold reserve
  simp only [hcontains, Bool.false_eq_true, if_false]
  exact ⟨_, _, rfl⟩

theorem reserveAll_isOk (f : Function) {mutants : List String} (n : Nat)
    (hfresh : ∀ s ∈ mutants, s ∉ r.module.switches) (hdistinct : mutants.Nodup) :
    ∃ r' arms, reserveAll f n mutants r = (r', .ok arms) := by
  induction mutants generalizing n r with
  | nil => exact ⟨r, [], rfl⟩
  | cons mutant mutants ih =>
      obtain ⟨hmutant, hdistinct⟩ := List.nodup_cons.mp hdistinct
      obtain ⟨r₁, a, hfirst⟩ := reserve_isOk f n (hfresh mutant List.mem_cons_self)
      have hfresh₁ : ∀ s ∈ mutants, s ∉ r₁.module.switches := by
        intro s hs hmem
        rw [(reserve_eq_ok hfirst).1.switches, List.mem_append, List.mem_singleton] at hmem
        rcases hmem with hmem | rfl
        · exact hfresh s (List.mem_cons_of_mem _ hs) hmem
        · exact hmutant hs
      obtain ⟨r₂, arms, hrest⟩ := ih (n + 1) hfresh₁ hdistinct
      exact ⟨r₂, a :: arms, by simp only [reserveAll, hfirst, hrest]⟩

/-- A function can be taken apart exactly if it is there, leaves a register for its dispatcher,
and the names of its mutants are new. -/
theorem isolateFunction_isOk_iff {index : Nat} {mutants : List String} :
    (∃ r', isolateFunction index mutants r = (r', .ok ())) ↔
      (∃ f, r.module.functions[index]? = some f ∧ f.params.toNat ≤ maxForwarded) ∧
        (∀ s ∈ mutants, s ∉ r.module.switches) ∧ mutants.Nodup := by
  constructor
  · rintro ⟨r', h⟩
    obtain ⟨f, h⟩ := isolateFunction_eq_ok h
    exact ⟨⟨f, h.present, h.params⟩, h.fresh, h.distinct⟩
  · rintro ⟨⟨f, hf, hparams⟩, hfresh, hdistinct⟩
    obtain ⟨r₂, arms, hreserve⟩ := reserveAll_isOk
      (r := { r with module := r.module.pushCopy f s!"{f.name}$original" }) f 0 hfresh hdistinct
    simp only [isolateFunction, hf, hreserve, if_neg (Nat.not_lt_of_le hparams)]
    exact ⟨_, rfl⟩

/-- Nothing stands in the way of taking functions apart, unless one of them is not there. -/
structure Module.CanIsolate (m : Module) (owners : List (Nat × List String)) : Prop where
  params : ∀ o ∈ owners, ∀ f, m.functions[o.1]? = some f → f.params.toNat ≤ maxForwarded
  fresh : ∀ s ∈ owners.flatMap Prod.snd, s ∉ m.switches
  distinct : (owners.flatMap Prod.snd).Nodup

/-- How many functions there are when the turn comes to an index, if there are `n` before the
first is taken apart. -/
def functionsBefore (n : Nat) (owners : List (Nat × List String)) (index : Nat) : Nat :=
  n + addedFunctions (owners.filter fun o => o.1 < index)

theorem functionsBefore_cons (n : Nat) {o : Nat × List String} {index : Nat} (h : o.1 < index)
    (owners : List (Nat × List String)) :
    functionsBefore n (o :: owners) index =
      functionsBefore (n + o.2.length + 1) owners index := by
  rw [functionsBefore, List.filter_cons_of_pos (by simpa using h), addedFunctions_cons,
    functionsBefore, Nat.add_assoc, Nat.add_assoc, Nat.add_assoc]

/-- The first index comes before anything is appended. -/
theorem functionsBefore_first (n : Nat) {o : Nat × List String} {owners : List (Nat × List String)}
    (h : ∀ o' ∈ owners, o.1 < o'.1) : functionsBefore n (o :: owners) o.1 = n := by
  have hnone : ((o :: owners).filter fun o' => o'.1 < o.1) = [] := by
    refine List.filter_eq_nil_iff.mpr fun o' ho' => ?_
    rcases List.mem_cons.mp ho' with rfl | ho'
    · simp
    · simpa using Nat.le_of_lt (h o' ho')
  rw [functionsBefore, hnone]
  rfl

section Step

variable {index : Nat} {mutants : List String} {owners : List (Nat × List String)}
  {r₁ : Reservation}

/-- The copies that a step appends have the parameters of their function. -/
theorem Isolates.appended_params (h : Isolates index mutants f r r₁) {k : Nat} {g : Function}
    (hk : r.module.functions.length ≤ k) (hg : r₁.module.functions[k]? = some g) :
    g.params = f.params := by
  have hlt := (List.getElem?_eq_some_iff.mp hg).1
  rw [h.functions_length] at hlt
  obtain ⟨n, rfl⟩ := Nat.exists_eq_add_of_le hk
  obtain ⟨s, hs⟩ := h.copied (k := n) (by omega)
  obtain rfl := Option.some.inj (hg.symm.trans hs)
  rfl

/-- A step changes nothing about what stands in the way of the later ones. -/
theorem Isolates.canIsolate_iff (h : Isolates index mutants f r r₁)
    (hlater : ∀ o ∈ owners, index < o.1) :
    r.module.CanIsolate ((index, mutants) :: owners) ↔ r₁.module.CanIsolate owners := by
  have hkept : ∀ o ∈ owners, o.1 < r.module.functions.length →
      r₁.module.functions[o.1]? = r.module.functions[o.1]? := fun o ho =>
    h.others (Nat.ne_of_gt (hlater o ho))
  constructor
  · intro hcan
    have hdistinct := hcan.distinct
    rw [List.flatMap_cons, List.nodup_append] at hdistinct
    refine ⟨fun o ho g hg => ?_, fun s hs hmem => ?_, hdistinct.2.1⟩
    · by_cases hold : o.1 < r.module.functions.length
      · exact hcan.params o (List.mem_cons_of_mem _ ho) g ((hkept o ho hold).symm.trans hg)
      · exact h.appended_params (Nat.le_of_not_lt hold) hg ▸ h.params
    · rcases List.mem_append.mp (h.switches ▸ hmem) with hmem | hmem
      · exact hcan.fresh s (List.mem_append_right _ hs) hmem
      · exact hdistinct.2.2 s hmem s hs rfl
  · intro hcan
    have hnew : ∀ s ∈ owners.flatMap Prod.snd, s ∉ r.module.switches ∧ s ∉ mutants := by
      intro s hs
      have hs := hcan.fresh s hs
      rwa [h.switches, List.mem_append, not_or] at hs
    refine ⟨fun o ho g hg => ?_, fun s hs => ?_, ?_⟩
    · rcases List.mem_cons.mp ho with rfl | ho
      · exact Option.some.inj (hg.symm.trans h.present) ▸ h.params
      · have hold := (List.getElem?_eq_some_iff.mp hg).1
        exact hcan.params o ho g ((hkept o ho hold).trans hg)
    · rcases List.mem_append.mp (List.flatMap_cons ▸ hs) with hs | hs
      · exact h.fresh s hs
      · exact (hnew s hs).1
    · rw [List.flatMap_cons]
      exact List.nodup_append.mpr ⟨h.distinct, hcan.distinct, fun s hs t ht heq =>
        (hnew t ht).2 (heq ▸ hs)⟩

/-- A step brings the later indices as many functions as it appends. -/
theorem Isolates.functionsBefore_eq (h : Isolates index mutants f r r₁) {o : Nat × List String}
    (hlater : index < o.1) :
    functionsBefore r.module.functions.length ((index, mutants) :: owners) o.1 =
      functionsBefore r₁.module.functions.length owners o.1 := by
  rw [functionsBefore_cons _ hlater, h.functions_length]

end Step

/-- Functions can be taken apart in ascending order exactly if each of them is there when its turn
comes and nothing else stands in the way. -/
theorem isolateFunctions_isOk_iff {owners : List (Nat × List String)}
    (hascending : (owners.map Prod.fst).SortedLT) :
    (∃ r', isolateFunctions owners r = (r', .ok ())) ↔
      (∀ o ∈ owners, o.1 < functionsBefore r.module.functions.length owners o.1) ∧
        r.module.CanIsolate owners := by
  induction owners generalizing r with
  | nil => exact ⟨fun _ => ⟨nofun, nofun, nofun, List.nodup_nil⟩, fun _ => ⟨r, rfl⟩⟩
  | cons o owners ih =>
      obtain ⟨index, mutants⟩ := o
      obtain ⟨hlater, hascending⟩ := List.pairwise_cons.mp hascending.pairwise
      have hlater : ∀ o ∈ owners, index < o.1 := fun o ho => hlater o.1 (List.mem_map_of_mem ho)
      have hfirst := functionsBefore_first r.module.functions.length (o := (index, mutants)) hlater
      by_cases hstep : ∃ r₁, isolateFunction index mutants r = (r₁, .ok ())
      · obtain ⟨r₁, hstep⟩ := hstep
        obtain ⟨f, h₁⟩ := isolateFunction_eq_ok hstep
        have hreach : (∀ o ∈ owners, o.1 < functionsBefore r₁.module.functions.length owners o.1) ↔
            ∀ o ∈ (index, mutants) :: owners,
              o.1 < functionsBefore r.module.functions.length ((index, mutants) :: owners) o.1 := by
          rw [List.forall_mem_cons, hfirst, and_iff_right h₁.index_lt]
          exact forall₂_congr fun o ho => by rw [h₁.functionsBefore_eq (hlater o ho)]
        rw [isolateFunctions, hstep, h₁.canIsolate_iff hlater, ← hreach]
        exact ih hascending.sortedLT
      · constructor
        · rintro ⟨r', h⟩
          unfold isolateFunctions at h
          split at h
          · cases h
          · exact absurd ⟨_, ‹_›⟩ hstep
        · rintro ⟨hreach, hcan⟩
          have hindex : index < r.module.functions.length := hfirst ▸ hreach _ List.mem_cons_self
          have hf := List.getElem?_eq_getElem hindex
          refine absurd (isolateFunction_isOk_iff.mpr ⟨⟨_, hf, ?_⟩, fun s hs => ?_, ?_⟩) hstep
          · exact hcan.params _ List.mem_cons_self _ hf
          · exact hcan.fresh s (List.mem_append_left _ hs)
          · exact (List.nodup_append.mp (List.flatMap_cons ▸ hcan.distinct)).1

/-- Nothing stands in the way of isolating points in a module, unless one of them is in a function
that is not there. -/
structure LoadedModule.Isolable (l : LoadedModule) (points : List Point) : Prop where
  params : ∀ p ∈ points, p.module = l.id →
    ∀ f, l.module.functions[p.location.function]? = some f → f.params.toNat ≤ maxForwarded
  fresh : ∀ p ∈ points, p.module = l.id → p.identifier ∉ l.module.switches
  distinct : ((ownPoints l.id points).map Point.identifier).Nodup

theorem LoadedModule.isolable_iff {l : LoadedModule} {points : List Point} :
    l.Isolable points ↔ l.module.CanIsolate (mutantsByFunction l.id points) := by
  have hdistinct := (mutantsByFunction_names_perm l.id points).nodup_iff
  constructor
  · intro h
    refine ⟨fun o ho f hf => ?_, fun s hs => ?_, hdistinct.mpr h.distinct⟩
    · obtain ⟨p, hp⟩ := List.exists_mem_of_ne_nil _ (mem_mutantsByFunction.mp ho).1
      obtain ⟨hp, hmodule, hfunction⟩ := mem_pointsIn.mp hp
      exact h.params p hp hmodule f (hfunction ▸ hf)
    · obtain ⟨p, hp, hmodule, rfl⟩ := mem_mutantsByFunction_names.mp hs
      exact h.fresh p hp hmodule
  · intro h
    refine ⟨fun p hp hmodule f hf => ?_, fun p hp hmodule => ?_, hdistinct.mp h.distinct⟩
    · exact h.params _ (owner_mem_mutantsByFunction hp hmodule) f hf
    · exact h.fresh p.identifier (mem_mutantsByFunction_names.mpr ⟨p, hp, hmodule, rfl⟩)

/-- A module that has not been isolated before can be isolated exactly if every function with
points is there when its turn comes and nothing else stands in the way. -/
theorem LoadedModule.isolate_isOk_iff {l : LoadedModule} {points : List Point}
    (hclones : l.clones = none) :
    (∃ l', l.isolate points = (l', .ok ())) ↔
      (∀ o ∈ mutantsByFunction l.id points, o.1 < functionsBefore l.module.functions.length
        (mutantsByFunction l.id points) o.1) ∧ l.Isolable points := by
  rw [isolable_iff, ← isolateFunctions_isOk_iff (r := ⟨l.module, []⟩)
    (mutantsByFunction_ascending l.id points)]
  simp only [isolate_eq, isPrepared, hclones, Option.isSome_none, Bool.false_eq_true, if_false]
  rcases isolateFunctions (mutantsByFunction l.id points) ⟨l.module, []⟩ with ⟨r, e | u⟩
  · simp
  · exact ⟨fun _ => ⟨r, rfl⟩, fun _ => ⟨_, rfl⟩⟩

theorem LoadedModule.isolate_isOk {l : LoadedModule} {points : List Point}
    (hclones : l.clones = none)
    (hpresent : ∀ p ∈ points, p.module = l.id →
      ∃ f, l.module.functions[p.location.function]? = some f ∧ f.params.toNat ≤ maxForwarded)
    (hfresh : ∀ p ∈ points, p.module = l.id → p.identifier ∉ l.module.switches)
    (hdistinct : ((points.filter fun p => p.module == l.id).map Point.identifier).Nodup) :
    ∃ l', l.isolate points = (l', .ok ()) := by
  refine (isolate_isOk_iff hclones).mpr ⟨fun o ho => ?_, fun p hp hmodule f hf => ?_, hfresh,
    hdistinct⟩
  · refine Nat.lt_of_lt_of_le (mutantsByFunction_below (fun p hp hmodule => ?_) ho)
      (Nat.le_add_right _ _)
    obtain ⟨f, hf, -⟩ := hpresent p hp hmodule
    exact (List.getElem?_eq_some_iff.mp hf).1
  · obtain ⟨f', hf', hparams⟩ := hpresent p hp hmodule
    exact Option.some.inj (hf'.symm.trans hf) ▸ hparams

end Isolation

/-! ## Application -/

theorem Operator.mutate_isOk {o : Operator} {variant : Nat} {i : Instruction}
    (h : variant < o.replacementCount i) : ∃ j, o.mutate variant i = .ok j := by
  unfold Operator.mutate
  rw [List.getElem?_eq_getElem h]
  exact ⟨_, rfl⟩

namespace LoadedModule

variable {l l₁ l' : LoadedModule} {p q : Point} {points : List Point}

/-- Everything is there that applying a point needs. -/
structure CanApply (l : LoadedModule) (p : Point) : Prop where
  new : p.identifier ∉ l.applied
  clone : ∃ g f i, l.clone? p.identifier = some g ∧ l.module.functions[g]? = some f ∧
    f.instruction? p.location.block p.location.instruction = some i ∧
    p.variant < p.operator.replacementCount i

theorem CanApply.apply_isOk (h : l.CanApply p) : ∃ l', l.apply p = .ok l' := by
  obtain ⟨g, f, i, hclone, hf, hi, hvariant⟩ := h.clone
  obtain ⟨j, hj⟩ := Operator.mutate_isOk hvariant
  have hprepared : l.isPrepared = true := by
    rw [isPrepared]
    cases hclones : l.clones with
    | none => rw [clone?, hclones] at hclone; cases hclone
    | some cs => rfl
  have hnew : l.isApplied p.identifier = false := by simpa [isApplied] using h.new
  have hplace : l.module.instruction? { p.location with function := g } = some i :=
    Option.bind_eq_some_iff.mpr ⟨f, hf, hi⟩
  simp only [apply, hprepared, hclone, hnew, hplace, hj, Bool.not_true, Bool.false_eq_true,
    if_false]
  exact ⟨_, rfl⟩

/-- Applying one point takes nothing away from the others. -/
theorem CanApply.kept (hinj : ∀ s t g, l.clone? s = some g → l.clone? t = some g → s = t)
    (happly : l.apply p = .ok l₁) (hne : q.identifier ≠ p.identifier) (h : l.CanApply q) :
    l₁.CanApply q := by
  have h₁ := apply_appliesAll happly
  obtain ⟨g, f, i, hclone, hf, hi, hvariant⟩ := h.clone
  refine ⟨?_, g, f, i, ?_, ?_, hi, hvariant⟩
  · rw [h₁.rest]
    simpa [hne] using h.new
  · rw [h₁.rest]
    exact hclone
  · rw [h₁.others g fun p' hp' heq => ?_]
    · exact hf
    · rw [List.mem_singleton.mp hp'] at heq
      exact hne (hinj _ _ g hclone heq)

/-- So all of them can be applied, one after the other. -/
theorem foldlM_apply_isOk (hinj : ∀ s t g, l.clone? s = some g → l.clone? t = some g → s = t)
    (hdistinct : (points.map Point.identifier).Nodup) (h : ∀ p ∈ points, l.CanApply p) :
    ∃ l', points.foldlM LoadedModule.apply l = .ok l' := by
  induction points generalizing l with
  | nil => exact ⟨l, rfl⟩
  | cons p points ih =>
      obtain ⟨hp, hdistinct⟩ := List.nodup_cons.mp hdistinct
      obtain ⟨l₁, hfirst⟩ := (h p List.mem_cons_self).apply_isOk
      have hclone : l₁.clone? = l.clone? := by
        rw [(apply_appliesAll hfirst).rest]
        rfl
      have hkept : ∀ q ∈ points, l₁.CanApply q := fun q hq =>
        (h q (List.mem_cons_of_mem _ hq)).kept hinj hfirst
          fun heq => hp (heq ▸ List.mem_map_of_mem hq)
      obtain ⟨l', hrest⟩ := ih (hclone ▸ hinj) hdistinct hkept
      refine ⟨l', ?_⟩
      rw [List.foldlM_cons, hfirst]
      exact hrest

/-- Isolation gives each point of the module a copy of its function, behind the functions that
were there. -/
theorem clone_of_isolate (hfound : ∀ p ∈ points, p.module = l.id → ∃ f i, p.FoundIn l f i)
    (hisolate : l.isolate points = (l₁, .ok ())) (hp : p ∈ points) (hmodule : p.module = l.id) :
    ∃ g f i s, p.FoundIn l f i ∧ l₁.clone? p.identifier = some g ∧
      l.module.functions.length ≤ g ∧ l₁.module.functions[g]? = some { f with name := s } := by
  obtain ⟨r, hall, hrecords, rfl⟩ := isolate_isolatesAll hisolate fun p hp hmodule => by
    obtain ⟨f, i, hp⟩ := hfound p hp hmodule
    exact (List.getElem?_eq_some_iff.mp hp.function).1
  have hown : p ∈ pointsIn l.id points p.location.function := mem_pointsIn.mpr ⟨hp, hmodule, rfl⟩
  obtain ⟨f, hf, hisolated⟩ := hall.owned (List.ne_nil_of_mem hown)
  obtain ⟨fallback, arms, -, -, -, harms⟩ := hisolated.split
  obtain ⟨a, harm⟩ := exists_of_forall₂ harms.flip (List.mem_map_of_mem hown)
  obtain ⟨s, hs⟩ := harm.clone.present
  obtain ⟨f₀, i, hp⟩ := hfound p hp hmodule
  obtain rfl : f₀ = f := Option.some.inj (hp.function.symm.trans hf)
  exact ⟨a.clone, f₀, i, s, hp,
    lookup_eq_some_of_mem (hrecords.names ▸ hall.distinct) harm.recorded, harm.clone.appended, hs⟩

/-- Isolation gives each point of the module what it needs, if the point was found there. -/
theorem canApply_of_isolate (happlied : l.applied = [])
    (hfound : ∀ p ∈ points, p.module = l.id → ∃ f i, p.FoundIn l f i)
    (hisolate : l.isolate points = (l₁, .ok ())) :
    (∀ s t g, l₁.clone? s = some g → l₁.clone? t = some g → s = t) ∧
      ∀ p ∈ points, p.module = l.id → l₁.CanApply p := by
  obtain ⟨r, -, hrecords, hl₁⟩ := isolate_isolatesAll hisolate fun p hp hmodule => by
    obtain ⟨f, i, hp⟩ := hfound p hp hmodule
    exact (List.getElem?_eq_some_iff.mp hp.function).1
  refine ⟨?_, fun p hp hmodule => ?_⟩
  · rw [hl₁]
    exact hrecords.lookup_injective
  · obtain ⟨g, f, i, s, hfoundIn, hclone, -, hs⟩ := clone_of_isolate hfound hisolate hp hmodule
    refine ⟨?_, g, { f with name := s }, i, hclone, hs, hfoundIn.instruction, hfoundIn.variant⟩
    rw [hl₁, happlied]
    exact List.not_mem_nil

/-- All points that were found in a module can be isolated and then applied. -/
theorem isolate_apply_isOk (hclones : l.clones = none) (happlied : l.applied = [])
    (hfound : ∀ p ∈ points, ∃ f i, p.FoundIn l f i)
    (hparams : ∀ p ∈ points, ∀ f, l.module.functions[p.location.function]? = some f →
      f.params.toNat ≤ maxForwarded)
    (hfresh : ∀ p ∈ points, p.identifier ∉ l.module.switches)
    (hdistinct : (points.map Point.identifier).Nodup) :
    ∃ l₁ l', l.isolate points = (l₁, .ok ()) ∧
      points.foldlM LoadedModule.apply l₁ = .ok l' := by
  have hpresent : ∀ p ∈ points, p.module = l.id →
      ∃ f, l.module.functions[p.location.function]? = some f ∧ f.params.toNat ≤ maxForwarded := by
    intro p hp _
    obtain ⟨f, i, hf⟩ := hfound p hp
    exact ⟨f, hf.function, hparams p hp f hf.function⟩
  obtain ⟨l₁, hisolate⟩ := isolate_isOk hclones hpresent (fun p hp _ => hfresh p hp)
    (hdistinct.sublist (List.filter_sublist.map _))
  obtain ⟨hinj, hcan⟩ := canApply_of_isolate happlied (fun p hp _ => hfound p hp) hisolate
  obtain ⟨l', happly⟩ := foldlM_apply_isOk hinj hdistinct fun p hp => by
    obtain ⟨f, i, hf⟩ := hfound p hp
    exact hcan p hp hf.module
  exact ⟨l₁, l', hisolate, happly⟩

end LoadedModule

/-! ## Programs of one module -/

section Programs

variable {program : Program} {l l' : LoadedModule} {points : List Point}

theorem Program.isolate_isOk (hmodules : program.modules = [l])
    (h : l.isolate points = (l', .ok ())) :
    program.isolate points = ({ program with modules := [l'] }, .ok ()) := by
  simp only [Program.isolate, hmodules, isolateModules, h]

theorem Program.applyAll_isOk (hmodules : program.modules = [l])
    (hown : ∀ p ∈ points, p.module = l.id) (h : points.foldlM LoadedModule.apply l = .ok l') :
    Program.applyAll points program = ({ program with modules := [l'] }, .ok ()) := by
  induction points generalizing program l with
  | nil =>
      cases h
      rw [Program.applyAll, ← hmodules]
  | cons p points ih =>
      rw [List.foldlM_cons] at h
      cases hfirst : l.apply p with
      | error e => rw [hfirst] at h; cases h
      | ok l₁ =>
          rw [hfirst] at h
          have hid := hown p List.mem_cons_self
          have hid₁ : l₁.id = l.id := by rw [(LoadedModule.apply_appliesAll hfirst).rest]
          have hmodule : program.module? p.module = some l := by
            rw [Program.module?, hmodules, List.find?_cons_of_pos (by simp [hid])]
          have hmodify : (program.modifyModule p.module fun _ => l₁) =
              { program with modules := [l₁] } := by
            rw [Program.modifyModule, hmodules]
            simp [hid]
          have hstep : program.apply p = .ok { program with modules := [l₁] } := by
            simp only [Program.apply, hmodule, hfirst, Except.map, hmodify]
          have hown₁ : ∀ q ∈ points, q.module = l₁.id := fun q hq =>
            (hown q (List.mem_cons_of_mem _ hq)).trans hid₁.symm
          have hrest : Program.applyAll points { program with modules := [l₁] } =
              ({ program with modules := [l'] }, .ok ()) := ih rfl hown₁ h
          simp only [Program.applyAll, hstep, hrest]

end Programs

end MutantGate
