import MutantGate.Proofs.IsolationOutcome
import MutantGate.Proofs.IsolationSteps
/-!
# What a failed isolation leaves behind

Isolation stops at the first obstacle and takes nothing back.  The functions that were taken apart
by then stay dispatchers, and what was appended for them, and for the function at which it stopped,
stays appended.  Only the account of the clones is opened at the very end, so a module that could
not be isolated still counts as not isolated, and isolation can be tried again with other points.
It then finds the switches of the first attempt and refuses the points they are named after.

The induction is on the functions with points.  Those before the obstacle have been isolated as if
there were no obstacle; at the obstacle copies have been appended and switches for the first of the
mutants, and that is all.

## What is proved

For every module, all points and every failure: what is left is described completely
(`LoadedModule.LeftBy`), it is told when it is the module before, and for further points in
functions of the module it is told exactly when a second attempt succeeds.  That nothing is taken
back is shown on a module of which two points are isolated, the second of them in vain: the module
is no longer what it was, and the first point alone is refused afterwards.

## What is left outside

A second attempt with points in functions that only the first attempt has appended.  A run makes no
second attempt; it ends with the failure.
-/

namespace MutantGate

theorem Module.pushCopy_length (m : Module) (f : Function) (stem : String) :
    (m.pushCopy f stem).functions.length = m.functions.length + 1 :=
  List.length_append

/-- What a module has become when isolation stops, at the end or before: the functions with the
given indices have given way to their dispatchers, there are some new switches, and functions may
have been appended. -/
structure Module.PartlyIsolated (done : List Nat) (left : List String) (m m' : Module) : Prop where
  dispatched : ∀ g f, m.functions[g]? = some f → g ∈ done →
    ∃ fallback arms, m'.functions[g]? = some (dispatcher f fallback arms)
  others : ∀ g f, m.functions[g]? = some f → g ∉ done → m'.functions[g]? = some f
  switches : m'.switches = m.switches ++ left
  rest : m' = { m with functions := m'.functions, switches := m'.switches }

namespace Module.PartlyIsolated

variable {m m₁ m' : Module} {done done' : List Nat} {left left' : List String}

theorem of_extends (hfunctions : m.functions <+: m'.functions)
    (hswitches : m'.switches = m.switches ++ left)
    (hrest : m' = { m with functions := m'.functions, switches := m'.switches }) :
    PartlyIsolated [] left m m' where
  dispatched _ _ _ hg := absurd hg List.not_mem_nil
  others g f hf _ := by
    obtain ⟨gs, hgs⟩ := hfunctions
    rw [← hgs, List.getElem?_append_left (List.getElem?_eq_some_iff.mp hf).1]
    exact hf
  switches := hswitches
  rest := hrest

theorem refl (m : Module) : PartlyIsolated [] [] m m :=
  of_extends List.prefix_rfl (List.append_nil _).symm rfl

theorem pushCopy (m : Module) (f : Function) (stem : String) :
    PartlyIsolated [] [] m (m.pushCopy f stem) :=
  of_extends (List.prefix_append _ _) (List.append_nil _).symm rfl

/-- One part after another.  A dispatcher that gives way to another one is still a dispatcher for
the function. -/
theorem trans (h : PartlyIsolated done left m m₁) (h' : PartlyIsolated done' left' m₁ m') :
    PartlyIsolated (done ++ done') (left ++ left') m m' where
  dispatched g f hf hg := by
    by_cases hfirst : g ∈ done
    · obtain ⟨fallback, arms, hd⟩ := h.dispatched g f hf hfirst
      by_cases hsecond : g ∈ done'
      · obtain ⟨fallback', arms', hd'⟩ := h'.dispatched g _ hd hsecond
        exact ⟨fallback', arms', hd'⟩
      · exact ⟨fallback, arms, h'.others g _ hd hsecond⟩
    · exact h'.dispatched g f (h.others g f hf hfirst)
        ((List.mem_append.mp hg).resolve_left hfirst)
  others g f hf hg := by
    rw [List.mem_append, not_or] at hg
    exact h'.others g f (h.others g f hf hg.1) hg.2
  switches := by rw [h'.switches, h.switches, List.append_assoc]
  rest := by rw [h'.rest, h.rest]

/-- Every function has something in its place, with the same parameters. -/
theorem exists_params_eq (h : PartlyIsolated done left m m') {g : Nat} {f : Function}
    (hf : m.functions[g]? = some f) : ∃ d, m'.functions[g]? = some d ∧ d.params = f.params := by
  by_cases hg : g ∈ done
  · obtain ⟨fallback, arms, hd⟩ := h.dispatched g f hf hg
    exact ⟨_, hd, rfl⟩
  · exact ⟨f, h.others g f hf hg, rfl⟩

theorem length_le (h : PartlyIsolated done left m m') :
    m.functions.length ≤ m'.functions.length := by
  refine Nat.le_of_not_lt fun hlt => ?_
  obtain ⟨d, hd, -⟩ := h.exists_params_eq (List.getElem?_eq_getElem hlt)
  exact Nat.lt_irrefl _ (List.getElem?_eq_some_iff.mp hd).1

end Module.PartlyIsolated

/-! ## The obstacles -/

section Obstacles

variable {f : Function} {index : Nat} {mutants : List String} {r r' : Reservation}
  {e : IsolationObstacle}

theorem Reserves.partly (h : Reserves f mutants r r') :
    Module.PartlyIsolated [] mutants r.module r'.module := by
  obtain ⟨names, -, hfunctions⟩ := h.functions
  exact .of_extends (hfunctions ▸ List.prefix_append _ _) h.switches h.rest

theorem Isolates.partly (h : Isolates index mutants f r r') :
    Module.PartlyIsolated [index] mutants r.module r'.module where
  dispatched g f' hf' hg := by
    obtain rfl := List.mem_singleton.mp hg
    obtain rfl := Option.some.inj (hf'.symm.trans h.present)
    exact ⟨_, _, h.dispatched⟩
  others g f' hf' hg := by
    have hlt := (List.getElem?_eq_some_iff.mp hf').1
    exact (h.others (List.mem_singleton.not.mp hg) hlt).trans hf'
  switches := h.switches
  rest := h.rest

theorem reserve_eq_error {n : Nat} {mutant : String} (h : reserve f n mutant r = (r', .error e)) :
    Module.PartlyIsolated [] [] r.module r'.module := by
  unfold reserve at h
  dsimp only at h
  split at h <;> cases h
  exact .pushCopy _ _ _

/-- Reserving clones stops with switches for the first of the mutants. -/
theorem reserveAll_eq_error {n : Nat} (h : reserveAll f n mutants r = (r', .error e)) :
    ∃ left, left <+: mutants ∧ Module.PartlyIsolated [] left r.module r'.module := by
  induction mutants generalizing n r with
  | nil => cases h
  | cons mutant mutants ih =>
      unfold reserveAll at h
      split at h
      · rename_i hfirst
        cases h
        exact ⟨[], List.nil_prefix, reserve_eq_error hfirst⟩
      · rename_i r₁ a hfirst
        split at h <;> cases h
        rename_i hrest
        obtain ⟨left, horder, hpartly⟩ := ih hrest
        exact ⟨mutant :: left, List.cons_prefix_cons.mpr ⟨rfl, horder⟩,
          (reserve_eq_ok hfirst).1.partly.trans hpartly⟩

/-- A function that is there is copied before anything can fail, but keeps its place. -/
theorem isolateFunction_eq_error (h : isolateFunction index mutants r = (r', .error e)) :
    (r.module.functions[index]? = none ∧ r' = r) ∨
      ∃ f left, r.module.functions[index]? = some f ∧ left <+: mutants ∧
        Module.PartlyIsolated [] left (r.module.pushCopy f s!"{f.name}$original") r'.module := by
  unfold isolateFunction at h
  split at h
  · rename_i hnone
    cases h
    exact .inl ⟨hnone, rfl⟩
  · rename_i f hf
    dsimp only at h
    split at h
    · rename_i hreserve
      cases h
      obtain ⟨left, horder, hpartly⟩ := reserveAll_eq_error hreserve
      exact .inr ⟨f, left, hf, horder, hpartly⟩
    · rename_i hreserve
      split at h <;> cases h
      exact .inr ⟨f, mutants, hf, List.prefix_rfl, (reserveAll_eq_ok hreserve).1.partly⟩

/-- Isolation stops at one of the functions, when those before it have been taken apart. -/
theorem isolateFunctions_eq_error {owners : List (Nat × List String)}
    (h : isolateFunctions owners r = (r', .error e)) :
    ∃ before o after left, owners = before ++ o :: after ∧ left <+: o.2 ∧
      Module.PartlyIsolated (before.map Prod.fst) (before.flatMap Prod.snd ++ left)
        r.module r'.module := by
  induction owners generalizing r with
  | nil => cases h
  | cons o owners ih =>
      unfold isolateFunctions at h
      split at h
      · rename_i hfirst
        cases h
        rcases isolateFunction_eq_error hfirst with ⟨-, rfl⟩ | ⟨f, left, -, horder, hpartly⟩
        · exact ⟨[], o, owners, [], rfl, List.nil_prefix, .refl _⟩
        · exact ⟨[], o, owners, left, rfl, horder,
            (Module.PartlyIsolated.pushCopy r.module f _).trans hpartly⟩
      · rename_i hfirst
        obtain ⟨f, h₁⟩ := isolateFunction_eq_ok hfirst
        obtain ⟨before, o', after, left, rfl, horder, hpartly⟩ := ih h
        refine ⟨o :: before, o', after, left, rfl, horder, ?_⟩
        rw [List.flatMap_cons, List.append_assoc]
        exact h₁.partly.trans hpartly

/-- Nothing is changed exactly if the first function is not there. -/
theorem isolateFunctions_module_eq_iff {o : Nat × List String} {owners : List (Nat × List String)}
    (h : isolateFunctions (o :: owners) r = (r', .error e)) :
    r'.module = r.module ↔ r.module.functions.length ≤ o.1 := by
  unfold isolateFunctions at h
  split at h
  · rename_i hfirst
    cases h
    rcases isolateFunction_eq_error hfirst with ⟨hnone, rfl⟩ | ⟨f, left, hf, -, hpartly⟩
    · exact ⟨fun _ => List.getElem?_eq_none_iff.mp hnone, fun _ => rfl⟩
    · have hgrown := hpartly.length_le
      rw [Module.pushCopy_length] at hgrown
      have hlt := (List.getElem?_eq_some_iff.mp hf).1
      exact ⟨fun hsame => by rw [hsame] at hgrown; omega, fun hle => absurd hlt (Nat.not_lt_of_le hle)⟩
  · rename_i r₁ hfirst
    obtain ⟨f, h₁⟩ := isolateFunction_eq_ok hfirst
    have hgrown := isolateFunctions_length_le owners r₁
    rw [h, h₁.functions_length] at hgrown
    exact ⟨fun hsame => by rw [hsame] at hgrown; omega,
      fun hle => absurd h₁.index_lt (Nat.not_lt_of_le hle)⟩

end Obstacles

/-! ## The module -/

namespace LoadedModule

variable {l l' : LoadedModule} {points again : List Point} {left : List String}
  {e : IsolationObstacle}

/-- What a failed isolation leaves of a module: in the order of isolation it has got through some
functions and then to some mutant of the next one. -/
structure LeftBy (points : List Point) (left : List String) (l l' : LoadedModule) : Prop where
  reached : ∃ before after more, mutantsByFunction l.id points = before ++ after ∧
    more <+: after.head?.elim [] Prod.snd ∧ left = before.flatMap Prod.snd ++ more ∧
    l.module.PartlyIsolated (before.map Prod.fst) left l'.module
  /-- Nothing is changed about the accounts. -/
  rest : l' = { l with module := l'.module }

theorem isolate_eq_error (hnew : l.isPrepared = false)
    (h : l.isolate points = (l', .error e)) :
    ∃ r, isolateFunctions (mutantsByFunction l.id points) ⟨l.module, []⟩ = (r, .error e) ∧
      l' = { l with module := r.module } := by
  rw [isolate_eq, if_neg (by simp [hnew])] at h
  rcases hloop : isolateFunctions (mutantsByFunction l.id points) ⟨l.module, []⟩ with ⟨r, e' | u⟩ <;>
    rw [hloop] at h <;> cases h
  exact ⟨r, rfl, rfl⟩

theorem exists_leftBy (h : l.isolate points = (l', .error e)) :
    ∃ left, l.LeftBy points left l' := by
  cases hprepared : l.isPrepared with
  | true =>
      rw [isolate_of_isPrepared hprepared] at h
      cases h
      exact ⟨[], ⟨[], _, [], rfl, List.nil_prefix, rfl, .refl _⟩, rfl⟩
  | false =>
      obtain ⟨r, hloop, rfl⟩ := isolate_eq_error hprepared h
      obtain ⟨before, o, after, more, howners, horder, hpartly⟩ := isolateFunctions_eq_error hloop
      exact ⟨_, ⟨before, o :: after, more, howners, horder, rfl, hpartly⟩, rfl⟩

/-- The first function to be taken apart is not there exactly if none of them is. -/
theorem module_eq_iff_of_isolate_error (hnew : l.isPrepared = false)
    (h : l.isolate points = (l', .error e)) :
    l'.module = l.module ↔
      ∀ p ∈ ownPoints l.id points, l.module.functions.length ≤ p.location.function := by
  obtain ⟨r, hloop, rfl⟩ := isolate_eq_error hnew h
  have hascending := mutantsByFunction_ascending l.id points
  rcases howners : mutantsByFunction l.id points with _ | ⟨o, owners⟩
  · rw [howners] at hloop
    cases hloop
  rw [howners] at hloop hascending
  obtain ⟨hlater, -⟩ := List.pairwise_cons.mp hascending.pairwise
  refine (isolateFunctions_module_eq_iff hloop).trans ⟨fun hfirst p hp => ?_, fun hall => ?_⟩
  · obtain ⟨hp, hmodule⟩ := mem_ownPoints.mp hp
    have howner := owner_mem_mutantsByFunction hp hmodule
    rw [howners] at howner
    rcases List.mem_cons.mp howner with heq | hmem
    · have hindex : p.location.function = o.1 := congrArg Prod.fst heq
      rw [hindex]
      exact hfirst
    · exact Nat.le_trans hfirst (Nat.le_of_lt (hlater _ (List.mem_map_of_mem hmem)))
  · have ho : o ∈ mutantsByFunction l.id points := howners ▸ List.mem_cons_self
    obtain ⟨p, hp⟩ := List.exists_mem_of_ne_nil _ (mem_mutantsByFunction.mp ho).1
    obtain ⟨hp, hmodule, hfunction⟩ := mem_pointsIn.mp hp
    exact hfunction ▸ hall p (mem_ownPoints.mpr ⟨hp, hmodule⟩)

section Again

variable (hleft : l.LeftBy points left l')
  (hbelow : ∀ p ∈ again, p.module = l.id → p.location.function < l.module.functions.length)

include hleft hbelow

/-- For points in functions of the module a first attempt makes no difference but for the names of
the switches it has left. -/
theorem LeftBy.isolable_iff :
    l'.Isolable again ↔
      l.Isolable again ∧ ∀ p ∈ again, p.module = l.id → p.identifier ∉ left := by
  obtain ⟨before, after, more, -, -, -, hpartly⟩ := hleft.reached
  have hid : l'.id = l.id := by rw [hleft.rest]
  have hswitches : ∀ s, s ∉ l'.module.switches ↔ s ∉ l.module.switches ∧ s ∉ left := by
    intro s
    rw [hpartly.switches, List.mem_append, not_or]
  constructor
  · intro hcan
    refine ⟨⟨fun p hp hmodule f hf => ?_, fun p hp hmodule => ?_, hid ▸ hcan.distinct⟩,
      fun p hp hmodule => ?_⟩
    · obtain ⟨d, hd, hparams⟩ := hpartly.exists_params_eq hf
      exact hparams ▸ hcan.params p hp (hmodule.trans hid.symm) d hd
    · exact ((hswitches _).mp (hcan.fresh p hp (hmodule.trans hid.symm))).1
    · exact ((hswitches _).mp (hcan.fresh p hp (hmodule.trans hid.symm))).2
  · rintro ⟨hcan, hnew⟩
    refine ⟨fun p hp hmodule d' hd' => ?_, fun p hp hmodule => ?_, hid.symm ▸ hcan.distinct⟩
    · have hf := List.getElem?_eq_getElem (hbelow p hp (hmodule.trans hid))
      obtain ⟨d, hd, hparams⟩ := hpartly.exists_params_eq hf
      obtain rfl := Option.some.inj (hd.symm.trans hd')
      exact hparams ▸ hcan.params p hp (hmodule.trans hid) _ hf
    · exact (hswitches _).mpr ⟨hcan.fresh p hp (hmodule.trans hid), hnew p hp (hmodule.trans hid)⟩

/-- So isolation can be tried again with other points. -/
theorem LeftBy.isolate_again_iff (hnew : l.isPrepared = false) :
    (l'.isolate again).2 = .ok () ↔
      (l.isolate again).2 = .ok () ∧ ∀ p ∈ again, p.module = l.id → p.identifier ∉ left := by
  obtain ⟨before, after, more, -, -, -, hpartly⟩ := hleft.reached
  have hclones := clones_of_isPrepared hnew
  have hclones' : l'.clones = none := by rw [hleft.rest, hclones]
  have hbelow' : ∀ p ∈ again, p.module = l'.id →
      p.location.function < l'.module.functions.length := by
    intro p hp hmodule
    rw [hleft.rest] at hmodule
    exact Nat.lt_of_lt_of_le (hbelow p hp hmodule) hpartly.length_le
  rw [isolate_snd_eq_ok_iff, isolate_snd_eq_ok_iff, isolate_isOk_iff_of_below hclones' hbelow',
    isolate_isOk_iff_of_below hclones hbelow]
  exact hleft.isolable_iff hbelow

end Again

/-- A failed isolation changes nothing but functions and switches of the module.  The functions it
got through have given way to their dispatchers, the others are in their places, functions are
appended, and the mutants it got to have left their switches.  Nothing at all is changed exactly if
the module had been isolated before or none of its points is in a function that is there.  A module
that had not been isolated can be isolated again with points in its functions exactly if these could
have been isolated at first and none of them has the name of a switch that was left. -/
theorem isolate_failure_leaves (h : l.isolate points = (l', .error e)) :
    ∃ left, l.LeftBy points left l' ∧
      (l'.module = l.module ↔ l.isPrepared = true ∨
        ∀ p ∈ ownPoints l.id points, l.module.functions.length ≤ p.location.function) ∧
      (l.isPrepared = false → ∀ again : List Point,
        (∀ p ∈ again, p.module = l.id → p.location.function < l.module.functions.length) →
        ((l'.isolate again).2 = .ok () ↔
          (l.isolate again).2 = .ok () ∧ ∀ p ∈ again, p.module = l.id → p.identifier ∉ left)) := by
  obtain ⟨left, hleft⟩ := exists_leftBy h
  refine ⟨left, hleft, ?_, fun hnew again hbelow => hleft.isolate_again_iff hbelow hnew⟩
  cases hprepared : l.isPrepared with
  | true =>
      rw [isolate_of_isPrepared hprepared] at h
      cases h
      exact ⟨fun _ => .inl rfl, fun _ => rfl⟩
  | false =>
      rw [module_eq_iff_of_isolate_error hprepared h]
      exact ⟨.inr, fun h => h.resolve_left Bool.false_ne_true⟩

/-! ## An isolation that fails half-way -/

theorem mutantsByFunction_strayPoints :
    mutantsByFunction 0 (strayPoints 4) =
      [(0, ["cxx_add_to_sub:doubling.json:add:0:0:0"]),
        (4, ["cxx_add_to_sub:doubling.json:triple:0:0:0"])] := by
  rw [mutantsByFunction_eq (n := 5) (by decide)]
  decide +kernel

/-- Isolation stops at the second of the stray points, when the first one has been isolated. -/
theorem isolate_strayPoints : ∃ m, loadedDoubling.isolate (strayPoints 4) =
      ({ loadedDoubling with module := m },
        .error (.missingFunction "cxx_add_to_sub:doubling.json:triple:0:0:0" 4)) ∧
    m.functions.length = 4 ∧ m.switches = ["cxx_add_to_sub:doubling.json:add:0:0:0"] := by
  obtain ⟨r, hloop, hmodule⟩ : ∃ r,
      isolateFunctions (mutantsByFunction 0 (strayPoints 4)) ⟨doubling, []⟩ =
        (r, .error (.missingFunction "cxx_add_to_sub:doubling.json:triple:0:0:0" 4)) ∧
      r.module.functions.length = 4 ∧
        r.module.switches = ["cxx_add_to_sub:doubling.json:add:0:0:0"] := by
    rw [mutantsByFunction_strayPoints]
    exact ⟨_, rfl, by decide +kernel, by decide +kernel⟩
  refine ⟨r.module, ?_, hmodule⟩
  simp [isolate_eq, isPrepared, loadedDoubling, hloop]

theorem loadedDoubling_isolate_point (p : Point)
    (hp : p.location.function < doubling.functions.length) :
    (loadedDoubling.isolate [p]).2 = .ok () := by
  refine isolate_snd_eq_ok_iff.mpr ((isolate_isOk_iff_of_below rfl fun q hq _ => ?_).mpr
    (loadedDoubling_isolable ?_))
  · rw [List.mem_singleton.mp hq]
    exact hp
  · exact (List.nodup_singleton p.identifier).sublist (List.filter_sublist.map _)

/-- The module can then be isolated again with another point. -/
theorem isolate_failure_leaves_stray :
    ∃ l' e, loadedDoubling.isolate (strayPoints 4) = (l', .error e) ∧
      (l'.isolate (scatteredPoints.take 1)).2 = .ok () := by
  obtain ⟨m, hisolate, -, hswitches⟩ := isolate_strayPoints
  obtain ⟨left, hleft, -, hagain⟩ := isolate_failure_leaves hisolate
  obtain ⟨before, after, more, -, -, -, hpartly⟩ := hleft.reached
  refine ⟨_, _, hisolate, (hagain rfl _ (by decide)).mpr ⟨?_, ?_⟩⟩
  · exact loadedDoubling_isolate_point _ (by decide)
  · have hnames : left = ["cxx_add_to_sub:doubling.json:add:0:0:0"] :=
      hpartly.switches.symm.trans hswitches
    rw [hnames]
    decide +kernel

/-- The module is no longer what it was.  The first of the points alone could have been isolated
in it, and is refused now. -/
theorem isolate_not_taken_back :
    ∃ l' e, loadedDoubling.isolate (strayPoints 4) = (l', .error e) ∧
      l'.module ≠ loadedDoubling.module ∧
      (loadedDoubling.isolate ((strayPoints 4).take 1)).2 = .ok () ∧
      (l'.isolate ((strayPoints 4).take 1)).2 ≠ .ok () := by
  obtain ⟨m, hisolate, hlength, hswitches⟩ := isolate_strayPoints
  refine ⟨_, _, hisolate, ?_, ?_, fun hok => ?_⟩
  · rintro rfl
    cases hlength
  · exact loadedDoubling_isolate_point _ (by decide)
  · have hcan := ((isolate_isOk_iff rfl).mp (isolate_snd_eq_ok_iff.mp hok)).2
    have hfresh := hcan.fresh _ List.mem_cons_self rfl
    rw [hswitches] at hfresh
    exact absurd hfresh (by decide +kernel)

end LoadedModule

end MutantGate
