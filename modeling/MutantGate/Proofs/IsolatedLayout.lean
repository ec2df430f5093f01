import MutantGate.Proofs.IsolationSteps
import MutantGate.Proofs.MutatedModule
/-!
# The layout of an isolated module

Isolation takes the functions that own points apart in ascending order.  Each of them gives an
untouched copy and then one copy for each of its points, all behind what is there already, and
its own place goes to a dispatcher.  The places of the dispatchers are below the old end, so
what is above that is only ever appended to, and it can be read off the points alone which copy
stands where.

## What is proved

For every isolation that succeeds with points in functions of the module: `LoadedModule.LaidOut`,
that is, for each index what stands there and under what kind of name, which switches have been
appended in which order, which clone is recorded for which mutant, and that nothing else of the
module has changed.  The induction is on the functions that are taken apart (`AppendsCopies.cons`).

## What is left outside

The exact names of the copies: they are the first new ones for their stems (`Proofs.FreshNames`).
Points in functions that are not there at first are left to `Proofs.IsolationOutcome`.
-/

namespace MutantGate

/-! ## What is appended, and in which order -/

/-- The copies of a function that taking it apart appends: the untouched one, then those for its
mutants. -/
def copiesOf {α : Type} (index : Nat) (mutants : List α) : List (Nat × Option α) :=
  (index, none) :: mutants.map fun mutant => (index, some mutant)

/-- The functions below a number that own points, in ascending order. -/
def owningFunctions (id : ModuleId) (n : Nat) (points : List Point) : List Nat :=
  (List.range n).filter fun i => !(pointsIn id points i).isEmpty

/-- The points of a module in the order in which they are isolated: function by function, and
those of one function as they come. -/
def isolationOrder (id : ModuleId) (n : Nat) (points : List Point) : List Point :=
  (owningFunctions id n points).flatMap (pointsIn id points)

/-- The copies that isolation appends, in order. -/
def copyPlan (id : ModuleId) (n : Nat) (points : List Point) : List (Nat × Option Point) :=
  (owningFunctions id n points).flatMap fun i => copiesOf i (pointsIn id points i)

/-- A function that is another one of the module but for its name. -/
def Module.IsCopy (m : Module) (index : Nat) (g : Function) : Prop :=
  ∃ f, m.functions[index]? = some f ∧ g = { f with name := g.name }

section Order

variable {id : ModuleId} {n : Nat} {points : List Point}

theorem mem_owningFunctions {i : Nat} :
    i ∈ owningFunctions id n points ↔ i < n ∧ pointsIn id points i ≠ [] := by
  simp [owningFunctions]

theorem copiesOf_map {α β : Type} (g : α → β) (index : Nat) (mutants : List α) :
    copiesOf index (mutants.map g) =
      (copiesOf index mutants).map fun c => (c.1, c.2.map g) := by
  simp [copiesOf]

/-- Isolation goes through the owning functions in ascending order, so those below a number come
first. -/
theorem mutantsByFunction_filter (id : ModuleId) (n : Nat) (points : List Point) :
    ((mutantsByFunction id points).filter fun o => o.1 < n) =
      (owningFunctions id n points).map fun i =>
        (i, (pointsIn id points i).map Point.identifier) := by
  have howners : (((mutantsByFunction id points).filter fun o => o.1 < n).map Prod.fst) =
      owningFunctions id n points := by
    have hascending := (mutantsByFunction_ascending id points).pairwise.filter fun i => i < n
    rw [List.filter_map] at hascending
    refine List.Subset.antisymm_of_sortedLT (fun i hi => ?_) (fun i hi => ?_)
      hascending.sortedLT (List.pairwise_lt_range.filter _).sortedLT
    · obtain ⟨o, ho, rfl⟩ := List.mem_map.mp hi
      obtain ⟨ho, hlt⟩ := List.mem_filter.mp ho
      exact mem_owningFunctions.mpr ⟨by simpa using hlt, (mem_mutantsByFunction.mp ho).1⟩
    · obtain ⟨hlt, hsome⟩ := mem_owningFunctions.mp hi
      have ho : (i, (pointsIn id points i).map Point.identifier) ∈ mutantsByFunction id points :=
        mem_mutantsByFunction.mpr ⟨hsome, rfl⟩
      exact List.mem_map_of_mem (List.mem_filter.mpr ⟨ho, by simpa using hlt⟩)
  rw [← howners, List.map_map]
  refine (List.map_id _).symm.trans (List.map_congr_left fun o ho => ?_)
  exact Prod.ext rfl (mem_mutantsByFunction.mp (List.mem_filter.mp ho).1).2

theorem mutantsByFunction_eq (hbelow : ∀ p ∈ points, p.module = id → p.location.function < n) :
    mutantsByFunction id points = (owningFunctions id n points).map fun i =>
      (i, (pointsIn id points i).map Point.identifier) := by
  rw [← mutantsByFunction_filter]
  refine (List.filter_eq_self.mpr fun o ho => ?_).symm
  simpa using mutantsByFunction_below hbelow ho

theorem mem_pointsIn_owning (hbelow : ∀ p ∈ points, p.module = id → p.location.function < n)
    {p : Point} (hp : p ∈ ownPoints id points) :
    p.location.function ∈ owningFunctions id n points ∧
      p ∈ pointsIn id points p.location.function := by
  obtain ⟨hp, hid⟩ := mem_ownPoints.mp hp
  have hown : p ∈ pointsIn id points p.location.function := mem_pointsIn.mpr ⟨hp, hid, rfl⟩
  exact ⟨mem_owningFunctions.mpr ⟨hbelow p hp hid, List.ne_nil_of_mem hown⟩, hown⟩

/-- Every point of the module is isolated once. -/
theorem isolationOrder_perm (hbelow : ∀ p ∈ points, p.module = id → p.location.function < n) :
    (isolationOrder id n points).Perm (ownPoints id points) := by
  have hperm := mutantsByFunction_points_perm id points
  rw [mutantsByFunction_eq hbelow, List.map_map] at hperm
  simpa only [isolationOrder, Function.comp_def, List.map_id'] using hperm

/-- The copy for each point of the module is planned among those of its function. -/
theorem mem_copyPlan (hbelow : ∀ p ∈ points, p.module = id → p.location.function < n)
    {p : Point} (hp : p ∈ ownPoints id points) :
    (p.location.function, some p) ∈ copyPlan id n points := by
  obtain ⟨howner, hown⟩ := mem_pointsIn_owning hbelow hp
  refine List.mem_flatMap.mpr ⟨_, howner, List.mem_cons_of_mem _ ?_⟩
  exact List.mem_map.mpr ⟨p, hown, rfl⟩

theorem flatMap_mutants_eq (hbelow : ∀ p ∈ points, p.module = id → p.location.function < n) :
    (mutantsByFunction id points).flatMap Prod.snd =
      (isolationOrder id n points).map Point.identifier := by
  rw [mutantsByFunction_eq hbelow, List.flatMap_map, isolationOrder, List.map_flatMap]

theorem flatMap_copiesOf_eq (hbelow : ∀ p ∈ points, p.module = id → p.location.function < n) :
    ((mutantsByFunction id points).flatMap fun o => copiesOf o.1 o.2) =
      (copyPlan id n points).map fun c => (c.1, c.2.map Point.identifier) := by
  rw [mutantsByFunction_eq hbelow, List.flatMap_map, copyPlan, List.map_flatMap]
  simp only [copiesOf_map]

end Order

/-! ## The loop -/

/-- What taking functions apart appends behind a number of functions, when the functions in
question look as they do in a module. -/
structure AppendsCopies (m : Module) (base : Nat) (owners : List (Nat × List String))
    (r r' : Reservation) : Prop where
  copies : ∃ gs, r'.module.functions.drop base = r.module.functions.drop base ++ gs ∧
    List.Forall₂ (fun c g => m.IsCopy c.1 g) (owners.flatMap fun o => copiesOf o.1 o.2) gs
  /-- What is recorded once stays so. -/
  kept : r.clones ⊆ r'.clones
  /-- For each mutant the index of its copy is recorded. -/
  recorded : ∀ k index mutant,
    (owners.flatMap fun o => copiesOf o.1 o.2)[k]? = some (index, some mutant) →
      (mutant, r.module.functions.length + k) ∈ r'.clones

section Loop

variable {m : Module} {base index : Nat} {mutants : List String} {f : Function}
  {owners : List (Nat × List String)} {r r₁ r' : Reservation}

/-- One step appends the copies of its function, in order. -/
theorem Isolates.appends (h : Isolates index mutants f r r₁) (hbelow : index < base)
    (hbase : base ≤ r.module.functions.length)
    (hsame : r.module.functions[index]? = m.functions[index]?) :
    ∃ gs, r₁.module.functions.drop base = r.module.functions.drop base ++ gs ∧
      List.Forall₂ (fun c g => m.IsCopy c.1 g) (copiesOf index mutants) gs := by
  obtain ⟨names, hcount, hfunctions⟩ := h.functions
  refine ⟨names.map fun s => { f with name := s }, ?_, ?_⟩
  · rw [hfunctions, List.drop_modify_of_lt _ _ _ _ hbelow, List.drop_append_of_le_length hbase]
  · have hlength : (copiesOf index mutants).length = names.length := by
      rw [hcount, copiesOf, List.length_cons, List.length_map]
    rw [List.forall₂_map_right_iff]
    refine List.forall₂_iff_get.mpr ⟨hlength, ?_⟩
    intro k hk hk'
    have hindex : ((copiesOf index mutants).get ⟨k, hk⟩).1 = index := by
      cases k with
      | zero => rfl
      | succ k => simp [copiesOf]
    rw [hindex]
    exact ⟨f, hsame ▸ h.present, rfl⟩

/-- One step records where the copies for its mutants are. -/
theorem Isolates.records (h : Isolates index mutants f r r₁) {k i : Nat} {mutant : String}
    (hk : (copiesOf index mutants)[k]? = some (i, some mutant)) :
    (mutant, r.module.functions.length + k) ∈ r₁.clones := by
  cases k with
  | zero => cases hk
  | succ k =>
      rw [copiesOf, List.getElem?_cons_succ, List.getElem?_map] at hk
      obtain ⟨s, hs, heq⟩ := Option.map_eq_some_iff.mp hk
      cases heq
      have hlt := (List.getElem?_eq_some_iff.mp hs).1
      rw [h.clones]
      refine List.mem_append_right _ (List.mem_iff_getElem?.mpr ⟨k, ?_⟩)
      refine List.getElem?_zip_eq_some.mpr ⟨hs, ?_⟩
      rw [List.getElem?_range' hlt, Nat.one_mul, Nat.add_assoc, Nat.add_comm 1 k]

theorem AppendsCopies.nil (m : Module) (base : Nat) (r : Reservation) :
    AppendsCopies m base [] r r where
  copies := ⟨[], (List.append_nil _).symm, .nil⟩
  kept := List.Subset.refl _
  recorded := nofun

/-- One function after the other. -/
theorem AppendsCopies.cons (h₁ : Isolates index mutants f r r₁) (hbelow : index < base)
    (hbase : base ≤ r.module.functions.length)
    (hsame : r.module.functions[index]? = m.functions[index]?)
    (h : AppendsCopies m base owners r₁ r') :
    AppendsCopies m base ((index, mutants) :: owners) r r' := by
  obtain ⟨gs₁, hgs₁, hcopies₁⟩ := h₁.appends hbelow hbase hsame
  obtain ⟨gs, hgs, hcopies⟩ := h.copies
  refine ⟨⟨gs₁ ++ gs, ?_, ?_⟩, fun c hc => h.kept ?_, ?_⟩
  · rw [hgs, hgs₁, List.append_assoc]
  · rw [List.flatMap_cons]
    exact List.rel_append hcopies₁ hcopies
  · rw [h₁.clones]
    exact List.mem_append_left _ hc
  · intro k i mutant hk
    rw [List.flatMap_cons, List.getElem?_append] at hk
    split at hk
    · exact h.kept (h₁.records hk)
    -- The copies of later functions come behind all copies of this one.
    · rename_i hlater
      have hrest := h.recorded _ i mutant hk
      have hlength := h₁.functions_length
      have hcopies : (copiesOf index mutants).length = mutants.length + 1 := by
        rw [copiesOf, List.length_cons, List.length_map]
      rw [hcopies] at hrest hlater
      have hindex : r₁.module.functions.length + (k - (mutants.length + 1)) =
          r.module.functions.length + k := by omega
      exact hindex ▸ hrest

/-- Everything that isolation appends is a copy of a function that it takes apart, in the order of
these functions. -/
theorem isolateFunctions_appends (hdistinct : (owners.map Prod.fst).Nodup)
    (howners : ∀ o ∈ owners, o.1 < base) (hbase : base ≤ r.module.functions.length)
    (hsame : ∀ o ∈ owners, r.module.functions[o.1]? = m.functions[o.1]?)
    (h : isolateFunctions owners r = (r', .ok ())) : AppendsCopies m base owners r r' := by
  induction owners generalizing r with
  | nil =>
      cases h
      exact .nil m base _
  | cons o owners ih =>
      obtain ⟨index, mutants⟩ := o
      unfold isolateFunctions at h
      split at h
      · cases h
      rename_i r₁ hfirst
      obtain ⟨f, h₁⟩ := isolateFunction_eq_ok hfirst
      obtain ⟨hindex, hdistinct⟩ := List.nodup_cons.mp hdistinct
      obtain ⟨hbelow, howners⟩ := List.forall_mem_cons.mp howners
      obtain ⟨hsame, hothers⟩ := List.forall_mem_cons.mp hsame
      have hlength := h₁.functions_length
      refine .cons h₁ hbelow hbase hsame (ih hdistinct howners (by omega) ?_ h)
      intro o ho
      have hne : o.1 ≠ index := fun heq => hindex (List.mem_map.mpr ⟨o, ho, heq⟩)
      rw [h₁.others hne (Nat.lt_of_lt_of_le (howners o ho) hbase)]
      exact hothers o ho

end Loop

/-! ## The module -/

namespace LoadedModule

variable {l l' : LoadedModule} {points : List Point}

/-- How isolation lays out a module of `n` functions. -/
structure LaidOut (points : List Point) (n : Nat) (l l' : LoadedModule) : Prop where
  /-- Functions without points stay. -/
  unowned : ∀ i < n, pointsIn l.id points i = [] →
    l'.module.functions[i]? = l.module.functions[i]?
  /-- What takes the place of a function with points has its name and signature. -/
  owned : ∀ i f, l.module.functions[i]? = some f → pointsIn l.id points i ≠ [] →
    ∃ d, l'.module.functions[i]? = some d ∧ d.name = f.name ∧ f.SameSignature d
  /-- What is appended are the planned copies. -/
  appended : List.Forall₂ (fun c g => l.module.IsCopy c.1 g) (copyPlan l.id n points)
    (l'.module.functions.drop n)
  switches : l'.module.switches =
    l.module.switches ++ (isolationOrder l.id n points).map Point.identifier
  /-- The clone of a point is the copy planned for it. -/
  clone : ∀ p ∈ ownPoints l.id points, ∃ k,
    (copyPlan l.id n points)[k]? = some (p.location.function, some p) ∧
      l'.clone? p.identifier = some (n + k)
  /-- Every point of the module counts for one clone and one switch. -/
  counts : ∃ cs, l'.clones = some cs ∧ cs.length = (ownPoints l.id points).length ∧
    l'.module.switches.length = l.module.switches.length + (ownPoints l.id points).length
  /-- Nothing else changes. -/
  rest : l' = { l with
    module := { l.module with
      functions := l'.module.functions
      switches := l'.module.switches }
    clones := l'.clones }
  names : l.module.ProperlyNamed → l'.module.ProperlyNamed

/-- What a module is once its mutants have been isolated, with what has been appended. -/
theorem isolate_appends (h : l.isolate points = (l', .ok ()))
    (hbelow : ∀ p ∈ points, p.module = l.id → p.location.function < l.module.functions.length) :
    ∃ r, IsolatesAll l.module.functions.length (mutantsByFunction l.id points) ⟨l.module, []⟩ r ∧
      RecordsClones ((mutantsByFunction l.id points).flatMap Prod.snd) l.module.functions.length
        r.module.functions.length r.clones ∧
      AppendsCopies l.module l.module.functions.length (mutantsByFunction l.id points)
        ⟨l.module, []⟩ r ∧
      l' = { l with module := r.module, clones := some r.clones } := by
  obtain ⟨r, hr, hall, hrecords, hl'⟩ := isolate_loop h hbelow
  have happends := isolateFunctions_appends (mutantsByFunction_distinct l.id points)
    (fun o => mutantsByFunction_below hbelow) (Nat.le_refl _) (fun _ _ => rfl) hr
  exact ⟨r, hall, hrecords, happends, hl'⟩

/-- Isolation of points in functions of the module lays it out as planned. -/
theorem isolate_laidOut (h : l.isolate points = (l', .ok ()))
    (hbelow : ∀ p ∈ points, p.module = l.id → p.location.function < l.module.functions.length) :
    l.LaidOut points l.module.functions.length l' := by
  have hkept := isolate_keeps Module.properlyNamed_kept l points
  rw [h] at hkept
  obtain ⟨r, hall, hrecords, happends, rfl⟩ := isolate_appends h hbelow
  have hnames := hrecords.names
  have hswitches := hall.switches
  have hcount : (isolationOrder l.id l.module.functions.length points).length =
      (ownPoints l.id points).length := (isolationOrder_perm hbelow).length_eq
  rw [flatMap_mutants_eq hbelow] at hnames hswitches
  refine ⟨?unowned, ?owned, ?appended, hswitches, ?clone, ?counts, ?rest, ?names⟩
  case unowned =>
    intro i hi hnone
    exact hall.unowned hi hnone
  case owned =>
    intro i f hf hsome
    obtain ⟨f', hf', hisolated⟩ := hall.owned hsome
    obtain rfl : f' = f := Option.some.inj (hf'.symm.trans hf)
    obtain ⟨fallback, arms, hdispatcher, -⟩ := hisolated.split
    exact ⟨_, hdispatcher, rfl, rfl, rfl⟩
  case appended =>
    obtain ⟨gs, hgs, hcopies⟩ := happends.copies
    rw [flatMap_copiesOf_eq hbelow, List.forall₂_map_left_iff] at hcopies
    rw [hgs, List.drop_length, List.nil_append]
    exact hcopies
  case clone =>
    intro p hp
    obtain ⟨k, hk⟩ := List.mem_iff_getElem?.mp (mem_copyPlan hbelow hp)
    refine ⟨k, hk, lookup_eq_some_of_mem (hrecords.names ▸ hall.distinct) ?_⟩
    refine happends.recorded k p.location.function p.identifier ?_
    rw [flatMap_copiesOf_eq hbelow, List.getElem?_map, hk]
    rfl
  case counts =>
    refine ⟨r.clones, rfl, ?_, ?_⟩
    · rw [← hcount, ← List.length_map Prod.fst, hnames, List.length_map]
    · rw [hswitches, List.length_append, List.length_map, hcount]
  case rest =>
    rw [← hall.rest]
  case names => exact hkept

/-- Points in both functions of a module, not in the order of the functions. -/
def scatteredPoints : List Point :=
  [.ofMatch 0 "doubling.json" "double" ⟨1, 0, 0⟩ .replaceCall 0 0,
    .ofMatch 0 "doubling.json" "add" ⟨0, 0, 0⟩ .addToSub 0 0,
    .ofMatch 0 "doubling.json" "double" ⟨1, 0, 0⟩ .noMutation 0 0]

/-- Behind the two functions come the copies of the first and then those of the second, of which
the last belongs to the last point. -/
theorem isolate_laidOut_scattered :
    let l : LoadedModule := ⟨0, "doubling.json", doubling, none, []⟩
    ∃ l', l.isolate scatteredPoints = (l', .ok ()) ∧ doubling.ProperlyNamed ∧
      l.LaidOut scatteredPoints 2 l' ∧
      (copyPlan 0 2 scatteredPoints).map Prod.fst = [0, 0, 1, 1, 1] ∧
      scatteredPoints.map (fun p => l'.clone? p.identifier) = [some 5, some 3, some 6] := by
  intro l
  have hbelow : ∀ p ∈ scatteredPoints, p.module = l.id →
      p.location.function < l.module.functions.length := by decide
  obtain ⟨r, hr, hclones⟩ : ∃ r,
      isolateFunctions (mutantsByFunction 0 scatteredPoints) ⟨doubling, []⟩ = (r, .ok ()) ∧
        scatteredPoints.map (fun p => r.clones.lookup p.identifier) = [some 5, some 3, some 6] := by
    have hgroups : mutantsByFunction 0 scatteredPoints = (owningFunctions 0 2 scatteredPoints).map
        fun i => (i, (pointsIn 0 scatteredPoints i).map Point.identifier) :=
      mutantsByFunction_eq hbelow
    rw [hgroups]
    exact ⟨_, Prod.ext rfl (by decide +kernel), by decide +kernel⟩
  have hisolate : l.isolate scatteredPoints =
      ({ l with module := r.module, clones := some r.clones }, .ok ()) := by
    simp [isolate_eq, isPrepared, l, hr]
  exact ⟨_, hisolate, ⟨by decide, by decide⟩, isolate_laidOut hisolate hbelow, by decide +kernel,
    hclones⟩

end LoadedModule

end MutantGate
