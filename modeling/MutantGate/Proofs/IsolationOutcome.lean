import MutantGate.Proofs.IsolatedLayout
import MutantGate.Proofs.MutationSuccess
/-!
# Which points can be isolated

Points in functions of a module can be isolated exactly if the module has not been isolated
before, every function with points leaves a register for its dispatcher, and the names of the
points differ from each other and from those of the switches.

A point in a function that is not there ought to be refused.  But whether a function is there is
asked only when its turn comes.  By then the functions with smaller indices have been copied, and
an index that led nowhere before may lead to one of the copies: the point is then isolated in
that copy.  So what is refused is an index beyond the copies that are planned for the functions
below it, and no other.

## What is proved

For points in functions of a module, the conditions above are sufficient and necessary.  For any
points, the exact condition is that of each index being there when its turn comes; and if only this
is missing, the failure names such a point.  A point is given that leads nowhere in its module and
is isolated all the same.

## What is left outside

Which of several obstacles is named.  What is left of the module then is described in
`Proofs.InterruptedIsolation`.
-/

namespace MutantGate

/-! ## The turn of a function -/

/-- When the turn comes to an index, the copies planned for the functions below it have been
appended. -/
theorem functionsBefore_eq (n : Nat) (id : ModuleId) (points : List Point) (index : Nat) :
    functionsBefore n (mutantsByFunction id points) index =
      n + (copyPlan id index points).length := by
  have hcopies : ∀ i, (copiesOf i (pointsIn id points i)).length =
      ((pointsIn id points i).map Point.identifier).length + 1 := by
    intro i
    rw [copiesOf, List.length_cons, List.length_map, List.length_map]
  rw [functionsBefore, mutantsByFunction_filter, addedFunctions, List.map_map, copyPlan,
    List.length_flatMap]
  simp only [hcopies, Function.comp_def]

/-- If nothing else stands in the way, isolation stops at the first function that is not there
when its turn comes. -/
theorem isolateFunctions_eq_missing {owners : List (Nat × List String)} {r r' : Reservation}
    {e : IsolationObstacle} (hascending : (owners.map Prod.fst).SortedLT)
    (hcan : r.module.CanIsolate owners) (h : isolateFunctions owners r = (r', .error e)) :
    ∃ o ∈ owners, functionsBefore r.module.functions.length owners o.1 ≤ o.1 ∧
      e = .missingFunction (o.2.head?.getD "") o.1 := by
  induction owners generalizing r with
  | nil => cases h
  | cons o owners ih =>
      obtain ⟨index, mutants⟩ := o
      obtain ⟨hlater, hascending⟩ := List.pairwise_cons.mp hascending.pairwise
      have hlater : ∀ o ∈ owners, index < o.1 := fun o ho => hlater o.1 (List.mem_map_of_mem ho)
      rw [isolateFunctions] at h
      cases hf : r.module.functions[index]? with
      | none =>
          simp only [isolateFunction, hf] at h
          cases h
          refine ⟨_, List.mem_cons_self, ?_, rfl⟩
          rw [functionsBefore_first _ (o := (index, mutants)) hlater]
          exact List.getElem?_eq_none_iff.mp hf
      | some f =>
          obtain ⟨r₁, hstep⟩ := isolateFunction_isOk_iff.mpr
            ⟨⟨f, hf, hcan.params _ List.mem_cons_self f hf⟩,
              fun s hs => hcan.fresh s (List.mem_append_left _ hs),
              (List.nodup_append.mp (List.flatMap_cons ▸ hcan.distinct)).1⟩
          obtain ⟨f, h₁⟩ := isolateFunction_eq_ok hstep
          rw [hstep] at h
          obtain ⟨o, ho, hreach, he⟩ :=
            ih hascending.sortedLT ((h₁.canIsolate_iff hlater).mp hcan) h
          refine ⟨o, List.mem_cons_of_mem _ ho, ?_, he⟩
          rw [h₁.functionsBefore_eq (hlater o ho)]
          exact hreach

namespace LoadedModule

variable {l : LoadedModule} {points : List Point}

theorem isolate_snd_eq_ok_iff :
    (l.isolate points).2 = .ok () ↔ ∃ l', l.isolate points = (l', .ok ()) := by
  constructor
  · intro h
    exact ⟨_, Prod.ext rfl h⟩
  · rintro ⟨l', h⟩
    rw [h]

theorem isolate_of_isPrepared (h : l.isPrepared = true) (points : List Point) :
    l.isolate points = (l, .error (.alreadyPrepared l.identifier)) := by
  rw [isolate_eq, if_pos h]

theorem clones_of_isPrepared (h : l.isPrepared = false) : l.clones = none := by
  simpa [isPrepared] using h

/-- The same in terms of the points. -/
theorem isolate_isOk_iff_reached (hclones : l.clones = none) :
    (∃ l', l.isolate points = (l', .ok ())) ↔
      (∀ p ∈ ownPoints l.id points, p.location.function <
        l.module.functions.length + (copyPlan l.id p.location.function points).length) ∧
        l.Isolable points := by
  rw [isolate_isOk_iff hclones]
  simp only [functionsBefore_eq]
  refine and_congr_left fun _ => ⟨fun h p hp => ?_, fun h o ho => ?_⟩
  · obtain ⟨hp, hmodule⟩ := mem_ownPoints.mp hp
    exact h _ (owner_mem_mutantsByFunction hp hmodule)
  · obtain ⟨p, hp⟩ := List.exists_mem_of_ne_nil _ (mem_mutantsByFunction.mp ho).1
    obtain ⟨hp, hmodule, hfunction⟩ := mem_pointsIn.mp hp
    exact hfunction ▸ h p (mem_ownPoints.mpr ⟨hp, hmodule⟩)

/-- Functions of the module are there whenever their turn comes. -/
theorem isolate_isOk_iff_of_below (hclones : l.clones = none)
    (hbelow : ∀ p ∈ points, p.module = l.id → p.location.function < l.module.functions.length) :
    (∃ l', l.isolate points = (l', .ok ())) ↔ l.Isolable points := by
  rw [isolate_isOk_iff_reached hclones, and_iff_right fun p hp => ?_]
  obtain ⟨hp, hmodule⟩ := mem_ownPoints.mp hp
  exact Nat.lt_of_lt_of_le (hbelow p hp hmodule) (Nat.le_add_right _ _)

/-! ## Points in functions of the module -/

/-- Points in functions of a module can be isolated exactly if that has not happened before, their
functions have 255 parameters at most, and their names differ from each other and from those of
the switches that are there. -/
theorem isolate_succeeds_iff
    (hbelow : ∀ p ∈ points, p.module = l.id → p.location.function < l.module.functions.length) :
    (l.isolate points).2 = .ok () ↔
      l.isPrepared = false ∧
      (∀ p ∈ points, p.module = l.id →
        ∀ f, l.module.functions[p.location.function]? = some f → f.params.toNat ≤ 255) ∧
      ((ownPoints l.id points).map Point.identifier).Nodup ∧
      ∀ p ∈ points, p.module = l.id → p.identifier ∉ l.module.switches := by
  cases hprepared : l.isPrepared with
  | true =>
      rw [isolate_of_isPrepared hprepared]
      constructor
      · intro h
        cases h
      · rintro ⟨h, -⟩
        cases h
  | false =>
      rw [isolate_snd_eq_ok_iff, isolate_isOk_iff_of_below (clones_of_isPrepared hprepared) hbelow]
      constructor
      · intro h
        exact ⟨rfl, h.params, h.distinct, h.fresh⟩
      · rintro ⟨-, hparams, hdistinct, hfresh⟩
        exact ⟨hparams, hfresh, hdistinct⟩

/-- A module of two functions as it is loaded. -/
def loadedDoubling : LoadedModule := ⟨0, "doubling.json", doubling, none, []⟩

theorem loadedDoubling_isolable (hdistinct : ((ownPoints 0 points).map Point.identifier).Nodup) :
    loadedDoubling.Isolable points where
  params p _ _ f hf := by
    have hparams : ∀ f ∈ doubling.functions, f.params.toNat ≤ maxForwarded := by decide
    exact hparams f (List.mem_of_getElem? hf)
  fresh _ _ _ := List.not_mem_nil
  distinct := hdistinct

/-- The points in both functions of the module can be isolated, but none of them twice. -/
theorem isolate_succeeds_iff_scattered :
    (loadedDoubling.isolate scatteredPoints).2 = .ok () ∧
      (loadedDoubling.isolate (scatteredPoints ++ scatteredPoints.take 1)).2 ≠ .ok () := by
  have hcan : loadedDoubling.Isolable scatteredPoints :=
    loadedDoubling_isolable (by decide +kernel)
  refine ⟨(isolate_succeeds_iff (by decide)).mpr
    ⟨rfl, hcan.params, hcan.distinct, hcan.fresh⟩, ?_⟩
  rw [Ne, isolate_succeeds_iff (by decide)]
  rintro ⟨-, -, hdistinct, -⟩
  exact absurd hdistinct (by decide +kernel)

/-! ## Points in functions that are not there -/

/-- A module that has not been isolated before refuses points in functions beyond the copies that
are there when their turn comes, and such a point is named if nothing else is wrong.  Points in
functions that are not there at first, but then among these copies, are not refused. -/
theorem isolate_refuses_unreached (hnew : l.isPrepared = false) (points : List Point) :
    ((l.isolate points).2 = .ok () ↔
      (∀ p ∈ ownPoints l.id points, p.location.function <
        l.module.functions.length + (copyPlan l.id p.location.function points).length) ∧
        l.Isolable points) ∧
    (l.Isolable points → ∀ e, (l.isolate points).2 = .error e →
      ∃ p ∈ ownPoints l.id points, e = .missingFunction p.identifier p.location.function ∧
        l.module.functions.length + (copyPlan l.id p.location.function points).length ≤
          p.location.function) := by
  refine ⟨isolate_snd_eq_ok_iff.trans (isolate_isOk_iff_reached (clones_of_isPrepared hnew)),
    fun hcan e he => ?_⟩
  rw [isolate_eq, if_neg (by simp [hnew])] at he
  cases hloop : isolateFunctions (mutantsByFunction l.id points) ⟨l.module, []⟩ with
  | mk r outcome =>
      rw [hloop] at he
      cases outcome with
      | ok u => cases he
      | error e' =>
          cases he
          obtain ⟨o, ho, hreach, rfl⟩ := isolateFunctions_eq_missing
            (mutantsByFunction_ascending l.id points) (isolable_iff.mp hcan) hloop
          obtain ⟨hsome, hnames⟩ := mem_mutantsByFunction.mp ho
          rw [functionsBefore_eq] at hreach
          -- The failure names the first point of the function.
          obtain ⟨p, ps, hps⟩ := List.exists_cons_of_ne_nil hsome
          obtain ⟨hp, hmodule, hfunction⟩ :=
            mem_pointsIn.mp (hps ▸ List.mem_cons_self : p ∈ pointsIn l.id points o.1)
          rw [hnames, hps, ← hfunction]
          rw [← hfunction] at hreach
          exact ⟨p, mem_ownPoints.mpr ⟨hp, hmodule⟩, rfl, hreach⟩

/-- A point in the first function of the module, and one in a function that is not there. -/
def strayPoints (function : Nat) : List Point :=
  [.ofMatch 0 "doubling.json" "add" ⟨0, 0, 0⟩ .addToSub 0 0,
    .ofMatch 0 "doubling.json" "triple" ⟨function, 0, 0⟩ .addToSub 0 0]

theorem strayPoints_isolable (function : Nat) :
    loadedDoubling.Isolable (strayPoints function) := by
  -- The names do not depend on the index.
  have hnames : [Point.identify .addToSub "doubling.json" "add" ⟨0, 0, 0⟩ 0,
      Point.identify .addToSub "doubling.json" "triple" ⟨0, 0, 0⟩ 0].Nodup := by decide +kernel
  exact loadedDoubling_isolable hnames

/-- Two copies have been appended when the turn comes to the second point, so the indices 2 and 3
are taken by then, but 4 is not. -/
theorem isolate_refuses_unreached_stray :
    loadedDoubling.isPrepared = false ∧ (loadedDoubling.isolate (strayPoints 4)).2 =
      .error (.missingFunction "cxx_add_to_sub:doubling.json:triple:0:0:0" 4) := by
  obtain ⟨hok, herror⟩ := isolate_refuses_unreached (l := loadedDoubling) rfl (strayPoints 4)
  refine ⟨rfl, ?_⟩
  cases hout : (loadedDoubling.isolate (strayPoints 4)).2 with
  | ok u => exact absurd (hok.mp hout).1 (by decide)
  | error e =>
      obtain ⟨p, hp, rfl, hreach⟩ := herror (strayPoints_isolable 4) e hout
      rcases List.mem_pair.mp hp with rfl | rfl
      · exact absurd hreach (by decide)
      · decide +kernel

/-- A point in the function of index 2, of which there is none, is accepted: its place is taken by
the untouched copy of the first function. -/
theorem stray_point_accepted :
    loadedDoubling.isPrepared = false ∧
      (∃ p ∈ strayPoints 2, p.module = loadedDoubling.id ∧
        loadedDoubling.module.functions.length ≤ p.location.function) ∧
      (loadedDoubling.isolate (strayPoints 2)).2 = .ok () := by
  refine ⟨rfl, by decide, isolate_snd_eq_ok_iff.mpr ((isolate_isOk_iff_reached rfl).mpr ?_)⟩
  exact ⟨by decide, strayPoints_isolable 2⟩

end LoadedModule

end MutantGate
