import Mathlib.Algebra.BigOperators.Ring.List
import Mathlib.Algebra.Order.BigOperators.Group.List
import Mathlib.Algebra.Order.Ring.Nat
import Mathlib.Data.List.Nodup
import Mathlib.Data.List.Sort
import MutantGate.Mutation.Isolation
/-!
# Points by function

The points of a module are handed to isolation function by function.  Every function that
owns a point is there once, with the names of all its points in their order, and no point
is counted for two functions.

## What is proved

All of it for any list of points and any number of a module: `mem_mutantsByFunction` says what is
handed over, `mutantsByFunction_names_perm` that nothing is lost and nothing is counted twice, and
`addedFunctions_le` how much it makes a module grow.

## What is left outside

Whether the functions are there.  That is asked by isolation.
-/

namespace MutantGate

theorem nodup_eraseDups {α : Type} [BEq α] [LawfulBEq α] :
    ∀ xs : List α, xs.eraseDups.Nodup
  | [] => List.nodup_nil
  | x :: xs => by
      have hshort : (xs.filter fun y => !y == x).length < (x :: xs).length :=
        Nat.lt_succ_of_le (List.length_filter_le _ _)
      rw [List.eraseDups_cons]
      refine List.nodup_cons.mpr ⟨fun hmem => ?_, nodup_eraseDups _⟩
      simpa using (List.mem_filter.mp (List.mem_eraseDups.mp hmem)).2
  termination_by xs => xs.length
  decreasing_by exact hshort

/-- The points that carry the number of a module. -/
def ownPoints (id : ModuleId) (points : List Point) : List Point :=
  points.filter fun p => p.module == id

theorem mem_ownPoints {id : ModuleId} {points : List Point} {p : Point} :
    p ∈ ownPoints id points ↔ p ∈ points ∧ p.module = id := by
  rw [ownPoints, List.mem_filter, beq_iff_eq]

@[simp] theorem ownPoints_ownPoints (id : ModuleId) (points : List Point) :
    ownPoints id (ownPoints id points) = ownPoints id points := by
  simp [ownPoints, List.filter_filter]

theorem ownPoints_cons_of_eq {id : ModuleId} {p : Point} (h : p.module = id)
    (points : List Point) : ownPoints id (p :: points) = p :: ownPoints id points :=
  List.filter_cons_of_pos (by simpa using h)

theorem ownPoints_cons_of_ne {id : ModuleId} {p : Point} (h : p.module ≠ id)
    (points : List Point) : ownPoints id (p :: points) = ownPoints id points :=
  List.filter_cons_of_neg (by simpa using h)

/-- The points of a module that are in one of its functions. -/
def pointsIn (id : ModuleId) (points : List Point) (function : Nat) : List Point :=
  (points.filter fun p => p.module == id).filter fun p => p.location.function == function

theorem mem_pointsIn {id : ModuleId} {points : List Point} {function : Nat} {p : Point} :
    p ∈ pointsIn id points function ↔
      p ∈ points ∧ p.module = id ∧ p.location.function = function := by
  rw [pointsIn, List.mem_filter, List.mem_filter, beq_iff_eq, beq_iff_eq, and_assoc]

theorem mutantsByFunction_distinct (id : ModuleId) (points : List Point) :
    ((mutantsByFunction id points).map Prod.fst).Nodup := by
  rw [mutantsByFunction, List.map_map]
  simp only [Function.comp_def, List.map_id']
  exact (List.mergeSort_perm _ _).nodup_iff.mpr (nodup_eraseDups _)

/-- The functions come in ascending order. -/
theorem mutantsByFunction_ascending (id : ModuleId) (points : List Point) :
    ((mutantsByFunction id points).map Prod.fst).SortedLT := by
  have hsorted : ((mutantsByFunction id points).map Prod.fst).SortedLE := by
    rw [mutantsByFunction, List.map_map]
    simp only [Function.comp_def, List.map_id']
    exact List.sortedLE_mergeSort
  exact hsorted.sortedLT_of_nodup (mutantsByFunction_distinct id points)

/-- A function is isolated exactly if it owns a point, and then with all its points. -/
theorem mem_mutantsByFunction {id : ModuleId} {points : List Point} {o : Nat × List String} :
    o ∈ mutantsByFunction id points ↔
      pointsIn id points o.1 ≠ [] ∧ o.2 = (pointsIn id points o.1).map Point.identifier := by
  obtain ⟨function, mutants⟩ := o
  have howner : function ∈ ((points.filter fun p => p.module == id).map fun p =>
      p.location.function).eraseDups.mergeSort ↔ pointsIn id points function ≠ [] := by
    rw [(List.mergeSort_perm _ _).mem_iff, List.mem_eraseDups, List.mem_map, pointsIn, Ne,
      List.filter_eq_nil_iff]
    simp only [beq_iff_eq, not_forall, not_not, exists_prop]
  rw [← howner]
  constructor
  · intro h
    obtain ⟨g, hg, heq⟩ := List.mem_map.mp h
    cases heq
    exact ⟨hg, rfl⟩
  · rintro ⟨hg, hmutants⟩
    obtain rfl : mutants = (pointsIn id points function).map Point.identifier := hmutants
    exact List.mem_map.mpr ⟨function, hg, rfl⟩

/-- The function of a point is isolated. -/
theorem owner_mem_mutantsByFunction {id : ModuleId} {points : List Point} {p : Point}
    (hp : p ∈ points) (hmodule : p.module = id) :
    (p.location.function, (pointsIn id points p.location.function).map Point.identifier) ∈
      mutantsByFunction id points :=
  mem_mutantsByFunction.mpr ⟨List.ne_nil_of_mem (mem_pointsIn.mpr ⟨hp, hmodule, rfl⟩), rfl⟩

/-- Functions are isolated below any number that all functions with points are below. -/
theorem mutantsByFunction_below {id : ModuleId} {points : List Point} {n : Nat}
    (hbelow : ∀ p ∈ points, p.module = id → p.location.function < n) {o : Nat × List String}
    (ho : o ∈ mutantsByFunction id points) : o.1 < n := by
  obtain ⟨p, hp⟩ := List.exists_mem_of_ne_nil _ (mem_mutantsByFunction.mp ho).1
  obtain ⟨hp, hmodule, hfunction⟩ := mem_pointsIn.mp hp
  exact hfunction ▸ hbelow p hp hmodule

/-- Taken key by key, the elements with these keys are there once each. -/
theorem flatMap_filter_perm {α : Type} (key : α → Nat) {keys : List Nat} (hkeys : keys.Nodup)
    (xs : List α) : (keys.flatMap fun k => xs.filter fun x => key x == k).Perm
      (xs.filter fun x => keys.contains (key x)) := by
  induction keys with
  | nil => simp
  | cons k keys ih =>
      obtain ⟨hk, hkeys⟩ := List.nodup_cons.mp hkeys
      have hsplit := List.filter_append_perm (fun x => key x == k)
        (xs.filter fun x => (k :: keys).contains (key x))
      have hfirst : ((xs.filter fun x => (k :: keys).contains (key x)).filter fun x => key x == k) =
          xs.filter fun x => key x == k := by
        rw [List.filter_filter]
        refine List.filter_congr fun x _ => ?_
        by_cases hx : key x = k <;> simp [hx]
      have hrest :
          ((xs.filter fun x => (k :: keys).contains (key x)).filter fun x => !(key x == k)) =
            xs.filter fun x => keys.contains (key x) := by
        rw [List.filter_filter]
        refine List.filter_congr fun x _ => ?_
        by_cases hx : key x = k <;> simp [hx, hk]
      rw [hfirst, hrest] at hsplit
      rw [List.flatMap_cons]
      exact (List.Perm.append_left _ (ih hkeys)).trans hsplit

/-- Function by function, every point of the module is there once. -/
theorem mutantsByFunction_points_perm (id : ModuleId) (points : List Point) :
    (((mutantsByFunction id points).map Prod.fst).flatMap (pointsIn id points)).Perm
      (ownPoints id points) := by
  have hall : (ownPoints id points).filter (fun p =>
      ((mutantsByFunction id points).map Prod.fst).contains p.location.function) =
        ownPoints id points := by
    refine List.filter_eq_self.mpr fun p hp => ?_
    obtain ⟨hp, hmodule⟩ := mem_ownPoints.mp hp
    have howner := owner_mem_mutantsByFunction hp hmodule
    exact List.contains_iff_mem.mpr (List.mem_map_of_mem howner)
  have hperm := flatMap_filter_perm (fun p : Point => p.location.function)
    (mutantsByFunction_distinct id points) (ownPoints id points)
  rw [hall] at hperm
  exact hperm

/-- The names that are handed to isolation are those of the points of the module. -/
theorem mutantsByFunction_names_perm (id : ModuleId) (points : List Point) :
    ((mutantsByFunction id points).flatMap Prod.snd).Perm
      ((ownPoints id points).map Point.identifier) := by
  have hnames : (mutantsByFunction id points).flatMap Prod.snd =
      (((mutantsByFunction id points).map Prod.fst).flatMap (pointsIn id points)).map
        Point.identifier := by
    rw [List.map_flatMap, List.flatMap_map]
    exact List.flatMap_congr fun o ho => (mem_mutantsByFunction.mp ho).2
  rw [hnames]
  exact (mutantsByFunction_points_perm id points).map Point.identifier

theorem mem_mutantsByFunction_names {id : ModuleId} {points : List Point} {s : String} :
    s ∈ (mutantsByFunction id points).flatMap Prod.snd ↔
      ∃ p ∈ points, p.module = id ∧ p.identifier = s := by
  rw [(mutantsByFunction_names_perm id points).mem_iff, List.mem_map]
  simp only [mem_ownPoints, and_assoc]

theorem mutantsByFunction_length_le (id : ModuleId) (points : List Point) :
    ((mutantsByFunction id points).map fun o => o.2.length).sum ≤ points.length := by
  calc ((mutantsByFunction id points).map fun o => o.2.length).sum
      = ((mutantsByFunction id points).flatMap Prod.snd).length := List.length_flatMap.symm
    _ = ((ownPoints id points).map Point.identifier).length :=
        (mutantsByFunction_names_perm id points).length_eq
    _ = (ownPoints id points).length := List.length_map _
    _ ≤ points.length := List.length_filter_le _ _

/-- The number of functions that isolating mutants appends: a copy of each owner, and a clone
for each mutant. -/
def addedFunctions (owners : List (Nat × List String)) : Nat :=
  (owners.map fun o => o.2.length + 1).sum

theorem addedFunctions_cons (o : Nat × List String) (owners : List (Nat × List String)) :
    addedFunctions (o :: owners) = o.2.length + 1 + addedFunctions owners :=
  List.sum_cons

/-- These are two for each point at most. -/
theorem addedFunctions_le (id : ModuleId) (points : List Point) :
    addedFunctions (mutantsByFunction id points) ≤ 2 * points.length := by
  have hpos : ∀ o ∈ mutantsByFunction id points, o.2.length + 1 ≤ 2 * o.2.length := by
    intro o ho
    obtain ⟨hne, hmutants⟩ := mem_mutantsByFunction.mp ho
    have hlength := List.length_pos_iff.mpr hne
    rw [hmutants, List.length_map]
    omega
  calc addedFunctions (mutantsByFunction id points)
      ≤ ((mutantsByFunction id points).map fun o => 2 * o.2.length).sum := List.sum_le_sum hpos
    _ = 2 * ((mutantsByFunction id points).map fun o => o.2.length).sum :=
        List.sum_map_mul_left ..
    _ ≤ 2 * points.length := Nat.mul_le_mul_left 2 (mutantsByFunction_length_le id points)

end MutantGate
