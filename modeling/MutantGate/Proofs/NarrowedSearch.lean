import Mathlib.Data.List.Flatten
import Mathlib.Data.Set.List
import MutantGate.Proofs.FoundPoints
import MutantGate.Proofs.Resolution
/-!
# Searches for less and for more

What a filter does not allow is passed over before points are counted.  So a search with a filter
is the search without one for the operators that it allows, of which the points in functions and
at instructions that it does not allow are dropped: numbers and names are the same.  The filter of
a configuration is known by the names in it, so excluding operators is the same as not asking for
them, and neither order nor repetition of the names plays a part.

A search for more operators keeps all that a search for fewer finds, and in its order.  Numbers
and names may change there, since the points at an instruction are counted together.

## What is proved

For all programs, operators and names: the list that is found with the filter of a configuration is
the list that is found without, for the operators that are left, less the points in excluded
functions, and these points have the same numbers and names in both.  A configuration is refused
exactly if an id in it is no operator's.  For more operators, and for the same in another order, the
replacements that are found are compared as lists.

## What is left outside

Filters that look at single instructions: a configuration cannot make one, though the search takes
any.
-/

namespace MutantGate

variable {operators operators' : List Operator} {filter : Filter} {program : Program}
  {cs : List Candidate} {l : LoadedModule}

/-! ## Filters -/

/-- Is a point of a function in an allowed place? -/
def Filter.allowsIn (filter : Filter) (f : Function) (p : Point) : Bool :=
  filter.allowsFunction f &&
    (f.instruction? p.location.block p.location.instruction).any filter.allowsInstruction

theorem choices_eq_acceptAll (operators : List Operator) (filter : Filter) (i : Instruction) :
    choices operators filter i =
      choices (operators.filter filter.allowsOperator) .acceptAll i := by
  have hall : (operators.filter filter.allowsOperator).filter Filter.acceptAll.allowsOperator =
      operators.filter filter.allowsOperator :=
    List.filter_eq_self.mpr fun _ _ => rfl
  rw [choices, choices, hall]

/-- The points at an instruction are all there or none is. -/
theorem instructionPoints_eq_filter {f : Function} {location : Location} {i : Instruction}
    (hf : filter.allowsFunction f = true)
    (hi : f.instruction? location.block location.instruction = some i) (name : String) :
    instructionPoints operators filter l name location i =
      (instructionPoints (operators.filter filter.allowsOperator) .acceptAll l name location
        i).filter (filter.allowsIn f) := by
  have hallows : ∀ p ∈ instructionPoints (operators.filter filter.allowsOperator) .acceptAll l name
      location i, filter.allowsIn f p = filter.allowsInstruction i := by
    intro p hp
    have hlocation := congrArg Point.location (mem_instructionPoints.mp hp).2.2
    rw [Filter.allowsIn, hf, Bool.true_and, hlocation]
    exact congrArg (Option.any filter.allowsInstruction) hi
  rw [List.filter_congr hallows]
  cases hallowed : filter.allowsInstruction i with
  | false =>
      rw [instructionPoints, hallowed]
      exact (List.filter_eq_nil_iff.mpr fun _ _ => Bool.false_ne_true).symm
  | true =>
      rw [instructionPoints, instructionPoints, hallowed, choices_eq_acceptAll]
      exact (List.filter_eq_self.mpr fun _ _ => rfl).symm

theorem functionPoints_eq_filter (index : Nat) (f : Function) :
    functionPoints operators filter l index f =
      (functionPoints (operators.filter filter.allowsOperator) .acceptAll l index f).filter
        (filter.allowsIn f) := by
  cases hf : filter.allowsFunction f with
  | false =>
      rw [functionPoints, hf]
      refine (List.filter_eq_nil_iff.mpr fun p _ => ?_).symm
      rw [Filter.allowsIn, hf]
      exact Bool.false_ne_true
  | true =>
      have hall : Filter.acceptAll.allowsFunction f = true := rfl
      rw [functionPoints, functionPoints, if_pos hf, if_pos hall, List.filter_flatMap]
      exact List.flatMap_congr fun x hx =>
        instructionPoints_eq_filter hf (Function.mem_instructions.mp hx) f.name

/-- A search with a filter is the search without one for the operators that it allows, less the
points in places that it does not. -/
theorem discover_eq_filter (operators : List Operator) (filter : Filter) (program : Program)
    (cs : List Candidate) :
    discover operators filter program cs =
      (discover (operators.filter filter.allowsOperator) .acceptAll program cs).filter
        fun p => (program.function? p.function).any fun f => filter.allowsIn f p := by
  rw [discover, discover, List.filter_flatMap]
  refine List.flatMap_congr fun c _ => ?_
  cases hl : program.module? c.function.module with
  | none => simp only [candidatePoints, hl, List.filter_nil]
  | some l =>
      cases hf : l.module.functions[c.function.function]? with
      | none => simp only [candidatePoints, hl, hf, List.filter_nil]
      | some f =>
          have hfunction : program.function? c.function = some f := by
            rw [Program.function?, hl]
            exact hf
          have hplace : ∀ p ∈ candidatePoints (operators.filter filter.allowsOperator) .acceptAll
              program c, ((program.function? p.function).any fun f => filter.allowsIn f p) =
                filter.allowsIn f p := by
            intro p hp
            rw [(mem_candidatePoints.mp hp).1, hfunction]
            rfl
          rw [List.filter_congr hplace, candidatePoints_eq hl hf, candidatePoints_eq hl hf]
          exact functionPoints_eq_filter c.function.function f

/-! ## Exclusions -/

namespace Exclusions

/-- The operators of a list of ids are those that have these ids. -/
theorem operatorsOfIds_eq_ok_iff {ids : List String} {os : List Operator} :
    operatorsOfIds ids = .ok os ↔ os.map Operator.id = ids := by
  induction ids generalizing os with
  | nil =>
      rw [operatorsOfIds, List.map_eq_nil_iff, Except.ok.injEq]
      exact eq_comm
  | cons s ids ih =>
      rw [operatorsOfIds, List.map_eq_cons_iff]
      cases hs : Operator.ofId? s with
      | none =>
          refine ⟨nofun, ?_⟩
          rintro ⟨o, os', -, ho, -⟩
          rw [Operator.ofId?_eq_some_iff.mpr ho] at hs
          cases hs
      | some o =>
          have ho := Operator.ofId?_eq_some_iff.mp hs
          constructor
          · intro h
            cases hrest : operatorsOfIds ids with
            | error e => simp [hrest, Except.map] at h
            | ok os' =>
                rw [hrest] at h
                exact ⟨o, os', (Except.ok.inj h).symm, ho, ih.mp hrest⟩
          · rintro ⟨o', os', rfl, ho', hrest⟩
            rw [Operator.id_injective (ho'.trans ho.symm), ih.mpr hrest]
            rfl

theorem ofNames_eq_ok_iff {functions ids : List String} {x : Exclusions} :
    ofNames functions ids = .ok x ↔
      x.functions = functions ∧ x.operators.map Operator.id = ids := by
  rw [ofNames, ← operatorsOfIds_eq_ok_iff]
  cases operatorsOfIds ids with
  | error e => simp [Except.map]
  | ok os =>
      constructor
      · intro h
        cases h
        exact ⟨rfl, rfl⟩
      · rintro ⟨rfl, h⟩
        cases h
        rfl

/-- Names are refused only if one of the ids is no operator's. -/
theorem ofNames_isOk_iff (functions ids : List String) :
    (∃ x, ofNames functions ids = .ok x) ↔ ∀ s ∈ ids, ∃ o : Operator, o.id = s := by
  have hknown : (∃ os : List Operator, os.map Operator.id = ids) ↔
      ∀ s ∈ ids, ∃ o : Operator, o.id = s :=
    Set.ext_iff.mp (Set.range_list_map Operator.id) ids
  rw [← hknown]
  constructor
  · rintro ⟨x, hx⟩
    exact ⟨x.operators, (ofNames_eq_ok_iff.mp hx).2⟩
  · rintro ⟨os, hos⟩
    exact ⟨⟨functions, os⟩, ofNames_eq_ok_iff.mpr ⟨rfl, hos⟩⟩

/-- The filter of a configuration in terms of the names in it. -/
theorem filter_of_ofNames {functions ids : List String} {x : Exclusions}
    (h : ofNames functions ids = .ok x) :
    x.filter =
      ⟨fun f => !functions.contains f.name, fun _ => true, fun o => !ids.contains o.id⟩ := by
  obtain ⟨rfl, rfl⟩ := ofNames_eq_ok_iff.mp h
  have hcontains : ∀ o, x.operators.contains o =
      (x.operators.map Operator.id).contains o.id := by
    intro o
    rw [Bool.eq_iff_iff, List.contains_iff_mem, List.contains_iff_mem,
      List.mem_map_of_injective Operator.id_injective]
  simp only [filter, hcontains]

/-- Names of the same content make the same filter. -/
theorem filter_congr {functions functions' ids ids' : List String} {x : Exclusions}
    (h : ofNames functions ids = .ok x) (hfunctions : ∀ s, s ∈ functions' ↔ s ∈ functions)
    (hids : ∀ s, s ∈ ids' ↔ s ∈ ids) :
    ∃ x', ofNames functions' ids' = .ok x' ∧ x'.filter = x.filter := by
  have hknown := (ofNames_isOk_iff functions ids).mp ⟨x, h⟩
  obtain ⟨x', h'⟩ := (ofNames_isOk_iff functions' ids').mpr fun s hs => hknown s ((hids s).mp hs)
  have hcontains : ∀ {ss ss' : List String}, (∀ s, s ∈ ss' ↔ s ∈ ss) →
      ∀ s, ss'.contains s = ss.contains s := by
    intro ss ss' hsame s
    rw [Bool.eq_iff_iff, List.contains_iff_mem, List.contains_iff_mem, hsame]
  refine ⟨x', h', ?_⟩
  rw [filter_of_ofNames h, filter_of_ofNames h']
  simp only [hcontains hfunctions, hcontains hids]

/-- A configuration is refused only for an id that no operator has.  A search with its filter is
the search with no filter for the other operators, less the points in the functions whose names
it has; and the order of its names and how often they are there do not matter. -/
theorem search_eq_excluded (functions ids : List String) :
    ((∃ x, ofNames functions ids = .ok x) ↔ ∀ s ∈ ids, ∃ o : Operator, o.id = s) ∧
    ∀ x, ofNames functions ids = .ok x →
      (∀ operators program cs, discover operators x.filter program cs =
        (discover (operators.filter fun o => !ids.contains o.id) .acceptAll program cs).filter
          fun p => !(program.function? p.function).any fun f => functions.contains f.name) ∧
      ∀ functions' ids', (∀ s, s ∈ functions' ↔ s ∈ functions) → (∀ s, s ∈ ids' ↔ s ∈ ids) →
        ∃ x', ofNames functions' ids' = .ok x' ∧
          ∀ operators program cs, discover operators x'.filter program cs =
            discover operators x.filter program cs := by
  refine ⟨ofNames_isOk_iff functions ids, fun x hx => ⟨fun operators program cs => ?_,
    fun functions' ids' hfunctions hids => ?_⟩⟩
  · rw [discover_eq_filter, filter_of_ofNames hx]
    refine List.filter_congr fun p hp => ?_
    -- A point that is found is in a function and at an instruction that are there.
    obtain ⟨l, f, i, hl, hp⟩ := mem_discover_found hp
    have hfunction : program.function? p.function = some f := by
      rw [Program.function?, Point.function, hl]
      exact hp.function
    rw [hfunction, Option.any_some, Option.any_some, Filter.allowsIn, hp.instruction,
      Option.any_some, Bool.and_true]
  · obtain ⟨x', hx', hfilter⟩ := filter_congr hx hfunctions hids
    exact ⟨x', hx', fun operators program cs => by rw [hfilter]⟩

/-- Two modules are searched for the operators that a configuration leaves; the replacement of the
sum has the number that it has if it is the only one asked for. -/
theorem search_eq_excluded_namesakes :
    ∃ x, ofNames ["double", "double"] ["no_mutation"] = .ok x ∧
      discover [.noMutation, .addToSub, .replaceCall] x.filter namesakes (candidates namesakes) =
        [.ofMatch 0 "doubling.json" "add" ⟨0, 0, 0⟩ .addToSub 0 0,
          .ofMatch 2 "doubling.json" "add" ⟨0, 0, 0⟩ .addToSub 0 0] ∧
      ∃ x', ofNames ["double"] ["no_mutation", "no_mutation"] = .ok x' ∧
        ∀ operators program cs, discover operators x'.filter program cs =
          discover operators x.filter program cs := by
  obtain ⟨hok, hsearch⟩ := search_eq_excluded ["double", "double"] ["no_mutation"]
  obtain ⟨x, hx⟩ := hok.mpr fun s hs => ⟨.noMutation, (List.mem_singleton.mp hs).symm⟩
  obtain ⟨heq, hsame⟩ := hsearch x hx
  refine ⟨x, hx, ?_, hsame ["double"] ["no_mutation", "no_mutation"] ?_ ?_⟩
  · rw [heq]
    decide +kernel
  · simp
  · simp

end Exclusions

/-! ## More operators -/

/-- The replacements at an instruction, without numbers. -/
theorem instructionPoints_replacements (operators : List Operator) (filter : Filter)
    (l : LoadedModule) (name : String) (location : Location) (i : Instruction) :
    (instructionPoints operators filter l name location i).map Point.replacement =
      if filter.allowsInstruction i then
        (choices operators filter i).map fun c => ⟨l.id, location, c.1, c.2⟩
      else [] := by
  unfold instructionPoints
  split
  · rw [List.map_map]
    conv_rhs => rw [← List.zipIdx_map_fst 0 (choices operators filter i), List.map_map]
    rfl
  · rfl

section Related

variable {R : List Replacement → List Replacement → Prop} (hnil : R [] [])
  (happend : ∀ {xs xs' ys ys'}, R xs xs' → R ys ys' → R (xs ++ ys) (xs' ++ ys'))

include hnil happend

/-- A relation that is kept when lists are put one behind the other. -/
theorem flatMap_related {α : Type} {xs : List α} {g g' : α → List Replacement}
    (h : ∀ x ∈ xs, R (g x) (g' x)) : R (xs.flatMap g) (xs.flatMap g') := by
  induction xs with
  | nil => exact hnil
  | cons x xs ih =>
      rw [List.flatMap_cons, List.flatMap_cons]
      exact happend (h x List.mem_cons_self) (ih fun y hy => h y (List.mem_cons_of_mem _ hy))

/-- If such a relation holds between the choices at every instruction, it holds between what is
found. -/
theorem discover_related
    (hchoices : ∀ i (g : Operator × Nat → Replacement),
      R ((choices operators filter i).map g) ((choices operators' filter i).map g)) :
    R ((discover operators filter program cs).map Point.replacement)
      ((discover operators' filter program cs).map Point.replacement) := by
  have hinstruction : ∀ (l : LoadedModule) (name : String) (location : Location) (i : Instruction),
      R ((instructionPoints operators filter l name location i).map Point.replacement)
        ((instructionPoints operators' filter l name location i).map Point.replacement) := by
    intro l name location i
    rw [instructionPoints_replacements, instructionPoints_replacements]
    split
    · exact hchoices i _
    · exact hnil
  have hfunction : ∀ (l : LoadedModule) (index : Nat) (f : Function),
      R ((functionPoints operators filter l index f).map Point.replacement)
        ((functionPoints operators' filter l index f).map Point.replacement) := by
    intro l index f
    unfold functionPoints
    split
    · rw [List.map_flatMap, List.map_flatMap]
      exact flatMap_related hnil happend fun x _ => hinstruction l f.name _ x.2.2
    · exact hnil
  rw [discover, discover, List.map_flatMap, List.map_flatMap]
  refine flatMap_related hnil happend fun c _ => ?_
  unfold candidatePoints
  split
  · exact hnil
  · split
    · exact hnil
    · exact hfunction _ _ _

end Related

/-- Asking for more operators keeps all replacements that are found, in their order, and asking
for the same in another order finds the same replacements as often. -/
theorem discover_more_operators (operators operators' : List Operator) (filter : Filter)
    (program : Program) (cs : List Candidate) :
    (operators.Sublist operators' →
      ((discover operators filter program cs).map Point.replacement).Sublist
        ((discover operators' filter program cs).map Point.replacement)) ∧
    (operators.Perm operators' →
      ((discover operators filter program cs).map Point.replacement).Perm
        ((discover operators' filter program cs).map Point.replacement)) := by
  constructor
  · intro h
    refine discover_related (R := List.Sublist) (List.Sublist.refl _) List.Sublist.append
      fun i g => ?_
    exact ((h.filter filter.allowsOperator).flatMap _).map g
  · intro h
    refine discover_related (R := List.Perm) (List.Perm.refl _) List.Perm.append fun i g => ?_
    exact ((h.filter filter.allowsOperator).flatMap_right _).map g

/-- With an operator in front of it the replacement of the sum is found again, under another
number. -/
theorem discover_more_operators_namesakes :
    ((discover [.addToSub] .acceptAll namesakes (candidates namesakes)).map
        Point.replacement).Sublist
      ((discover [.noMutation, .addToSub] .acceptAll namesakes (candidates namesakes)).map
        Point.replacement) ∧
    ((discover [.noMutation, .addToSub] .acceptAll namesakes (candidates namesakes)).map
        Point.replacement).Perm
      ((discover [.addToSub, .noMutation] .acceptAll namesakes (candidates namesakes)).map
        Point.replacement) ∧
    (discover [.addToSub] .acceptAll namesakes (candidates namesakes)).map Point.index = [0, 0] ∧
    (discover [.noMutation, .addToSub] .acceptAll namesakes (candidates namesakes)).map
      (fun p => (p.operator, p.index)) =
        [(.noMutation, 0), (.addToSub, 1), (.noMutation, 0), (.addToSub, 1)] :=
  ⟨(discover_more_operators _ _ _ _ _).1 (List.sublist_cons_self _ _),
    (discover_more_operators _ _ _ _ _).2 (List.Perm.swap _ _ _), by decide +kernel,
    by decide +kernel⟩

end MutantGate
