import Mathlib.Data.List.Nodup
import MutantGate.Mutation.Discovery
import MutantGate.Proofs.FreshNames
/-!
# Names of mutants

The name of a mutant is made of six parts with a colon between them.  The id of an operator
and a number have no colon in them, so the parts can be told from each other as long as at
most one of the others is unknown: in one module the name says in which function a point is,
at which place, and which of the points there it is.  So no two points that are found have
the same name.

## What is proved

`identify_inj` for two names of one module, and from it `discover_identifiers_nodup`: the points
that are found in a module whose functions have different names have different names, whatever these
names are and whatever characters are in them.

## What is left outside

Names of points in two modules, which can be the same; `Proofs.FoundPoints` has an example of it.
-/

namespace MutantGate

/-! ## Parts of a name -/

section Parts

variable {α : Type} {a : α} {xs ys us vs : List α}

/-- What stands before the first occurrence of an element, and what stands behind it. -/
theorem eq_of_append_cons_of_first (hx : a ∉ xs) (hy : a ∉ ys)
    (h : xs ++ a :: us = ys ++ a :: vs) : xs = ys ∧ us = vs := by
  induction xs generalizing ys with
  | nil =>
      cases ys with
      | nil => exact ⟨rfl, (List.cons.inj h).2⟩
      | cons y ys => exact absurd (List.cons.inj h).1 (List.ne_of_not_mem_cons hy)
  | cons x xs ih =>
      cases ys with
      | nil => exact absurd (List.cons.inj h).1.symm (List.ne_of_not_mem_cons hx)
      | cons y ys =>
          obtain ⟨rfl, hrest⟩ := List.cons.inj h
          obtain ⟨rfl, rfl⟩ := ih (List.not_mem_of_not_mem_cons hx)
            (List.not_mem_of_not_mem_cons hy) hrest
          exact ⟨rfl, rfl⟩

/-- What stands behind the last occurrence of an element, and what stands before it. -/
theorem eq_of_append_cons_of_last (hu : a ∉ us) (hv : a ∉ vs)
    (h : xs ++ a :: us = ys ++ a :: vs) : xs = ys ∧ us = vs := by
  have hreverse := congrArg List.reverse h
  rw [List.reverse_append, List.reverse_append, List.reverse_cons, List.reverse_cons,
    List.append_assoc, List.append_assoc, List.singleton_append, List.singleton_append] at hreverse
  obtain ⟨hbehind, hbefore⟩ := eq_of_append_cons_of_first (by rwa [List.mem_reverse])
    (by rwa [List.mem_reverse]) hreverse
  exact ⟨List.reverse_injective hbefore, List.reverse_injective hbehind⟩

end Parts

theorem colon_notMem_repr (n : Nat) : ':' ∉ (Nat.repr n).toList := by
  intro h
  have hdigit : ':'.isDigit = true := by
    refine Nat.isDigit_of_mem_toDigits (b := 10) (n := n) (by decide) (by decide) ?_
    simpa [Nat.repr] using h
  exact absurd hdigit (by decide)

theorem Operator.colon_notMem_id (o : Operator) : ':' ∉ o.id.toList := by
  cases o <;> decide +kernel

namespace Point

/-- The parts of a name. -/
theorem identify_toList (o : Operator) (module function : String) (l : Location) (index : Nat) :
    (identify o module function l index).toList =
      (((o.id.toList ++ ':' :: (module.toList ++ ':' :: function.toList))
        ++ ':' :: (Nat.repr l.block).toList) ++ ':' :: (Nat.repr l.instruction).toList)
        ++ ':' :: (Nat.repr index).toList := by
  simp [identify, toString]

/-- In one module the name of a point says what it is a name of. -/
theorem identify_inj {o o' : Operator} {module function function' : String} {l l' : Location}
    {index index' : Nat}
    (h : identify o module function l index = identify o' module function' l' index') :
    o.id = o'.id ∧ function = function' ∧ l.block = l'.block ∧ l.instruction = l'.instruction ∧
      index = index' := by
  have hparts := congrArg String.toList h
  rw [identify_toList, identify_toList] at hparts
  obtain ⟨hparts, hindex⟩ :=
    eq_of_append_cons_of_last (colon_notMem_repr _) (colon_notMem_repr _) hparts
  obtain ⟨hparts, hinstruction⟩ :=
    eq_of_append_cons_of_last (colon_notMem_repr _) (colon_notMem_repr _) hparts
  obtain ⟨hparts, hblock⟩ :=
    eq_of_append_cons_of_last (colon_notMem_repr _) (colon_notMem_repr _) hparts
  -- The names of modules and functions may have colons in them; the one of the module is known.
  obtain ⟨hid, hparts⟩ :=
    eq_of_append_cons_of_first o.colon_notMem_id o'.colon_notMem_id hparts
  have hfunction := (List.cons.inj (List.append_cancel_left hparts)).2
  exact ⟨String.toList_inj.mp hid, String.toList_inj.mp hfunction,
    repr_toList_inj hblock, repr_toList_inj hinstruction, repr_toList_inj hindex⟩

end Point

/-! ## Points that are found -/

section Found

variable {operators : List Operator} {filter : Filter} {program : Program} {l : LoadedModule}
  {p : Point}

/-- A point is in a function of a module, at an instruction for which its operator offers the
replacement, and has the name that follows from that. -/
structure Point.FoundIn (l : LoadedModule) (p : Point) (f : Function) (i : Instruction) :
    Prop where
  module : p.module = l.id
  function : l.module.functions[p.location.function]? = some f
  instruction : f.instruction? p.location.block p.location.instruction = some i
  variant : p.variant < p.operator.replacementCount i
  identifier : p.identifier =
    Point.identify p.operator l.identifier f.name p.location p.index

theorem Function.mem_instructions {f : Function} {block index : Nat} {i : Instruction} :
    (block, index, i) ∈ f.instructions ↔ f.instruction? block index = some i := by
  rw [Function.instructions, Function.instruction?, List.mem_flatMap, Option.bind_eq_some_iff]
  constructor
  · rintro ⟨⟨b, block'⟩, hb, hi⟩
    obtain ⟨⟨j, index'⟩, hj, heq⟩ := List.mem_map.mp hi
    cases heq
    exact ⟨b, List.mem_zipIdx_iff_getElem?.mp hb, List.mem_zipIdx_iff_getElem?.mp hj⟩
  · rintro ⟨b, hb, hi⟩
    exact ⟨(b, block), List.mem_zipIdx_iff_getElem?.mpr hb,
      List.mem_map.mpr ⟨(i, index), List.mem_zipIdx_iff_getElem?.mpr hi, rfl⟩⟩

/-- An operator that is asked for and allowed is there with each replacement it offers. -/
theorem mem_choices {i : Instruction} {o : Operator} {variant : Nat} :
    (o, variant) ∈ choices operators filter i ↔
      o ∈ operators ∧ filter.allowsOperator o = true ∧ variant < o.replacementCount i := by
  rw [choices, List.mem_flatMap]
  constructor
  · rintro ⟨o', ho', h⟩
    obtain ⟨variant', hvariant, heq⟩ := List.mem_map.mp h
    cases heq
    obtain ⟨ho, hallowed⟩ := List.mem_filter.mp ho'
    exact ⟨ho, hallowed, List.mem_range.mp hvariant⟩
  · rintro ⟨ho, hallowed, hvariant⟩
    exact ⟨o, List.mem_filter.mpr ⟨ho, hallowed⟩,
      List.mem_map.mpr ⟨variant, List.mem_range.mpr hvariant, rfl⟩⟩

/-- The number of a point is the place of its replacement among the choices. -/
theorem mem_instructionPoints {name : String} {location : Location} {i : Instruction} :
    p ∈ instructionPoints operators filter l name location i ↔
      filter.allowsInstruction i = true ∧
        (choices operators filter i)[p.index]? = some (p.operator, p.variant) ∧
        p = Point.ofMatch l.id l.identifier name location p.operator p.index p.variant := by
  unfold instructionPoints
  split
  · rename_i hallowed
    rw [and_iff_right hallowed, List.mem_map]
    constructor
    · rintro ⟨⟨⟨o, variant⟩, index⟩, hmem, rfl⟩
      exact ⟨List.mem_zipIdx_iff_getElem?.mp hmem, rfl⟩
    · rintro ⟨hchoice, hp⟩
      exact ⟨((p.operator, p.variant), p.index), List.mem_zipIdx_iff_getElem?.mpr hchoice, hp.symm⟩
  · rename_i hallowed
    exact ⟨nofun, fun h => absurd h.1 hallowed⟩

/-- The points of a function are those of its instructions. -/
theorem mem_functionPoints {index : Nat} {f : Function} :
    p ∈ functionPoints operators filter l index f ↔
      filter.allowsFunction f = true ∧ p.location.function = index ∧
        ∃ i, f.instruction? p.location.block p.location.instruction = some i ∧
          p ∈ instructionPoints operators filter l f.name p.location i := by
  unfold functionPoints
  split
  · rename_i hallowed
    rw [and_iff_right hallowed, List.mem_flatMap]
    constructor
    · rintro ⟨⟨block, instruction, i⟩, hi, hp⟩
      have hlocation : p.location = ⟨index, block, instruction⟩ :=
        congrArg Point.location (mem_instructionPoints.mp hp).2.2
      rw [hlocation]
      exact ⟨rfl, i, Function.mem_instructions.mp hi, hp⟩
    · rintro ⟨rfl, i, hi, hp⟩
      exact ⟨(p.location.block, p.location.instruction, i), Function.mem_instructions.mpr hi, hp⟩
  · rename_i hallowed
    exact ⟨nofun, fun h => absurd h.1 hallowed⟩

theorem candidatePoints_eq {c : Candidate} {f : Function}
    (hl : program.module? c.function.module = some l)
    (hf : l.module.functions[c.function.function]? = some f) :
    candidatePoints operators filter program c =
      functionPoints operators filter l c.function.function f := by
  simp only [candidatePoints, hl, hf]

/-- The points of a candidate are those of the function it leads to. -/
theorem mem_candidatePoints {c : Candidate} :
    p ∈ candidatePoints operators filter program c ↔
      p.function = c.function ∧ ∃ l f, program.module? p.module = some l ∧
        l.module.functions[p.location.function]? = some f ∧
        p ∈ functionPoints operators filter l p.location.function f := by
  constructor
  · intro h
    unfold candidatePoints at h
    split at h
    · cases h
    · rename_i l hl
      split at h
      · cases h
      · rename_i f hf
        obtain ⟨-, hindex, i, -, hp⟩ := mem_functionPoints.mp h
        have hmodule : p.module = l.id := congrArg Point.module (mem_instructionPoints.mp hp).2.2
        have hid : l.id = c.function.module := by simpa using List.find?_some hl
        rw [Point.function, hindex, hmodule, hid]
        exact ⟨rfl, l, f, hl, hf, h⟩
  · rintro ⟨hfunction, l, f, hl, hf, hp⟩
    obtain ⟨r, test, weight⟩ := c
    obtain rfl : p.function = r := hfunction
    rw [candidatePoints_eq hl hf]
    exact hp

theorem mem_discover_found {cs : List Candidate} (h : p ∈ discover operators filter program cs) :
    ∃ l f i, program.module? p.module = some l ∧ p.FoundIn l f i := by
  obtain ⟨c, -, hp⟩ := List.mem_flatMap.mp h
  obtain ⟨-, l, f, hl, hf, hp⟩ := mem_candidatePoints.mp hp
  obtain ⟨-, -, i, hi, hp⟩ := mem_functionPoints.mp hp
  obtain ⟨-, hchoice, hmatch⟩ := mem_instructionPoints.mp hp
  obtain ⟨-, -, hvariant⟩ := mem_choices.mp (List.mem_of_getElem? hchoice)
  exact ⟨l, f, i, hl, congrArg Point.module hmatch, hf, hi, hvariant,
    congrArg Point.identifier hmatch⟩

/-- In a program of one module all points are found in that module. -/
theorem foundIn_of_mem_discover {cs : List Candidate} (hmodules : program.modules = [l]) :
    ∀ p ∈ discover operators filter program cs, ∃ f i, p.FoundIn l f i := by
  intro p hp
  obtain ⟨l₀, f, i, hl₀, hp⟩ := mem_discover_found hp
  have hmem := List.mem_of_find?_eq_some hl₀
  rw [hmodules, List.mem_singleton] at hmem
  subst hmem
  exact ⟨f, i, hp⟩

end Found

/-! ## No two points have the same name -/

/-- What tells points apart: module, place, and number at that place. -/
def Point.site (p : Point) : ModuleId × Location × Nat := (p.module, p.location, p.index)

/-- Lists put one behind the other have no key twice if each has none, and the keys say which
of the lists they come from. -/
theorem nodup_map_flatMap {α β κ σ : Type} {xs : List α} {g : α → List β} {part : α → κ}
    {key : β → σ} (origin : σ → κ) (hxs : (xs.map part).Nodup)
    (horigin : ∀ x ∈ xs, ∀ b ∈ g x, origin (key b) = part x)
    (hg : ∀ x ∈ xs, ((g x).map key).Nodup) : ((xs.flatMap g).map key).Nodup := by
  rw [List.map_flatMap, List.nodup_flatMap]
  refine ⟨hg, (List.pairwise_map.mp hxs).imp_of_mem fun hx hy hne s hs ht => ?_⟩
  obtain ⟨b, hb, rfl⟩ := List.mem_map.mp hs
  obtain ⟨b', hb', heq⟩ := List.mem_map.mp ht
  exact hne ((horigin _ hx b hb).symm.trans (heq ▸ horigin _ hy b' hb'))

section Distinct

variable {operators : List Operator} {filter : Filter} {program : Program} {l : LoadedModule}

theorem nodup_zipIdx_snd {α : Type} (xs : List α) : (xs.zipIdx.map Prod.snd).Nodup := by
  rw [List.zipIdx_map_snd]
  exact List.nodup_range'

theorem Function.instructions_nodup (f : Function) :
    (f.instructions.map fun x => (x.1, x.2.1)).Nodup := by
  refine nodup_map_flatMap Prod.fst (nodup_zipIdx_snd f.blocks) (fun x _ y hy => ?_)
    fun x _ => ?_
  · obtain ⟨z, -, rfl⟩ := List.mem_map.mp hy
    rfl
  · rw [List.map_map]
    refine List.Nodup.of_map Prod.snd ?_
    rw [List.map_map]
    exact nodup_zipIdx_snd x.1

theorem instructionPoints_nodup (name : String) (location : Location) (i : Instruction) :
    ((instructionPoints operators filter l name location i).map Point.site).Nodup := by
  unfold instructionPoints
  split
  · refine List.Nodup.of_map (fun s => s.2.2) ?_
    rw [List.map_map, List.map_map]
    exact nodup_zipIdx_snd _
  · exact List.nodup_nil

theorem functionPoints_nodup (index : Nat) (f : Function) :
    ((functionPoints operators filter l index f).map Point.site).Nodup := by
  unfold functionPoints
  split
  · refine nodup_map_flatMap (fun s => (s.2.1.block, s.2.1.instruction)) f.instructions_nodup
      (fun x _ p hp => ?_) fun x _ => instructionPoints_nodup _ _ _
    have hlocation := congrArg Point.location (mem_instructionPoints.mp hp).2.2
    simp only [Point.site, hlocation, Point.ofMatch]
  · exact List.nodup_nil

theorem candidatePoints_nodup (c : Candidate) :
    ((candidatePoints operators filter program c).map Point.site).Nodup := by
  unfold candidatePoints
  split
  · exact List.nodup_nil
  · split
    · exact List.nodup_nil
    · exact functionPoints_nodup _ _

theorem discover_nodup {cs : List Candidate} (hcs : (cs.map Candidate.function).Nodup) :
    ((discover operators filter program cs).map Point.site).Nodup := by
  refine nodup_map_flatMap (fun s => (⟨s.1, s.2.1.function⟩ : FunctionRef)) hcs
    (fun c _ p hp => ?_) fun c _ => candidatePoints_nodup c
  exact (mem_candidatePoints.mp hp).1

theorem candidates_nodup (hids : (program.modules.map LoadedModule.id).Nodup) :
    ((candidates program).map Candidate.function).Nodup := by
  refine nodup_map_flatMap FunctionRef.module hids (fun l _ c hc => ?_) fun l _ => ?_
  · obtain ⟨g, -, rfl⟩ := List.mem_map.mp hc
    rfl
  · refine List.Nodup.of_map FunctionRef.function ?_
    rw [List.map_map, List.map_map]
    simpa [Function.comp_def, Candidate.of] using List.nodup_range

/-- The name of a function leads to it. -/
theorem Module.function_index_inj {m : Module}
    (hnames : (m.functions.map Function.name).Nodup) {k n : Nat} {f g : Function}
    (hf : m.functions[k]? = some f) (hg : m.functions[n]? = some g) (h : f.name = g.name) :
    k = n := by
  have hk : k < (m.functions.map Function.name).length := by
    simpa using (List.getElem?_eq_some_iff.mp hf).1
  refine (List.getElem?_inj hk hnames).mp ?_
  rw [List.getElem?_map, List.getElem?_map, hf, hg, Option.map_some, Option.map_some, h]

attribute [ext] Location

/-- The number of a module leads to it. -/
theorem Program.eq_of_module? (hids : (program.modules.map LoadedModule.id).Nodup)
    (hl : l ∈ program.modules) {l₀ : LoadedModule} (h : program.module? l.id = some l₀) :
    l₀ = l := by
  have hid : l₀.id = l.id := by simpa using List.find?_some h
  exact List.inj_on_of_nodup_map hids (List.mem_of_find?_eq_some h) hl hid

/-- In a module whose functions have different names, points that are found have different
names. -/
theorem discover_identifiers_nodup {cs : List Candidate}
    (hcs : (cs.map Candidate.function).Nodup)
    (hids : (program.modules.map LoadedModule.id).Nodup) (hl : l ∈ program.modules)
    (hnames : (l.module.functions.map Function.name).Nodup) :
    (((discover operators filter program cs).filter fun p => p.module == l.id).map
      Point.identifier).Nodup := by
  have hfound : ∀ p ∈ (discover operators filter program cs).filter fun p => p.module == l.id,
      ∃ f i, p.FoundIn l f i := by
    intro p hp
    obtain ⟨hp, hmodule⟩ := List.mem_filter.mp hp
    obtain ⟨l₀, f, i, hl₀, hp⟩ := mem_discover_found hp
    rw [beq_iff_eq.mp hmodule] at hl₀
    exact ⟨f, i, Program.eq_of_module? hids hl hl₀ ▸ hp⟩
  have hsites : (((discover operators filter program cs).filter fun p => p.module == l.id).map
      Point.site).Nodup := (discover_nodup hcs).sublist (List.filter_sublist.map _)
  refine List.pairwise_map.mpr ((List.pairwise_map.mp hsites).imp_of_mem ?_)
  intro p q hp hq hne hname
  obtain ⟨f, i, hp⟩ := hfound p hp
  obtain ⟨g, j, hq⟩ := hfound q hq
  rw [hp.identifier, hq.identifier] at hname
  obtain ⟨-, hfunction, hblock, hinstruction, hindex⟩ := Point.identify_inj hname
  have hplace : p.location.function = q.location.function :=
    Module.function_index_inj hnames hp.function hq.function hfunction
  have hlocation : p.location = q.location := Location.ext hplace hblock hinstruction
  exact hne (by rw [Point.site, Point.site, hp.module, hq.module, hlocation, hindex])

/-- In a program of one module these are all points. -/
theorem discover_single_identifiers_nodup (hmodules : program.modules = [l])
    (hnames : (l.module.functions.map Function.name).Nodup) :
    ((discover operators filter program (candidates program)).map Point.identifier).Nodup := by
  have hids : (program.modules.map LoadedModule.id).Nodup := by
    rw [hmodules]
    exact List.nodup_singleton _
  have hall : (discover operators filter program (candidates program)).filter
      (fun p => p.module == l.id) = discover operators filter program (candidates program) := by
    refine List.filter_eq_self.mpr fun p hp => beq_iff_eq.mpr ?_
    obtain ⟨f, i, hp⟩ := foundIn_of_mem_discover hmodules p hp
    exact hp.module
  rw [← hall]
  exact discover_identifiers_nodup (candidates_nodup hids) hids
    (hmodules ▸ List.mem_singleton_self l) hnames

end Distinct

end MutantGate
