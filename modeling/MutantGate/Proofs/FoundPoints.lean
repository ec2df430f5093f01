import MutantGate.Proofs.ModuleIndependence
/-!
# What a search finds

A search goes through modules, functions, blocks, instructions, operators and their replacements,
each in its order, and passes over what is not allowed.  What it finds is therefore all that is
offered, each replacement once, in the order of the places from the module down to the variant;
and a point carries the number of points before it at the same instruction.  These properties say
what is found completely: no other list of points has them.

Each of the three enumerations (functions of a program, instructions of a function, choices at an
instruction) puts lists one behind the other.  So the order is carried from one to the next by one
lemma on such lists, and so is the fact that what is found at one place comes from one part.

Modules are told apart by their numbers.  A program to which modules are added has no number twice
(`Program.Built.ids_nodup`), and making mutants leaves the numbers as they are.

## What is proved

`CanonicalPoints` says of a list of points what it has to be: the right points, in the right order,
under the right numbers and names.  The search gives such a list for every program whose modules
have different numbers and every list of different operators, with any filter, and no other list is
one.  In a module whose functions have different names, no two points have the same name, and this
also holds if operators are asked for twice.

## What is left outside

Names across modules: two modules may have the same identifier, and then their points may have the
same names.  Whether a found point can be isolated and applied is the matter of
`Proofs.MutationSuccess`.
-/

namespace MutantGate

/-! ## Lists put one behind the other -/

section Levels

variable {α β κ : Type}

theorem singleton_lt_singleton {a b : Nat} : [a] < [b] ↔ a < b := by
  rw [List.cons_lt_cons_iff]
  exact or_iff_left fun h => absurd h.2 (List.not_lt_nil _)

/-- Lists of one length are compared before what stands behind them. -/
theorem append_lt_append_of_length_eq {xs ys us vs : List Nat} (hlength : xs.length = ys.length)
    (h : xs < ys) : xs ++ us < ys ++ vs := by
  induction xs generalizing ys with
  | nil =>
      cases ys with
      | nil => exact absurd h (List.not_lt_nil _)
      | cons y ys => cases hlength
  | cons x xs ih =>
      cases ys with
      | nil => cases hlength
      | cons y ys =>
          rw [List.cons_lt_cons_iff] at h
          rw [List.cons_append, List.cons_append, List.cons_lt_cons_iff]
          rcases h with hxy | ⟨rfl, hrest⟩
          · exact Or.inl hxy
          · exact Or.inr ⟨rfl, ih (Nat.succ.inj hlength) hrest⟩

/-- If the parts come in the order of their heads, and each part is in the order of what stands
behind the head, all of it is in order. -/
theorem pairwise_flatMap_lt {xs : List α} {g : α → List β} {key : β → List Nat}
    (head : α → List Nat) (tail : β → List Nat) (hxs : xs.Pairwise fun a b => head a < head b)
    (hlength : ∀ a ∈ xs, ∀ b ∈ xs, (head a).length = (head b).length)
    (hkey : ∀ a ∈ xs, ∀ b ∈ g a, key b = head a ++ tail b)
    (hg : ∀ a ∈ xs, (g a).Pairwise fun b c => tail b < tail c) :
    (xs.flatMap g).Pairwise fun b c => key b < key c := by
  refine List.pairwise_flatMap.mpr ⟨fun a ha => ?_, ?_⟩
  · refine (hg a ha).imp_of_mem fun hb hc hlt => ?_
    rw [hkey a ha _ hb, hkey a ha _ hc]
    exact List.append_left_lt hlt
  · refine hxs.imp_of_mem fun ha ha' hlt b hb c hc => ?_
    rw [hkey _ ha b hb, hkey _ ha' c hc]
    exact append_lt_append_of_length_eq (hlength _ ha _ ha') hlt

/-- The elements of a list without repetition come in the order of their places in it. -/
theorem pairwise_idxOf_lt [BEq α] [LawfulBEq α] {xs : List α} (h : xs.Nodup) :
    xs.Pairwise fun a b => xs.idxOf a < xs.idxOf b := by
  refine List.pairwise_iff_getElem.mpr fun i j hi hj hij => ?_
  rw [h.idxOf_getElem i hi, h.idxOf_getElem j hj]
  exact hij

theorem zipIdx_ascending (xs : List α) : xs.zipIdx.Pairwise fun a b => [a.2] < [b.2] := by
  have hindices : (xs.zipIdx.map Prod.snd).Pairwise (· < ·) := by
    rw [List.zipIdx_map_snd]
    exact List.pairwise_lt_range' 1
  exact (List.pairwise_map.mp hindices).imp singleton_lt_singleton.mpr

/-- If the elements of each part say which part they are from, and no two parts say the same,
picking out by origin gives a part back. -/
theorem filter_flatMap_of_origin [DecidableEq κ] {xs : List α} {g : α → List β} {origin : β → κ}
    (part : α → κ) (hxs : (xs.map part).Nodup)
    (horigin : ∀ a ∈ xs, ∀ b ∈ g a, origin b = part a) {a : α} (ha : a ∈ xs) :
    (xs.flatMap g).filter (fun b => origin b = part a) = g a := by
  induction xs with
  | nil => cases ha
  | cons x xs ih =>
      obtain ⟨hx, hxs⟩ := List.nodup_cons.mp hxs
      rw [List.flatMap_cons, List.filter_append]
      rcases List.mem_cons.mp ha with rfl | ha
      · have hown : (g a).filter (fun b => origin b = part a) = g a :=
          List.filter_eq_self.mpr fun b hb =>
            decide_eq_true (horigin a List.mem_cons_self b hb)
        have hothers : (xs.flatMap g).filter (fun b => origin b = part a) = [] := by
          refine List.filter_eq_nil_iff.mpr fun b hb heq => hx ?_
          obtain ⟨a', ha', hb⟩ := List.mem_flatMap.mp hb
          rw [← of_decide_eq_true heq, horigin a' (List.mem_cons_of_mem _ ha') b hb]
          exact List.mem_map_of_mem ha'
        rw [hown, hothers, List.append_nil]
      · have hfirst : (g x).filter (fun b => origin b = part a) = [] := by
          refine List.filter_eq_nil_iff.mpr fun b hb heq => hx ?_
          rw [← horigin x List.mem_cons_self b hb, of_decide_eq_true heq]
          exact List.mem_map_of_mem ha
        rw [hfirst, List.nil_append]
        exact ih hxs (fun a' ha' => horigin a' (List.mem_cons_of_mem _ ha')) ha

end Levels

/-! ## What is offered -/

/-- What a point does, without its number and its name: one replacement at one place. -/
structure Replacement where
  module : ModuleId
  location : Location
  operator : Operator
  /-- The number of the replacement among those its operator offers. -/
  variant : Nat
  deriving DecidableEq

/-- What a point does. -/
def Point.replacement (p : Point) : Replacement := ⟨p.module, p.location, p.operator, p.variant⟩

section Found

variable {operators : List Operator} {filter : Filter} {program : Program} {l : LoadedModule}
  {p : Point}

/-- A replacement is offered: its function and its instruction are there, its operator is asked
for and has that many replacements for the instruction, and all three are allowed. -/
structure Replacement.OfferedIn (operators : List Operator) (filter : Filter) (l : LoadedModule)
    (f : Function) (i : Instruction) (r : Replacement) : Prop where
  module : r.module = l.id
  function : l.module.functions[r.location.function]? = some f
  instruction : f.instruction? r.location.block r.location.instruction = some i
  requested : r.operator ∈ operators
  variant : r.variant < r.operator.replacementCount i
  allowsFunction : filter.allowsFunction f = true
  allowsInstruction : filter.allowsInstruction i = true
  allowsOperator : filter.allowsOperator r.operator = true

/-- A replacement is offered somewhere in a program. -/
def Replacement.Offered (operators : List Operator) (filter : Filter) (program : Program)
    (r : Replacement) : Prop :=
  ∃ l ∈ program.modules, ∃ f i, r.OfferedIn operators filter l f i

/-- The candidates are the functions that are there. -/
theorem mem_candidates {r : FunctionRef} :
    r ∈ (candidates program).map Candidate.function ↔
      ∃ l ∈ program.modules, l.id = r.module ∧ r.function < l.module.functions.length := by
  obtain ⟨id, function⟩ := r
  rw [candidates, List.map_flatMap, List.mem_flatMap]
  refine exists_congr fun l => and_congr_right fun _ => ?_
  rw [List.map_map, List.mem_map]
  constructor
  · rintro ⟨n, hn, hr⟩
    cases hr
    exact ⟨rfl, List.mem_range.mp hn⟩
  · rintro ⟨rfl, hn⟩
    exact ⟨function, List.mem_range.mpr hn, rfl⟩

/-- A point is found exactly if it stands, under the name that follows from it, for a replacement
that is allowed, and its number is the place of that replacement among the choices. -/
theorem mem_discover (hids : program.ids.Nodup) :
    p ∈ discover operators filter program (candidates program) ↔
      ∃ l ∈ program.modules, ∃ f i, p.FoundIn l f i ∧ filter.allowsFunction f = true ∧
        filter.allowsInstruction i = true ∧
        (choices operators filter i)[p.index]? = some (p.operator, p.variant) := by
  rw [discover, List.mem_flatMap]
  constructor
  · rintro ⟨c, -, hp⟩
    obtain ⟨-, l, f, hl, hf, hp⟩ := mem_candidatePoints.mp hp
    obtain ⟨hfunction, -, i, hi, hp⟩ := mem_functionPoints.mp hp
    obtain ⟨hinstruction, hchoice, hmatch⟩ := mem_instructionPoints.mp hp
    obtain ⟨-, -, hvariant⟩ := mem_choices.mp (List.mem_of_getElem? hchoice)
    exact ⟨l, List.mem_of_find?_eq_some hl, f, i, ⟨congrArg Point.module hmatch, hf, hi, hvariant,
      congrArg Point.identifier hmatch⟩, hfunction, hinstruction, hchoice⟩
  · rintro ⟨l, hl, f, i, hp, hfunction, hinstruction, hchoice⟩
    have hcandidate : p.function ∈ (candidates program).map Candidate.function :=
      mem_candidates.mpr ⟨l, hl, hp.module.symm, (List.getElem?_eq_some_iff.mp hp.function).1⟩
    obtain ⟨c, hc, hfound⟩ := List.mem_map.mp hcandidate
    refine ⟨c, hc, mem_candidatePoints.mpr ⟨hfound.symm, l, f, ?_, hp.function, ?_⟩⟩
    · exact (Program.module?_eq_some_iff hids).mpr ⟨hl, hp.module.symm⟩
    · refine mem_functionPoints.mpr ⟨hfunction, rfl, i, hp.instruction, ?_⟩
      refine mem_instructionPoints.mpr ⟨hinstruction, hchoice, ?_⟩
      rw [Point.ofMatch, ← hp.module, ← hp.identifier]

/-- What is found is what is offered. -/
theorem mem_discover_replacements (hids : program.ids.Nodup) {r : Replacement} :
    r ∈ (discover operators filter program (candidates program)).map Point.replacement ↔
      r.Offered operators filter program := by
  rw [List.mem_map]
  constructor
  · rintro ⟨p, hp, rfl⟩
    obtain ⟨l, hl, f, i, hp, hfunction, hinstruction, hchoice⟩ := (mem_discover hids).mp hp
    obtain ⟨hrequested, hoperator, hvariant⟩ := mem_choices.mp (List.mem_of_getElem? hchoice)
    exact ⟨l, hl, f, i, hp.module, hp.function, hp.instruction, hrequested, hvariant, hfunction,
      hinstruction, hoperator⟩
  · rintro ⟨l, hl, f, i, hr⟩
    obtain ⟨index, hchoice⟩ := List.mem_iff_getElem?.mp
      (mem_choices.mpr ⟨hr.requested, hr.allowsOperator, hr.variant⟩)
    refine ⟨.ofMatch l.id l.identifier f.name r.location r.operator index r.variant,
      (mem_discover hids).mpr ⟨l, hl, f, i, ⟨rfl, hr.function, hr.instruction, hr.variant, rfl⟩,
        hr.allowsFunction, hr.allowsInstruction, hchoice⟩, ?_⟩
    obtain ⟨id, location, operator, variant⟩ := r
    obtain rfl : id = l.id := hr.module
    rfl

/-! ## The order -/

/-- The place of a replacement in a search, from the module to the variant. -/
def Replacement.rank (program : Program) (operators : List Operator) (r : Replacement) :
    List Nat :=
  [program.ids.idxOf r.module, r.location.function, r.location.block, r.location.instruction,
    operators.idxOf r.operator, r.variant]

/-- The place of a point among those at its instruction. -/
def Point.rankAt (operators : List Operator) (p : Point) : List Nat :=
  [operators.idxOf p.operator, p.variant]

/-- The place of a point among those in its function. -/
def Point.rankIn (operators : List Operator) (p : Point) : List Nat :=
  [p.location.block, p.location.instruction] ++ p.rankAt operators

theorem choices_ascending (hoperators : operators.Nodup) (filter : Filter) (i : Instruction) :
    (choices operators filter i).Pairwise fun c d =>
      [operators.idxOf c.1, c.2] < [operators.idxOf d.1, d.2] := by
  refine pairwise_flatMap_lt (fun o => [operators.idxOf o]) (fun c => [c.2]) ?_
    (fun _ _ _ _ => rfl) (fun o _ c hc => ?_) fun o _ => ?_
  · refine ((pairwise_idxOf_lt hoperators).sublist List.filter_sublist).imp fun h => ?_
    exact singleton_lt_singleton.mpr h
  · obtain ⟨variant, -, rfl⟩ := List.mem_map.mp hc
    rfl
  · refine List.pairwise_map.mpr (List.pairwise_lt_range.imp fun h => ?_)
    exact singleton_lt_singleton.mpr h

theorem Function.instructions_ascending (f : Function) :
    f.instructions.Pairwise fun x y => [x.1, x.2.1] < [y.1, y.2.1] := by
  refine pairwise_flatMap_lt (fun b => [b.2]) (fun x => [x.2.1]) ?_ (fun _ _ _ _ => rfl)
    (fun b _ x hx => ?_) fun b _ => ?_
  · exact zipIdx_ascending f.blocks
  · obtain ⟨y, -, rfl⟩ := List.mem_map.mp hx
    rfl
  · exact List.pairwise_map.mpr (zipIdx_ascending b.1)

theorem candidates_ascending (hids : program.ids.Nodup) :
    (candidates program).Pairwise fun c d =>
      [program.ids.idxOf c.function.module, c.function.function] <
        [program.ids.idxOf d.function.module, d.function.function] := by
  refine pairwise_flatMap_lt (fun l => [program.ids.idxOf l.id])
    (fun c => [c.function.function]) ?_ (fun _ _ _ _ => rfl) (fun l _ c hc => ?_) fun l _ => ?_
  · refine (List.pairwise_map.mp (pairwise_idxOf_lt hids)).imp fun h => ?_
    exact singleton_lt_singleton.mpr h
  · obtain ⟨function, -, rfl⟩ := List.mem_map.mp hc
    rfl
  · refine List.pairwise_map.mpr (List.pairwise_lt_range.imp fun h => ?_)
    exact singleton_lt_singleton.mpr h

theorem instructionPoints_ascending (hoperators : operators.Nodup) (name : String)
    (location : Location) (i : Instruction) :
    (instructionPoints operators filter l name location i).Pairwise fun p q =>
      p.rankAt operators < q.rankAt operators := by
  unfold instructionPoints
  split
  · -- The points are the choices with their places, and the order is that of the choices.
    have hchoices := choices_ascending hoperators filter i
    rw [← List.zipIdx_map_fst 0 (choices operators filter i)] at hchoices
    exact List.pairwise_map.mpr ((List.pairwise_map.mp hchoices).imp id)
  · exact List.Pairwise.nil

theorem functionPoints_ascending (hoperators : operators.Nodup) (index : Nat) (f : Function) :
    (functionPoints operators filter l index f).Pairwise fun p q =>
      p.rankIn operators < q.rankIn operators := by
  unfold functionPoints
  split
  · refine pairwise_flatMap_lt (fun x => [x.1, x.2.1]) (Point.rankAt operators)
      f.instructions_ascending (fun _ _ _ _ => rfl) (fun x _ p hp => ?_)
      fun x _ => instructionPoints_ascending hoperators _ _ _
    rw [(mem_instructionPoints.mp hp).2.2]
    rfl
  · exact List.Pairwise.nil

theorem candidatePoints_ascending (hoperators : operators.Nodup) (c : Candidate) :
    (candidatePoints operators filter program c).Pairwise fun p q =>
      p.rankIn operators < q.rankIn operators := by
  unfold candidatePoints
  split
  · exact List.Pairwise.nil
  · split
    · exact List.Pairwise.nil
    · exact functionPoints_ascending hoperators _ _

/-- Points are found in the order of the places of their replacements. -/
theorem discover_ascending (hids : program.ids.Nodup) (hoperators : operators.Nodup)
    (filter : Filter) :
    (discover operators filter program (candidates program)).Pairwise fun p q =>
      p.replacement.rank program operators < q.replacement.rank program operators := by
  refine pairwise_flatMap_lt
    (fun c => [program.ids.idxOf c.function.module, c.function.function])
    (Point.rankIn operators) (candidates_ascending hids) (fun _ _ _ _ => rfl)
    (fun c _ p hp => ?_) fun c _ => candidatePoints_ascending hoperators c
  rw [← (mem_candidatePoints.mp hp).1]
  rfl

/-! ## Numbers -/

/-- The instruction a point is at. -/
def Point.place (p : Point) : ModuleId × Location := (p.module, p.location)

theorem index_of_instructionPoints {name : String} {location : Location} {i : Instruction} {n : Nat}
    (h : (instructionPoints operators filter l name location i)[n]? = some p) : p.index = n := by
  unfold instructionPoints at h
  split at h
  · rw [List.getElem?_map, List.getElem?_zipIdx, Option.map_map, Option.map_eq_some_iff] at h
    obtain ⟨c, -, rfl⟩ := h
    exact Nat.zero_add n
  · cases h

theorem Point.place_eq_iff {q : Point} : q.place = p.place ↔
    (q.location.block, q.location.instruction) = (p.location.block, p.location.instruction) ∧
      q.function = p.function := by
  simp only [Point.place, Point.function, Prod.mk.injEq, FunctionRef.mk.injEq, Location.ext_iff]
  constructor
  · rintro ⟨hmodule, hfunction, hblock, hinstruction⟩
    exact ⟨⟨hblock, hinstruction⟩, hmodule, hfunction⟩
  · rintro ⟨⟨hblock, hinstruction⟩, hmodule, hfunction⟩
    exact ⟨hmodule, hfunction, hblock, hinstruction⟩

/-- What is found at the place of a point are the points of one instruction. -/
theorem discover_at {cs : List Candidate} (hcs : (cs.map Candidate.function).Nodup)
    (hp : p ∈ discover operators filter program cs) :
    ∃ l name i, (discover operators filter program cs).filter (fun q => q.place = p.place) =
      instructionPoints operators filter l name p.location i := by
  obtain ⟨c, hc, hp⟩ := List.mem_flatMap.mp hp
  obtain ⟨hfunction, l, f, hl, hf, hpf⟩ := mem_candidatePoints.mp hp
  obtain ⟨hallowed, -, i, hi, -⟩ := mem_functionPoints.mp hpf
  obtain ⟨r, test, weight⟩ := c
  obtain rfl : p.function = r := hfunction
  have hcandidate : (discover operators filter program cs).filter
      (fun q => q.function = p.function) =
        functionPoints operators filter l p.location.function f :=
    (filter_flatMap_of_origin Candidate.function hcs
      (fun c _ q hq => (mem_candidatePoints.mp hq).1) hc).trans (candidatePoints_eq hl hf)
  refine ⟨l, f.name, i, ?_⟩
  -- The points at a place are those of its instruction among those of its function.
  simp only [Point.place_eq_iff, Bool.decide_and]
  rw [← List.filter_filter, hcandidate, functionPoints, if_pos hallowed]
  refine filter_flatMap_of_origin (fun x => (x.1, x.2.1)) f.instructions_nodup
    (fun x _ q hq => ?_) (Function.mem_instructions.mpr hi)
  rw [(mem_instructionPoints.mp hq).2.2]
  rfl

/-- The number of a point is the number of points before it at the same place. -/
theorem index_of_discover {cs : List Candidate} (hcs : (cs.map Candidate.function).Nodup)
    {before after : List Point}
    (h : discover operators filter program cs = before ++ p :: after) :
    p.index = before.countP fun q => q.place = p.place := by
  obtain ⟨l, name, i, hat⟩ := discover_at hcs (h ▸ List.mem_append_cons_self)
  have hself : (p :: after).filter (fun q => q.place = p.place) =
      p :: after.filter fun q => q.place = p.place :=
    List.filter_cons_of_pos (decide_eq_true rfl)
  rw [h, List.filter_append, hself] at hat
  have hnumber : (instructionPoints operators filter l name p.location i)[
      (before.filter fun q => q.place = p.place).length]? = some p := by
    rw [← hat, List.getElem?_append_right (Nat.le_refl _), Nat.sub_self]
    rfl
  rw [List.countP_eq_length_filter]
  exact index_of_instructionPoints hnumber

/-! ## The result of a search -/

/-- The points of a search: each replacement that is offered stands there once and nothing else
does, in the order of their places, numbered at each instruction, each under the name that
follows from what it is. -/
structure CanonicalPoints (operators : List Operator) (filter : Filter) (program : Program)
    (points : List Point) : Prop where
  once : ∀ r : Replacement, r.Offered operators filter program →
    (points.map Point.replacement).count r = 1
  only : ∀ p ∈ points, p.replacement.Offered operators filter program
  ascending : points.Pairwise fun p q =>
    p.replacement.rank program operators < q.replacement.rank program operators
  numbered : ∀ before p after, points = before ++ p :: after →
    p.index = before.countP fun q => q.place = p.place
  named : ∀ p ∈ points, ∃ l ∈ program.modules, ∃ f i, p.FoundIn l f i

theorem replacements_nodup {points : List Point} (h : points.Pairwise fun p q =>
    p.replacement.rank program operators < q.replacement.rank program operators) :
    (points.map Point.replacement).Nodup := by
  refine List.pairwise_map.mpr (h.imp fun {p q} hlt heq => ?_)
  rw [heq] at hlt
  exact List.lt_irrefl _ hlt

theorem canonicalPoints_discover (hids : program.ids.Nodup) (hoperators : operators.Nodup)
    (filter : Filter) : CanonicalPoints operators filter program
      (discover operators filter program (candidates program)) := by
  have hascending := discover_ascending hids hoperators filter
  constructor
  case once =>
    intro r hr
    exact List.count_eq_one_of_mem (replacements_nodup hascending)
      ((mem_discover_replacements hids).mpr hr)
  case only =>
    intro p hp
    exact (mem_discover_replacements hids).mp (List.mem_map_of_mem hp)
  case ascending => exact hascending
  case numbered =>
    intro before p after h
    exact index_of_discover (candidates_nodup hids) h
  case named =>
    intro p hp
    obtain ⟨l, hl, f, i, hp, -⟩ := (mem_discover hids).mp hp
    exact ⟨l, hl, f, i, hp⟩

namespace CanonicalPoints

variable {points points' : List Point}

/-- Two lists in the same order of the same replacements are lists of the same replacements. -/
theorem replacements_eq (h : CanonicalPoints operators filter program points)
    (h' : CanonicalPoints operators filter program points') :
    points.map Point.replacement = points'.map Point.replacement := by
  have hmem : ∀ {points : List Point}, CanonicalPoints operators filter program points →
      ∀ r, r ∈ points.map Point.replacement ↔ r.Offered operators filter program := by
    intro points h r
    constructor
    · intro hr
      obtain ⟨p, hp, rfl⟩ := List.mem_map.mp hr
      exact h.only p hp
    · intro hr
      exact List.count_pos_iff.mp (h.once r hr ▸ Nat.one_pos)
  have hasymm : ∀ r s : Replacement, r ∈ points.map Point.replacement →
      s ∈ points'.map Point.replacement → r.rank program operators < s.rank program operators →
      s.rank program operators < r.rank program operators → r = s :=
    fun r s _ _ hrs hsr => absurd hsr (List.lt_asymm hrs)
  -- Both lists have what is offered, once each, and only one arrangement of it is in order.
  refine List.Perm.eq_of_pairwise hasymm (List.pairwise_map.mpr h.ascending)
    (List.pairwise_map.mpr h'.ascending) ?_
  refine (List.perm_ext_iff_of_nodup (replacements_nodup h.ascending)
    (replacements_nodup h'.ascending)).mpr fun r => ?_
  rw [hmem h, hmem h']

theorem index_eq (h : CanonicalPoints operators filter program points) {n : Nat}
    (hn : n < points.length) : points[n].index =
      ((points.map Point.replacement).take n).countP fun r =>
        (r.module, r.location) = points[n].place := by
  have hsplit : points = points.take n ++ points[n] :: points.drop (n + 1) := by
    rw [← List.drop_eq_getElem_cons hn, List.take_append_drop]
  rw [h.numbered _ _ _ hsplit, ← List.map_take, List.countP_map]
  rfl

end CanonicalPoints

attribute [ext] Point

/-- A point that is found is determined by what it does and by its number. -/
theorem Point.FoundIn.eq_of_replacement_eq (hids : program.ids.Nodup) {l' : LoadedModule}
    {f f' : Function} {i i' : Instruction} {p p' : Point} (hl : l ∈ program.modules)
    (hl' : l' ∈ program.modules) (hp : p.FoundIn l f i) (hp' : p'.FoundIn l' f' i')
    (hreplacement : p.replacement = p'.replacement) (hindex : p.index = p'.index) : p = p' := by
  obtain ⟨hmodule, hlocation, hoperator, hvariant⟩ := Replacement.mk.inj hreplacement
  obtain rfl : l = l' := List.inj_on_of_nodup_map hids hl hl'
    (hp.module.symm.trans (hmodule.trans hp'.module))
  obtain rfl : f = f' := Option.some.inj (hp.function.symm.trans (hlocation ▸ hp'.function))
  have hidentifier : p.identifier = p'.identifier := by
    rw [hp.identifier, hp'.identifier, hoperator, hlocation, hindex]
  exact Point.ext hmodule hlocation hoperator hindex hvariant hidentifier

/-- There is one list of points with these properties. -/
theorem CanonicalPoints.unique (hids : program.ids.Nodup) {points points' : List Point}
    (h : CanonicalPoints operators filter program points)
    (h' : CanonicalPoints operators filter program points') : points = points' := by
  have hreplacements := h.replacements_eq h'
  refine List.ext_getElem (by simpa using congrArg List.length hreplacements) fun n hn hn' => ?_
  have hreplacement : points[n].replacement = points'[n].replacement := by
    have hsame := congrArg (fun rs => rs[n]?) hreplacements
    simpa [hn, hn'] using hsame
  have hplace : points[n].place = points'[n].place :=
    congrArg (fun r : Replacement => (r.module, r.location)) hreplacement
  have hindex : points[n].index = points'[n].index := by
    rw [h.index_eq hn, h'.index_eq hn', hreplacements, hplace]
  obtain ⟨l, hl, f, i, hp⟩ := h.named _ (List.getElem_mem hn)
  obtain ⟨l', hl', f', i', hp'⟩ := h'.named _ (List.getElem_mem hn')
  exact hp.eq_of_replacement_eq hids hl hl' hp' hreplacement hindex

/-- The search of a program gives the canonical list of what its operators offer and its filter
allows, and that is the only one. -/
theorem discover_canonical (hids : program.ids.Nodup) (hoperators : operators.Nodup)
    (filter : Filter) :
    CanonicalPoints operators filter program
        (discover operators filter program (candidates program)) ∧
      ∀ points, CanonicalPoints operators filter program points →
        points = discover operators filter program (candidates program) := by
  have hfound := canonicalPoints_discover hids hoperators filter
  exact ⟨hfound, fun points h => h.unique hids hfound⟩

/-- Two functions of the same content, of which the name of one looks like the end of the other's
with an index in front. -/
def lookalikes : Module :=
  let r : Nat → Operand := fun n => .register ⟨n.toUInt8⟩
  let body : Block :=
    [⟨.add, some ⟨2⟩, [r 0, r 1]⟩, .const ⟨2⟩ (.int 7), ⟨.ret, none, [r 2]⟩]
  ⟨"lookalikes", [⟨"f", 2, 1, [body], .int⟩, ⟨"0:f", 2, 1, [body], .int⟩], 0, 1, []⟩

/-- A program that has this module twice; the identifiers look alike as well. -/
def lookalikeProgram : Program := ((Program.empty 1).add lookalikes "m").add lookalikes "m:0"

/-- Without the second functions, two choices at the sums and two variants at the constants are
found in both modules. -/
theorem discover_canonical_lookalikes :
    (discover [.replaceScalar, .noMutation, .addToSub] (Exclusions.mk ["0:f"] []).filter
      lookalikeProgram (candidates lookalikeProgram)).map (fun p =>
        (p.replacement.rank lookalikeProgram [.replaceScalar, .noMutation, .addToSub], p.index)) =
      [([0, 0, 0, 0, 1, 0], 0), ([0, 0, 0, 0, 2, 0], 1), ([0, 0, 0, 1, 0, 0], 0),
        ([0, 0, 0, 1, 0, 1], 1), ([1, 0, 0, 0, 1, 0], 0), ([1, 0, 0, 0, 2, 0], 1),
        ([1, 0, 0, 1, 0, 0], 0), ([1, 0, 0, 1, 0, 1], 1)] ∧
    CanonicalPoints [.replaceScalar, .noMutation, .addToSub] (Exclusions.mk ["0:f"] []).filter
      lookalikeProgram (discover [.replaceScalar, .noMutation, .addToSub]
        (Exclusions.mk ["0:f"] []).filter lookalikeProgram (candidates lookalikeProgram)) := by
  have hids : lookalikeProgram.ids.Nodup := by decide
  exact ⟨by decide +kernel, (discover_canonical hids (by decide) _).1⟩

/-! ## Names -/

/-- No operator has more than two replacements for an instruction. -/
theorem Operator.replacementCount_le (o : Operator) (i : Instruction) :
    o.replacementCount i ≤ 2 := by
  by_cases hscalar : o = .replaceScalar
  · subst hscalar
    show (withOtherValue i).length ≤ 2
    unfold withOtherValue
    split
    · rename_i v _ _
      rw [List.length_map]
      cases v <;> simp [otherValues, otherWords]
    · simp
  · exact Nat.le_succ_of_le (replacements_length_le_one hscalar i)

theorem choices_length_le (i : Instruction) :
    (choices operators filter i).length ≤ 2 * operators.length := by
  calc (choices operators filter i).length
      = ((operators.filter filter.allowsOperator).map fun o => o.replacementCount i).sum := by
        simp only [choices, List.length_flatMap, List.length_map, List.length_range]
    _ ≤ ((operators.filter filter.allowsOperator).map fun _ => 2).sum :=
        List.sum_le_sum fun o _ => o.replacementCount_le i
    _ = 2 * (operators.filter filter.allowsOperator).length := by
        rw [List.map_const', List.sum_replicate_nat, Nat.mul_comm]
    _ ≤ 2 * operators.length := Nat.mul_le_mul_left 2 (List.length_filter_le _ _)

/-- In a module whose functions have different names no two points that are found have the same
name, whatever the names of the functions and of the module are.  The numbers in these names are
below twice the number of operators that were asked for. -/
theorem discover_names_distinct (hids : program.ids.Nodup) (operators : List Operator)
    (filter : Filter) (hl : l ∈ program.modules)
    (hnames : (l.module.functions.map Function.name).Nodup) :
    ((ownPoints l.id (discover operators filter program (candidates program))).map
        Point.identifier).Nodup ∧
      ∀ p ∈ discover operators filter program (candidates program),
        p.index < 2 * operators.length := by
  refine ⟨discover_identifiers_nodup (candidates_nodup hids) hids hl hnames, fun p hp => ?_⟩
  obtain ⟨-, -, f, i, -, -, -, hchoice⟩ := (mem_discover hids).mp hp
  exact Nat.lt_of_lt_of_le (List.getElem?_eq_some_iff.mp hchoice).1 (choices_length_le i)

end Found

/-- The points of an operator that is asked for twice. -/
def lookalikePoints : List Point :=
  discover [.addToSub, .addToSub] .acceptAll lookalikeProgram (candidates lookalikeProgram)

/-- In each of the two modules that look alike all names are different; in the program they are
not. -/
theorem discover_names_distinct_lookalikes :
    ((ownPoints 0 lookalikePoints).map Point.identifier).Nodup ∧
      ((ownPoints 1 lookalikePoints).map Point.identifier).Nodup ∧
      (ownPoints 0 lookalikePoints).map Point.identifier =
        ["cxx_add_to_sub:m:f:0:0:0", "cxx_add_to_sub:m:f:0:0:1",
          "cxx_add_to_sub:m:0:f:0:0:0", "cxx_add_to_sub:m:0:f:0:0:1"] ∧
      (ownPoints 1 lookalikePoints).map Point.identifier =
        ["cxx_add_to_sub:m:0:f:0:0:0", "cxx_add_to_sub:m:0:f:0:0:1",
          "cxx_add_to_sub:m:0:0:f:0:0:0", "cxx_add_to_sub:m:0:0:f:0:0:1"] := by
  have hids : lookalikeProgram.ids.Nodup := by decide
  have hnames : (lookalikes.functions.map Function.name).Nodup := by decide +kernel
  have hfirst : ⟨0, "m", lookalikes, none, []⟩ ∈ lookalikeProgram.modules :=
    List.mem_cons_self
  have hsecond : ⟨1, "m:0", lookalikes, none, []⟩ ∈ lookalikeProgram.modules :=
    List.mem_cons_of_mem _ List.mem_cons_self
  exact ⟨(discover_names_distinct hids [.addToSub, .addToSub] .acceptAll hfirst hnames).1,
    (discover_names_distinct hids [.addToSub, .addToSub] .acceptAll hsecond hnames).1,
    by decide +kernel, by decide +kernel⟩

end MutantGate
