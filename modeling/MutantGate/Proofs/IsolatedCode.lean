import MutantGate.Proofs.IsolatedLayout
import MutantGate.Proofs.LoweredModule
/-!
# Isolation leaves the code of functions

The code of a function depends on its module only through the return types of the functions
it calls, which isolation keeps at every index, and not at all on its own name.  So a function
without points has the code it had before, and the code of a function with points is, byte for
byte, that of the untouched copy which its dispatcher falls back on.  The dispatcher itself
always has code, and the type of the function.

As all other functions that isolation appends are copies too, a module that can be lowered can
be lowered afterwards.

## What is proved

For every isolation that succeeds with points in functions of the module, well-formed or not, and
with no more than `2 ^ 32` functions afterwards: a function that had code has the same code at the
place where it is untouched, and what stands in its place has code, of the same type.  If the whole
module could be lowered, then so can the isolated one, and in the two modules of WebAssembly the
bytes of these bodies and types are the same.

## What is left outside

The code of the module as a whole, which is longer, and its exports, of which there are more.  That
the dispatcher leads to the untouched code if all switches are off is said in
`Proofs.DispatcherRuns`.
-/

namespace MutantGate

/-! ## Code in a module that grows -/

section Lowering

variable {m m' : Module}

theorem lowerCall_extends (h : m.Extends m') {i : Instruction} {c : List Wasm.Instr}
    (hc : lowerCall m i = .ok c) : lowerCall m' i = .ok c := by
  unfold lowerCall at hc ⊢
  split at hc
  · rename_i index args hops
    split at hc
    · cases hc
    · rename_i callee hcallee
      obtain ⟨callee', hcallee', hsame⟩ := h.functions _ _ hcallee
      simp only [hcallee', hsame.returns]
      exact hc
  · cases hc

theorem lowerInstruction_extends (h : m.Extends m') {selector : UInt32} {block : Nat}
    {i : Instruction} {c : List Wasm.Instr} (hc : lowerInstruction m selector block i = .ok c) :
    lowerInstruction m' selector block i = .ok c := by
  unfold lowerInstruction at hc ⊢
  -- Calls are the only instructions for which the module is looked at.
  cases hop : i.opcode <;> simp only [hop] at hc ⊢ <;> try exact hc
  case call => exact lowerCall_extends h hc

theorem lowerInstructions_extends (h : m.Extends m') {selector : UInt32} {block : Nat}
    {is : List Instruction} {c : List Wasm.Instr}
    (hc : lowerInstructions m selector block is = .ok c) :
    lowerInstructions m' selector block is = .ok c := by
  induction is generalizing c with
  | nil => exact hc
  | cons i is ih =>
      unfold lowerInstructions at hc
      split at hc
      · cases hc
      · cases hc
      · rename_i code codes hcode hcodes
        cases hc
        simp only [lowerInstructions, lowerInstruction_extends h hcode, ih hcodes]

theorem lowerBlocks_extends (h : m.Extends m') {selector : UInt32} {block : Nat}
    {bs : List Block} {c : List Wasm.Instr} (hc : lowerBlocks m selector block bs = .ok c) :
    lowerBlocks m' selector block bs = .ok c := by
  induction bs generalizing block c with
  | nil => exact hc
  | cons b bs ih =>
      unfold lowerBlocks at hc
      split at hc
      · cases hc
      · cases hc
      · rename_i code codes hcode hcodes
        cases hc
        simp only [lowerBlocks, lowerInstructions_extends h hcode, ih hcodes]

/-- The code of a function stays when its module grows. -/
theorem lowerFunction_extends (h : m.Extends m') {f : Function} {w : Wasm.Func}
    (hc : lowerFunction m f = .ok w) : lowerFunction m' f = .ok w := by
  unfold lowerFunction at hc ⊢
  cases hcode : lowerBlocks m f.selector 0 f.blocks with
  | error e => rw [hcode] at hc; cases hc
  | ok code =>
      rw [hcode] at hc
      rw [lowerBlocks_extends h hcode]
      exact hc

/-- The name of a function is not in its code. -/
theorem lowerFunction_rename (m : Module) (f : Function) (name : String) :
    lowerFunction m { f with name := name } = lowerFunction m f := rfl

theorem lowerFunction_signature {f : Function} {w : Wasm.Func} (hc : lowerFunction m f = .ok w) :
    w.params = f.params.toNat ∧ w.hasResult = (f.returns == .int) := by
  unfold lowerFunction at hc
  cases hcode : lowerBlocks m f.selector 0 f.blocks with
  | error e => rw [hcode] at hc; cases hc
  | ok code => rw [hcode] at hc; cases hc; exact ⟨rfl, rfl⟩

/-- The type of a function is written from its signature. -/
theorem lowerFunction_typeBytes {f d : Function} {w v : Wasm.Func} (hsame : f.SameSignature d)
    (hw : lowerFunction m f = .ok w) (hv : lowerFunction m' d = .ok v) :
    v.typeBytes = w.typeBytes := by
  obtain ⟨hparams, hresult⟩ := lowerFunction_signature hw
  obtain ⟨hparams', hresult'⟩ := lowerFunction_signature hv
  simp only [Wasm.Func.typeBytes, hparams, hparams', hresult, hresult', hsame.params, hsame.returns]

/-- The functions of a lowered module are those of the module, each by itself. -/
theorem lower_getElem? {options : LoweringOptions} {w : Wasm.Module}
    (hc : lower options m = .ok w) {i : Nat} {f : Function} (hf : m.functions[i]? = some f) :
    ∃ v, w.functions[i]? = some v ∧ lowerFunction m f = .ok v := by
  have hi := lowerFunctions_getElem? (lower_functions hc) i
  rw [hf] at hi
  obtain ⟨v, hv, hlower⟩ := Option.map_eq_some_iff.mp hi
  exact ⟨v, hv, hlower.symm⟩

end Lowering

/-! ## The copies -/

section Copies

variable {r r' : Reservation} {base : Nat} {owners : List (Nat × List String)}

/-- The untouched copy comes first, under the name made for it. -/
theorem isolateFunction_copy {index : Nat} {mutants : List String}
    (h : isolateFunction index mutants r = (r', .ok ())) :
    ∃ f arms, r.module.functions[index]? = some f ∧
      r'.module.functions[index]? = some (dispatcher f r.module.functions.length arms) ∧
      r'.module.functions[r.module.functions.length]? =
        some { f with name := r.module.freshName s!"{f.name}$original" } := by
  have hstep := isolateFunction_eq_ok h
  unfold isolateFunction at h
  split at h
  · cases h
  · rename_i f hf
    obtain ⟨f', hf'⟩ := hstep
    obtain rfl : f' = f := Option.some.inj (hf'.present.symm.trans hf)
    dsimp only at h
    split at h
    · cases h
    · rename_i r₂ arms hreserve
      split at h
      · cases h
      · cases h
        refine ⟨f', _, hf, hf'.dispatched, ?_⟩
        have hindex := Nat.ne_of_lt hf'.index_lt
        obtain ⟨hr₂, -⟩ := reserveAll_eq_ok hreserve
        show (r₂.module.functions.modify index _)[_]? = _
        rw [List.getElem?_modify_ne _ _ hindex,
          hr₂.kept (by simp [Module.pushCopy, Module.pushFunction])]
        simp [Module.pushCopy, Module.pushFunction]

section All

variable (hdistinct : (owners.map Prod.fst).Nodup) (howners : ∀ o ∈ owners, o.1 < base)
  (hbase : base ≤ r.module.functions.length)
  (hclones : ∀ c ∈ r.clones, c.2 < r.module.functions.length)
  (h : isolateFunctions owners r = (r', .ok ()))

include hdistinct howners hbase hclones h

/-- In the place of each function that is taken apart stands a dispatcher that falls back on the
copy with the name made for it. -/
theorem isolateFunctions_copy {o : Nat × List String} (ho : o ∈ owners) :
    ∃ f fallback arms n, r.module.functions[o.1]? = some f ∧ base ≤ fallback ∧
      r'.module.functions[o.1]? = some (dispatcher f fallback arms) ∧
      r'.module.functions[fallback]? =
        some { f with name := nameCandidate s!"{f.name}$original" n } := by
  induction owners generalizing r with
  | nil => cases ho
  | cons o₀ owners ih =>
      obtain ⟨index, mutants⟩ := o₀
      unfold isolateFunctions at h
      split at h
      · cases h
      rename_i r₁ hfirst
      obtain ⟨hindex, hdistinct⟩ := List.nodup_cons.mp hdistinct
      have howners₁ : ∀ o ∈ owners, o.1 < base :=
        fun o ho => howners o (List.mem_cons_of_mem _ ho)
      obtain ⟨f, hstep⟩ := isolateFunction_eq_ok hfirst
      have hbase₁ : base ≤ r₁.module.functions.length := by
        have hlength := hstep.functions_length
        omega
      have hclones₁ := hstep.clones_lt hclones
      rcases List.mem_cons.mp ho with rfl | ho
      -- What this step has made is not touched by the later ones.
      · have hall := isolateFunctions_eq_ok hdistinct howners₁ hbase₁ hclones₁ h
        obtain ⟨f, arms, hf, hdispatcher, hcopy⟩ := isolateFunction_copy hfirst
        obtain ⟨n, -, hn, -⟩ := r.module.freshName_spec s!"{f.name}$original"
        have hbelow : index < base := howners _ List.mem_cons_self
        refine ⟨f, r.module.functions.length, arms, n, hf, hbase, ?_, ?_⟩
        · rw [hall.others index (Nat.lt_of_lt_of_le hbelow hbase₁) hindex]
          exact hdispatcher
        · rw [← hn]
          exact hall.kept howners₁ hbase hcopy
      · obtain ⟨f, fallback, arms, n, hf, hmade⟩ :=
          ih hdistinct howners₁ hbase₁ hclones₁ h ho
        have hne : o.1 ≠ index := fun heq => hindex (List.mem_map.mpr ⟨o, ho, heq⟩)
        rw [hstep.others hne (Nat.lt_of_lt_of_le (howners₁ o ho) hbase)] at hf
        exact ⟨f, fallback, arms, n, hf, hmade⟩

end All

end Copies

/-! ## The dispatchers -/

/-- A copy can be called in the place of its function. -/
theorem Module.CopyAt.standIn {m : Module} {base index : Nat} {f : Function}
    (h : m.CopyAt base f index) (hroom : m.functions.length ≤ 2 ^ 32) : m.StandIn f index := by
  obtain ⟨s, hs⟩ := h.present
  have hlt := (List.getElem?_eq_some_iff.mp hs).1
  exact ⟨Nat.lt_of_lt_of_le hlt hroom, _, hs, rfl, rfl⟩

/-- What a dispatcher names is there, so there is code for it. -/
theorem Module.IsolatedAt.dispatched {m : Module} {clones : List (String × Nat)}
    {base index : Nat} {mutants : List String} {f : Function}
    (h : m.IsolatedAt clones base index mutants f) (hroom : m.functions.length ≤ 2 ^ 32) :
    ∃ d, m.functions[index]? = some d ∧ f.SameSignature d ∧ ∃ w, lowerFunction m d = .ok w := by
  obtain ⟨fallback, arms, hdispatcher, hcopy, -, harms⟩ := h.split
  refine ⟨_, hdispatcher, ⟨rfl, rfl⟩, lowerFunction_isOk ?_⟩
  refine dispatcher_wellFormedIn h.params (hcopy.standIn hroom) fun a ha => ?_
  obtain ⟨mutant, harm⟩ := exists_of_forall₂ harms ha
  exact ⟨harm.clone.standIn hroom, (List.getElem?_eq_some_iff.mp harm.switch).1⟩

/-- What calls and switch reads see of a module stays. -/
theorem IsolatesAll.extension {base : Nat} {owners : List (Nat × List String)}
    {r r' : Reservation} (h : IsolatesAll base owners r r') : r.module.Extends r'.module := by
  refine ⟨fun g f hf => ?_, ?_⟩
  · by_cases hg : g ∈ owners.map Prod.fst
    · obtain ⟨o, ho, rfl⟩ := List.mem_map.mp hg
      obtain ⟨f', hf', hisolated⟩ := h.isolated o ho
      obtain rfl := Option.some.inj (hf'.symm.trans hf)
      obtain ⟨fallback, arms, hdispatcher, -⟩ := hisolated.split
      exact ⟨_, hdispatcher, rfl, rfl⟩
    · exact ⟨f, (h.others g (List.getElem?_eq_some_iff.mp hf).1 hg).trans hf, .refl f⟩
  · rw [h.switches, List.length_append]
    exact Nat.le_add_right _ _

/-! ## Isolation of a module -/

namespace LoadedModule

variable {l l' : LoadedModule} {points : List Point}

/-- Where the code of a function is after isolation: in its place if the function owns no point,
and else in the copy under a name of its own which the dispatcher in its place falls back on. -/
inductive UntouchedAt (points : List Point) (l l' : LoadedModule) (i : Nat) (f : Function) :
    Nat → Function → Prop
  | unowned : pointsIn l.id points i = [] → l'.module.functions[i]? = some f →
      UntouchedAt points l l' i f i f
  | copy {fallback n : Nat} {arms : List Arm} : pointsIn l.id points i ≠ [] →
      l.module.functions.length ≤ fallback →
      l'.module.functions[i]? = some (dispatcher f fallback arms) →
      l'.module.functions[fallback]? =
        some { f with name := nameCandidate s!"{f.name}$original" n } →
      UntouchedAt points l l' i f fallback
        { f with name := nameCandidate s!"{f.name}$original" n }

theorem UntouchedAt.present {i j : Nat} {f g : Function} (h : UntouchedAt points l l' i f j g) :
    l'.module.functions[j]? = some g := by
  cases h with
  | unowned _ hf => exact hf
  | copy _ _ _ hcopy => exact hcopy

/-- The code of the untouched function is that of the function. -/
theorem UntouchedAt.code {i j : Nat} {f g : Function} (h : UntouchedAt points l l' i f j g)
    (m : Module) : lowerFunction m g = lowerFunction m f := by
  cases h with
  | unowned => rfl
  | copy => exact lowerFunction_rename m f _

section Isolated

variable (hisolate : l.isolate points = (l', .ok ()))
  (hbelow : ∀ p ∈ points, p.module = l.id → p.location.function < l.module.functions.length)

include hisolate hbelow

theorem exists_untouchedAt {i : Nat} {f : Function} (hf : l.module.functions[i]? = some f) :
    ∃ j g, UntouchedAt points l l' i f j g := by
  obtain ⟨r, hr, hall, -, rfl⟩ := isolate_loop hisolate hbelow
  by_cases hnone : pointsIn l.id points i = []
  · refine ⟨i, f, .unowned hnone ?_⟩
    exact (hall.unowned (List.getElem?_eq_some_iff.mp hf).1 hnone).trans hf
  · obtain ⟨f', fallback, arms, n, hf', hfallback, hdispatcher, hcopy⟩ :=
      isolateFunctions_copy (mutantsByFunction_distinct l.id points)
        (fun o => mutantsByFunction_below hbelow) (Nat.le_refl _)
        (fun _ hc => absurd hc List.not_mem_nil) hr
        (o := (i, (pointsIn l.id points i).map Point.identifier))
        (mem_mutantsByFunction.mpr ⟨hnone, rfl⟩)
    obtain rfl : f' = f := Option.some.inj (hf'.symm.trans hf)
    exact ⟨fallback, _, .copy hnone hfallback hdispatcher hcopy⟩

/-- What stands in the place of a function has its signature, and has code if the function has. -/
theorem exists_code_in_place (hroom : l.module.functions.length + 2 * points.length ≤ 2 ^ 32)
    {i : Nat} {f : Function} {w : Wasm.Func} (hf : l.module.functions[i]? = some f)
    (hc : lowerFunction l.module f = .ok w) :
    ∃ d v, l'.module.functions[i]? = some d ∧ f.SameSignature d ∧
      lowerFunction l'.module d = .ok v := by
  obtain ⟨r, hall, -, rfl⟩ := isolate_isolatesAll hisolate hbelow
  have hlength : r.module.functions.length ≤ 2 ^ 32 := by
    have hcount := addedFunctions_le l.id points
    have hlength := hall.length
    dsimp only at hlength
    omega
  by_cases hi : i ∈ (mutantsByFunction l.id points).map Prod.fst
  · obtain ⟨o, ho, rfl⟩ := List.mem_map.mp hi
    obtain ⟨f', hf', hisolated⟩ := hall.isolated o ho
    obtain rfl := Option.some.inj (hf'.symm.trans hf)
    obtain ⟨d, hd, hsame, v, hv⟩ := hisolated.dispatched hlength
    exact ⟨d, v, hd, hsame, hv⟩
  · refine ⟨f, w, ?_, .refl f, lowerFunction_extends hall.extension hc⟩
    exact (hall.others i (List.getElem?_eq_some_iff.mp hf).1 hi).trans hf

/-- If all functions have code, then so have all functions after isolation. -/
theorem forall_code (hroom : l.module.functions.length + 2 * points.length ≤ 2 ^ 32)
    (hc : ∀ f ∈ l.module.functions, ∃ w, lowerFunction l.module f = .ok w) :
    ∀ f ∈ l'.module.functions, ∃ w, lowerFunction l'.module f = .ok w := by
  intro f' hf'
  obtain ⟨g, hg⟩ := List.mem_iff_getElem?.mp hf'
  by_cases hlt : g < l.module.functions.length
  · have hf := List.getElem?_eq_getElem hlt
    obtain ⟨w, hw⟩ := hc _ (List.mem_of_getElem? hf)
    obtain ⟨d, v, hd, -, hv⟩ := exists_code_in_place hisolate hbelow hroom hf hw
    obtain rfl := Option.some.inj (hd.symm.trans hg)
    exact ⟨v, hv⟩
  · obtain ⟨r, hall, -, happends, rfl⟩ := isolate_appends hisolate hbelow
    obtain ⟨gs, hgs, hcopies⟩ := happends.copies
    have hnew : f' ∈ gs := by
      rw [List.drop_length, List.nil_append] at hgs
      rw [← hgs]
      refine List.mem_iff_getElem?.mpr ⟨g - l.module.functions.length, ?_⟩
      rw [List.getElem?_drop, Nat.add_sub_cancel' (Nat.le_of_not_lt hlt)]
      exact hg
    obtain ⟨c, f, hf, hcopy⟩ := exists_of_forall₂ hcopies.flip hnew
    obtain ⟨w, hw⟩ := hc f (List.mem_of_getElem? hf)
    rw [hcopy]
    exact ⟨w, lowerFunction_extends hall.extension hw⟩

end Isolated

section Code

variable (hisolate : l.isolate points = (l', .ok ()))
  (hbelow : ∀ p ∈ points, p.module = l.id → p.location.function < l.module.functions.length)
  (hroom : l.module.functions.length + 2 * points.length ≤ 2 ^ 32)

include hisolate hbelow hroom

theorem isolate_keeps_body {i : Nat} {f : Function} {w : Wasm.Func}
    (hf : l.module.functions[i]? = some f) (hw : lowerFunction l.module f = .ok w) :
    (∃ j g, UntouchedAt points l l' i f j g ∧ lowerFunction l'.module g = .ok w) ∧
      ∃ d v, l'.module.functions[i]? = some d ∧ lowerFunction l'.module d = .ok v ∧
        v.typeBytes = w.typeBytes := by
  obtain ⟨j, g, huntouched⟩ := exists_untouchedAt hisolate hbelow hf
  obtain ⟨d, v, hd, hsame, hv⟩ := exists_code_in_place hisolate hbelow hroom hf hw
  refine ⟨⟨j, g, huntouched, ?_⟩, d, v, hd, hv, lowerFunction_typeBytes hsame hw hv⟩
  obtain ⟨r, hall, -, rfl⟩ := isolate_isolatesAll hisolate hbelow
  rw [huntouched.code]
  exact lowerFunction_extends hall.extension hw

/-- Isolation does not stand in the way of lowering. -/
theorem isolate_keeps_lower {options : LoweringOptions} {w : Wasm.Module}
    (hw : lower options l.module = .ok w) : ∃ w', lower options l'.module = .ok w' := by
  obtain ⟨ws, hws⟩ := lowerFunctions_isOk_of_forall
    (forall_code hisolate hbelow hroom fun f hf => by
      obtain ⟨i, hi⟩ := List.mem_iff_getElem?.mp hf
      obtain ⟨v, -, hv⟩ := lower_getElem? hw hi
      exact ⟨v, hv⟩)
  obtain ⟨pages, hpages, -⟩ := lower_eq_ok hw
  have hmemory : memoryPages options.maxPages l'.module = .ok pages := by
    obtain ⟨r, hall, -, rfl⟩ := isolate_isolatesAll hisolate hbelow
    rw [← hpages, memoryPages, memoryPages, hall.rest]
  simp only [lower, hmemory, hws]
  exact ⟨_, rfl⟩

/-- Isolation leaves the code of functions.  If a function has code, then after isolation the
untouched function has the same code, and what stands in the place of the function has code of the
same type.  And if a module can be lowered with some options, then it can be afterwards, with the
bytes of each body where the untouched function is and the type of each function in its place. -/
theorem isolate_keeps_code :
    (∀ i f w, l.module.functions[i]? = some f → lowerFunction l.module f = .ok w →
      (∃ j g, UntouchedAt points l l' i f j g ∧ lowerFunction l'.module g = .ok w) ∧
        ∃ d v, l'.module.functions[i]? = some d ∧ lowerFunction l'.module d = .ok v ∧
          v.typeBytes = w.typeBytes) ∧
      ∀ options w, lower options l.module = .ok w → ∃ w', lower options l'.module = .ok w' ∧
        ∀ i f, l.module.functions[i]? = some f → ∃ j g, UntouchedAt points l l' i f j g ∧
          w'.functions[j]?.map Wasm.Func.codeBytes = w.functions[i]?.map Wasm.Func.codeBytes ∧
          w'.functions[i]?.map Wasm.Func.typeBytes = w.functions[i]?.map Wasm.Func.typeBytes := by
  refine ⟨fun i f w => isolate_keeps_body hisolate hbelow hroom, fun options w hw => ?_⟩
  obtain ⟨w', hw'⟩ := isolate_keeps_lower hisolate hbelow hroom hw
  refine ⟨w', hw', fun i f hf => ?_⟩
  obtain ⟨v, hv, hcode⟩ := lower_getElem? hw hf
  obtain ⟨⟨j, g, huntouched, hg⟩, d, u, hd, hu, htype⟩ :=
    isolate_keeps_body hisolate hbelow hroom hf hcode
  obtain ⟨v', hv', hcode'⟩ := lower_getElem? hw' huntouched.present
  obtain ⟨u', hu', hcode''⟩ := lower_getElem? hw' hd
  obtain rfl := Except.ok.inj (hcode'.symm.trans hg)
  obtain rfl := Except.ok.inj (hcode''.symm.trans hu)
  exact ⟨j, g, huntouched, by rw [hv', hv],
    by rw [hu', hv, Option.map_some, htype, Option.map_some]⟩

end Code

/-- The sum of the small module keeps its code in the untouched copy. -/
theorem isolate_keeps_code_doubling :
    ∃ l' j g w w', (⟨0, "doubling.json", doubling, none, []⟩ : LoadedModule).isolate
        [.ofMatch 0 "doubling.json" "add" ⟨0, 0, 0⟩ .addToSub 0 0] = (l', .ok ()) ∧
      j ≠ 0 ∧ l'.module.functions[j]? = some g ∧ lower .default doubling = .ok w ∧
      lower .default l'.module = .ok w' ∧
      w'.functions[j]?.map Wasm.Func.codeBytes = w.functions[0]?.map Wasm.Func.codeBytes ∧
      w'.functions[0]?.map Wasm.Func.typeBytes = w.functions[0]?.map Wasm.Func.typeBytes := by
  let l : LoadedModule := ⟨0, "doubling.json", doubling, none, []⟩
  let points := [Point.ofMatch 0 "doubling.json" "add" ⟨0, 0, 0⟩ .addToSub 0 0]
  have hisolate : l.isolate points = ((l.isolate points).1, .ok ()) := by
    have hok : (l.isolate points).2 = .ok () := by decide +kernel
    rw [← hok]
  obtain ⟨w, hw⟩ :=
    (lower_isOk_iff_memory_fits .default (m := doubling) (by decide)).1.mpr (by decide)
  obtain ⟨-, hlower⟩ := isolate_keeps_code hisolate (by decide) (by decide)
  obtain ⟨w', hw', hfunctions⟩ := hlower .default w hw
  obtain ⟨j, g, huntouched, hbody, htype⟩ := hfunctions 0 _ rfl
  refine ⟨_, j, g, w, w', hisolate, ?_, huntouched.present, hw, hw', hbody, htype⟩
  cases huntouched with
  | unowned hnone => exact absurd hnone (by decide +kernel)
  | copy _ hfallback => exact Nat.ne_of_gt (Nat.lt_of_lt_of_le (by decide) hfallback)

end LoadedModule

end MutantGate
