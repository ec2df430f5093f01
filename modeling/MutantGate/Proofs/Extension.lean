import MutantGate.Proofs.FreshNames
import MutantGate.Proofs.WellFormed
import MutantGate.Mutation.Isolation
/-!
# Modules that grow

What is wrong with an instruction depends on its module only through the parameters and
the return types of functions and through the number of switches.  A module extends
another one if it keeps all of that at the indices that were there; so code that was in
order stays in order when functions and switches are appended, and when a function makes
way for one of the same signature.

From this follows what each step of a preparation keeps: a copy of a function, a new
switch, and a function in the place of another one leave a module well-formed.

## What is left outside

Only what is in order is carried over here.  For instructions that are not, `Proofs.AcceptedInput`
says what an extension may put right.
-/

namespace MutantGate

/-! ## Extension -/

/-- The same parameters and the same return type. -/
structure Function.SameSignature (f g : Function) : Prop where
  params : g.params = f.params
  returns : g.returns = f.returns

theorem Function.SameSignature.refl (f : Function) : f.SameSignature f := ⟨rfl, rfl⟩

theorem Function.SameSignature.trans {f g h : Function} (hfg : f.SameSignature g)
    (hgh : g.SameSignature h) : f.SameSignature h :=
  ⟨hgh.params.trans hfg.params, hgh.returns.trans hfg.returns⟩

/-- The second module has all functions of the first one, as far as calls can tell, and all
switches. -/
structure Module.Extends (m m' : Module) : Prop where
  functions : ∀ (g : Nat) (f : Function), m.functions[g]? = some f →
    ∃ f', m'.functions[g]? = some f' ∧ f.SameSignature f'
  switches : m.switches.length ≤ m'.switches.length

namespace Module.Extends

variable {m m' m'' : Module}

theorem refl (m : Module) : m.Extends m := ⟨fun _ f h => ⟨f, h, .refl f⟩, Nat.le_refl _⟩

theorem trans (h : m.Extends m') (h' : m'.Extends m'') : m.Extends m'' := by
  refine ⟨fun g f hf => ?_, Nat.le_trans h.switches h'.switches⟩
  obtain ⟨f', hf', hsame⟩ := h.functions g f hf
  obtain ⟨f'', hf'', hsame'⟩ := h'.functions g f' hf'
  exact ⟨f'', hf'', hsame.trans hsame'⟩

theorem functions_length (h : m.Extends m') : m.functions.length ≤ m'.functions.length := by
  by_contra hlt
  have hlast : m'.functions.length < m.functions.length := Nat.lt_of_not_le hlt
  obtain ⟨f', hf', -⟩ := h.functions _ _ (List.getElem?_eq_getElem hlast)
  simp at hf'

theorem pushFunction (m : Module) (f : Function) : m.Extends (m.pushFunction f) := by
  refine ⟨fun g h hg => ⟨h, ?_, .refl h⟩, Nat.le_refl _⟩
  exact (List.getElem?_append_left (List.getElem?_eq_some_iff.mp hg).1).trans hg

theorem pushSwitch (m : Module) (name : String) : m.Extends (m.pushSwitch name) := by
  refine ⟨fun _ h hg => ⟨h, hg, .refl h⟩, ?_⟩
  simp [Module.pushSwitch]

theorem modifyFunction {index : Nat} {change : Function → Function}
    (h : ∀ f, m.functions[index]? = some f → f.SameSignature (change f)) :
    m.Extends (m.modifyFunction index change) := by
  refine ⟨fun g f hf => ?_, Nat.le_refl _⟩
  by_cases hg : index = g
  · subst hg
    exact ⟨change f, by simp [Module.modifyFunction, hf], h f hf⟩
  · exact ⟨f, by simp [Module.modifyFunction, hf, hg], .refl f⟩

theorem callViolations (h : m.Extends m') {i : Instruction}
    (hi : MutantGate.callViolations m i = []) : MutantGate.callViolations m' i = [] := by
  rw [callViolations_eq_nil_iff] at hi ⊢
  obtain ⟨index, args, callee, hops, hcallee, hlength, hvalue, hvoid⟩ := hi
  obtain ⟨callee', hcallee', hsame⟩ := h.functions _ _ hcallee
  refine ⟨index, args, callee', hops, hcallee', ?_, hvalue, ?_⟩
  · rw [hsame.params]
    exact hlength
  · rw [hsame.returns]
    exact hvoid

theorem switchViolations (h : m.Extends m') {i : Instruction}
    (hi : MutantGate.switchViolations m i = []) : MutantGate.switchViolations m' i = [] := by
  rw [switchViolations_eq_nil_iff] at hi ⊢
  obtain ⟨k, hops, hk⟩ := hi
  exact ⟨k, hops, Nat.lt_of_lt_of_le hk h.switches⟩

theorem instructionViolations (h : m.Extends m') {f : Function} {block : Nat} {i : Instruction}
    (hi : MutantGate.instructionViolations m f block i = []) :
    MutantGate.instructionViolations m' f block i = [] := by
  rw [instructionViolations_eq_nil_iff] at hi ⊢
  obtain ⟨hregisters, hoperands, hdest⟩ := hi
  refine ⟨hregisters, ?_, hdest⟩
  unfold operandViolations at hoperands ⊢
  cases hop : i.opcode <;> simp only [hop] at hoperands ⊢ <;> try exact hoperands
  case call => exact h.callViolations hoperands
  case readSwitch => exact h.switchViolations hoperands

/-- Code that is in order stays in order. -/
theorem wellFormedIn (h : m.Extends m') {f : Function} (hf : f.WellFormedIn m) :
    f.WellFormedIn m' :=
  ⟨hf.nonempty, fun block b hb =>
    have hblock := hf.blocks block b hb
    ⟨hblock.nonempty, hblock.closed, fun i hi => h.instructionViolations (hblock.sound i hi)⟩⟩

end Module.Extends

/-- The name of a function means nothing to its code. -/
theorem Function.WellFormedIn.rename {m : Module} {f : Function} (h : f.WellFormedIn m)
    (name : String) : { f with name := name }.WellFormedIn m :=
  ⟨h.nonempty, fun block b hb =>
    have hblock := h.blocks block b hb
    ⟨hblock.nonempty, hblock.closed, hblock.sound⟩⟩

/-! ## Names -/

/-- No function is without a name, and no two have the same name. -/
structure Module.ProperlyNamed (m : Module) : Prop where
  named : "" ∉ m.functions.map Function.name
  distinct : (m.functions.map Function.name).Nodup

/-- A copy gets a name of its own. -/
theorem Module.ProperlyNamed.pushCopy {m : Module} (h : m.ProperlyNamed) (f : Function)
    {stem : String} (hstem : stem ≠ "") : (m.pushCopy f stem).ProperlyNamed := by
  have hnames : (m.pushCopy f stem).functions.map Function.name =
      m.functions.map Function.name ++ [m.freshName stem] := List.map_append
  constructor
  · rw [hnames, List.mem_append, List.mem_singleton]
    rintro (hmem | hnew)
    · exact h.named hmem
    · exact m.freshName_ne_empty hstem hnew.symm
  · rw [hnames]
    refine List.nodup_append.mpr ⟨h.distinct, List.nodup_singleton _, ?_⟩
    intro name hname new hnew heq
    exact m.freshName_not_mem stem (List.mem_singleton.mp hnew ▸ heq ▸ hname)

theorem Module.names_modifyFunction {m : Module} {index : Nat} {change : Function → Function}
    (hname : ∀ f, m.functions[index]? = some f → (change f).name = f.name) :
    (m.modifyFunction index change).functions.map Function.name =
      m.functions.map Function.name := by
  refine List.ext_getElem? fun g => ?_
  simp only [Module.modifyFunction, List.getElem?_map, List.getElem?_modify]
  cases hf : m.functions[g]? with
  | none => rfl
  | some f =>
      by_cases hg : index = g
      · simp [hg, hname f (hg ▸ hf)]
      · simp [hg]

/-! ## Steps that keep a module well-formed -/

namespace Module.WellFormed

variable {m : Module}

theorem pushCopy (hm : m.WellFormed) {f : Function} (hf : f.WellFormedIn m) {stem : String}
    (hstem : stem ≠ "") : (m.pushCopy f stem).WellFormed := by
  have hextends : m.Extends (m.pushCopy f stem) := .pushFunction m _
  obtain ⟨hnamed, hdistinct⟩ :=
    Module.ProperlyNamed.pushCopy ⟨hm.named, hm.namesDistinct⟩ f hstem
  refine ⟨hnamed, hdistinct, hm.switchesDistinct, ?_⟩
  intro g hg
  rcases List.mem_append.mp hg with hg | hg
  · exact hextends.wellFormedIn (hm.functions g hg)
  · rw [List.mem_singleton.mp hg]
    exact hextends.wellFormedIn (hf.rename _)

theorem pushSwitch (hm : m.WellFormed) {name : String} (hname : name ∉ m.switches) :
    (m.pushSwitch name).WellFormed := by
  refine ⟨hm.named, hm.namesDistinct, ?_, fun f hf =>
    (Module.Extends.pushSwitch m name).wellFormedIn (hm.functions f hf)⟩
  refine List.nodup_append.mpr ⟨hm.switchesDistinct, List.nodup_singleton _, ?_⟩
  intro s hs new hnew heq
  exact hname (List.mem_singleton.mp hnew ▸ heq ▸ hs)

/-- A function may make way for one with its name and its signature. -/
theorem modifyFunction (hm : m.WellFormed) {index : Nat} {change : Function → Function}
    (hname : ∀ f, m.functions[index]? = some f → (change f).name = f.name)
    (hsame : ∀ f, m.functions[index]? = some f → f.SameSignature (change f))
    (hchange : ∀ f, m.functions[index]? = some f → (change f).WellFormedIn m) :
    (m.modifyFunction index change).WellFormed := by
  have hextends : m.Extends (m.modifyFunction index change) := .modifyFunction hsame
  have hnames := Module.names_modifyFunction hname
  refine ⟨hnames ▸ hm.named, hnames ▸ hm.namesDistinct, hm.switchesDistinct, fun f hf => ?_⟩
  obtain ⟨g, hg⟩ := List.mem_iff_getElem?.mp hf
  simp only [Module.modifyFunction, List.getElem?_modify] at hg
  obtain ⟨f', hf', hf⟩ := Option.map_eq_some_iff.mp hg
  split at hf
  · rename_i hindex
    subst hindex
    rw [← hf]
    exact hextends.wellFormedIn (hchange f' hf')
  · cases hf
    exact hextends.wellFormedIn (hm.functions _ (List.mem_of_getElem? hf'))

end Module.WellFormed

end MutantGate
