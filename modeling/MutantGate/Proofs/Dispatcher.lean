import MutantGate.Proofs.Extension
/-!
# The dispatcher

A dispatcher has a block for the test of every arm, and behind them one block for each function
that it may call.  It is well-formed if these functions are there with the signature of the
function whose place it takes, and if all indices fit the operands they go into.

## What is proved

The blocks of a dispatcher are found by their numbers, and a dispatcher with as many arms as one
likes is well-formed in a module in which what it names is there (`dispatcher_wellFormedIn`).

## What is left outside

What a dispatcher does when it is run, which is `Proofs.DispatcherRuns`.
-/

namespace MutantGate

/-! ## Blocks -/

section Blocks

variable {params : Nat} {returns : ReturnType} {fallback : Nat} {arms : List Arm} {k : Nat}
  {a : Arm}

theorem dispatchBlocks_length :
    (dispatchBlocks params returns fallback arms).length = 2 * arms.length + 1 := by
  simp only [dispatchBlocks, List.length_append, List.length_cons, List.length_map,
    List.length_zipIdx]
  omega

theorem dispatchBlocks_test (h : arms[k]? = some a) :
    (dispatchBlocks params returns fallback arms)[k]? =
      some (testBlock params a.switch (arms.length + 1 + k)) := by
  have hk := (List.getElem?_eq_some_iff.mp h).1
  unfold dispatchBlocks
  rw [List.getElem?_append_left (by simpa using hk)]
  simp [List.getElem?_zipIdx, h]

theorem dispatchBlocks_fallback :
    (dispatchBlocks params returns fallback arms)[arms.length]? =
      some (forwardBlock params returns fallback) := by
  unfold dispatchBlocks
  rw [List.getElem?_append_right (by simp)]
  simp

theorem dispatchBlocks_clone (h : arms[k]? = some a) :
    (dispatchBlocks params returns fallback arms)[arms.length + 1 + k]? =
      some (forwardBlock params returns a.clone) := by
  have hindex : arms.length + 1 + k - arms.length = k + 1 := by omega
  unfold dispatchBlocks
  rw [List.getElem?_append_right (by simp; omega), List.length_map, List.length_zipIdx, hindex,
    List.getElem?_cons_succ, List.getElem?_map, h]
  rfl

/-- Every block tests a switch, with a block behind it, or passes a call on. -/
theorem dispatchBlocks_cases {b : Block}
    (h : (dispatchBlocks params returns fallback arms)[k]? = some b) :
    (∃ a, arms[k]? = some a ∧ b = testBlock params a.switch (arms.length + 1 + k)) ∨
      ∃ callee, (callee = fallback ∨ ∃ a ∈ arms, callee = a.clone) ∧
        b = forwardBlock params returns callee := by
  rcases Nat.lt_trichotomy k arms.length with hk | rfl | hk
  · have hget := List.getElem?_eq_getElem hk
    rw [dispatchBlocks_test hget] at h
    cases h
    exact Or.inl ⟨_, hget, rfl⟩
  · rw [dispatchBlocks_fallback] at h
    cases h
    exact Or.inr ⟨_, Or.inl rfl, rfl⟩
  · have hlt := (List.getElem?_eq_some_iff.mp h).1
    rw [dispatchBlocks_length] at hlt
    have hget := List.getElem?_eq_getElem (show k - arms.length - 1 < arms.length by omega)
    rw [show k = arms.length + 1 + (k - arms.length - 1) by omega, dispatchBlocks_clone hget] at h
    cases h
    exact Or.inr ⟨_, Or.inr ⟨_, List.mem_of_getElem? hget, rfl⟩, rfl⟩

end Blocks

/-! ## Well-formedness -/

/-- A function with the signature of the given one stands at an index that fits into an
operand. -/
structure Module.StandIn (m : Module) (f : Function) (index : Nat) : Prop where
  indexed : index < 2 ^ 32
  present : ∃ g, m.functions[index]? = some g ∧ f.SameSignature g

theorem Module.StandIn.extend {m m' : Module} {f : Function} {index : Nat}
    (h : m.StandIn f index) (hm : m.Extends m') : m'.StandIn f index := by
  obtain ⟨g, hg, hsame⟩ := h.present
  obtain ⟨g', hg', hsame'⟩ := hm.functions _ _ hg
  exact ⟨h.indexed, g', hg', hsame.trans hsame'⟩

theorem Block.WellFormedIn.pair {m : Module} {f : Function} {block : Nat} {i j : Instruction}
    (hi : i.opcode.isTerminator = false) (hj : j.opcode.isTerminator = true)
    (hisound : instructionViolations m f block i = [])
    (hjsound : instructionViolations m f block j = []) :
    Block.WellFormedIn m f block [i, j] := by
  refine ⟨List.cons_ne_nil _ _, fun n k hk => ?_, fun k hk => ?_⟩
  · match n with
    | 0 => cases hk; exact hi
    | 1 => cases hk; exact hj
    | n + 2 => cases hk
  · rcases List.mem_pair.mp hk with rfl | rfl
    · exact hisound
    · exact hjsound

section WellFormed

variable {m : Module} {f d : Function} {block : Nat}

/-- The registers of a dispatcher: the parameters, and one more. -/
structure Function.Forwards (f d : Function) : Prop where
  params : f.params.toNat ≤ maxForwarded
  registers : d.registers.toNat = f.params.toNat + 1
  returns : d.returns = f.returns

theorem Function.Forwards.scratch (h : f.Forwards d) :
    f.params.toNat.toUInt8.toNat = f.params.toNat :=
  UInt8.toNat_ofNat_of_lt' (Nat.lt_succ_of_le h.params)

theorem dispatcher_forwards (fallback : Nat) (arms : List Arm)
    (hparams : f.params.toNat ≤ maxForwarded) : f.Forwards (dispatcher f fallback arms) := by
  refine ⟨hparams, ?_, rfl⟩
  have hmax : maxForwarded = 255 := rfl
  rw [Function.registers, UInt64.toNat_add]
  show (f.params.toNat + 1) % 2 ^ 64 = f.params.toNat + 1
  omega

theorem forwardedCall_sound (hd : f.Forwards d) {callee : Nat} (hcallee : m.StandIn f callee)
    {dest : Option Register} (hdest : ∀ r, dest = some r → r.index.toNat < d.registers.toNat)
    (hvoid : f.returns = .void → dest = none) :
    instructionViolations m d block (.call callee.toUInt32 dest
      ((List.range f.params.toNat).map fun n => Register.mk n.toUInt8)) = [] := by
  obtain ⟨g, hg, hsame⟩ := hcallee.present
  refine (instructionViolations_eq_nil_iff _ _ _ _).mpr ⟨⟨hdest, fun r hr => ?_⟩, ?_, ?_⟩
  · rcases List.mem_cons.mp hr with hr | hr
    · cases hr
    · obtain ⟨r', hr', hrr'⟩ := List.mem_map.mp hr
      obtain ⟨n, hn, rfl⟩ := List.mem_map.mp hr'
      cases hrr'
      have hn := List.mem_range.mp hn
      rw [hd.registers]
      show n.toUInt8.toNat < _
      rw [UInt8.toNat_ofNat_of_lt' (Nat.lt_trans hn (Nat.lt_succ_of_le hd.params))]
      exact Nat.lt_succ_of_lt hn
  · show callViolations m (.call callee.toUInt32 dest _) = []
    refine (callViolations_eq_nil_iff _ _).mpr ⟨_, _, g, rfl, ?_, ?_, fun o ho => ?_, ?_⟩
    · rw [UInt32.toNat_ofNat_of_lt' hcallee.indexed]
      exact hg
    · rw [List.length_map, List.length_map, List.length_range, hsame.params]
    · obtain ⟨r, -, rfl⟩ := List.mem_map.mp ho
      rfl
    · rw [hsame.returns]
      exact hvoid
  · exact (destViolations_eq_nil_iff _).mpr fun hop => absurd rfl hop

theorem forwardBlock_wellFormedIn (hd : f.Forwards d) {callee : Nat}
    (hcallee : m.StandIn f callee) :
    (forwardBlock f.params.toNat f.returns callee).WellFormedIn m d block := by
  have hscratch : f.params.toNat.toUInt8.toNat < d.registers.toNat := by
    rw [hd.scratch, hd.registers]
    exact Nat.lt_succ_self _
  unfold forwardBlock
  cases hreturns : f.returns with
  | int =>
      refine .pair rfl rfl (forwardedCall_sound hd hcallee (fun r hr => ?_) ?_) ?_
      · cases hr
        exact hscratch
      · rw [hreturns]
        intro hvoid
        cases hvoid
      · refine (instructionViolations_eq_nil_iff _ _ _ _).mpr
          ⟨⟨fun r hr => ?_, fun r hr => ?_⟩, ?_, rfl⟩
        · cases hr
        · cases List.mem_singleton.mp hr
          exact hscratch
        · refine (returnViolations_eq_nil_iff _ _).mpr ⟨?_, fun o ho => ?_⟩
          · rw [hd.returns, hreturns]
            rfl
          · cases List.mem_singleton.mp ho
            rfl
  | void =>
      refine .pair rfl rfl (forwardedCall_sound hd hcallee (fun r hr => ?_) fun _ => rfl) ?_
      · cases hr
      · refine (instructionViolations_eq_nil_iff _ _ _ _).mpr
          ⟨⟨fun r hr => ?_, fun r hr => ?_⟩, ?_, rfl⟩
        · cases hr
        · cases hr
        · refine (returnViolations_eq_nil_iff _ _).mpr ⟨?_, fun o ho => ?_⟩
          · rw [hd.returns, hreturns]
            rfl
          · cases ho

theorem testBlock_wellFormedIn (hd : f.Forwards d) {switch target : Nat}
    (hswitch : switch < m.switches.length) (htarget : target < d.blocks.length)
    (hnext : block + 1 < d.blocks.length) :
    (testBlock f.params.toNat switch target).WellFormedIn m d block := by
  have hscratch : f.params.toNat.toUInt8.toNat < d.registers.toNat := by
    rw [hd.scratch, hd.registers]
    exact Nat.lt_succ_self _
  -- An index that is cut off is even smaller.
  have hcut : ∀ n : Nat, n.toUInt32.toNat ≤ n := fun n => by
    rw [Nat.toUInt32, UInt32.toNat_ofNat']
    exact Nat.mod_le n _
  refine .pair rfl rfl ?_ ?_
  · refine (instructionViolations_eq_nil_iff _ _ _ _).mpr
      ⟨⟨fun r hr => ?_, fun r hr => ?_⟩, ?_, rfl⟩
    · cases hr
      exact hscratch
    · cases List.mem_singleton.mp hr
    · show switchViolations m (.readSwitch ⟨f.params.toNat.toUInt8⟩ switch.toUInt32) = []
      exact (switchViolations_eq_nil_iff _ _).mpr ⟨_, rfl, Nat.lt_of_le_of_lt (hcut _) hswitch⟩
  · refine (instructionViolations_eq_nil_iff _ _ _ _).mpr
      ⟨⟨fun r hr => ?_, fun r hr => ?_⟩, ?_, rfl⟩
    · cases hr
    · rcases List.mem_pair.mp hr with hr | hr <;> cases hr
      exact hscratch
    · exact (branchIfViolations_eq_nil_iff _ _ _).mpr
        ⟨_, _, rfl, rfl, Nat.lt_of_le_of_lt (hcut _) htarget, hnext⟩

/-- A dispatcher is well-formed where all that it names is there. -/
theorem dispatcher_wellFormedIn {fallback : Nat} {arms : List Arm}
    (hparams : f.params.toNat ≤ maxForwarded) (hfallback : m.StandIn f fallback)
    (harms : ∀ a ∈ arms, m.StandIn f a.clone ∧ a.switch < m.switches.length) :
    (dispatcher f fallback arms).WellFormedIn m := by
  have hd := dispatcher_forwards fallback arms hparams
  have hlength : (dispatcher f fallback arms).blocks.length = 2 * arms.length + 1 :=
    dispatchBlocks_length
  refine ⟨fun hnil => ?_, fun block b hb => ?_⟩
  · rw [hnil] at hlength
    cases hlength
  · rcases dispatchBlocks_cases hb with ⟨a, ha, rfl⟩ | ⟨callee, hcallee, rfl⟩
    · have hblock := (List.getElem?_eq_some_iff.mp ha).1
      exact testBlock_wellFormedIn hd (harms a (List.mem_of_getElem? ha)).2 (by omega) (by omega)
    · refine forwardBlock_wellFormedIn hd ?_
      rcases hcallee with rfl | ⟨a, ha, rfl⟩
      · exact hfallback
      · exact (harms a ha).1

end WellFormed

end MutantGate
