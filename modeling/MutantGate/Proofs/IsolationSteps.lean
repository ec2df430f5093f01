import MutantGate.Proofs.Isolation
/-!
# What every step of isolation keeps

Isolation is made of three steps: it appends a copy of a function under a new name, it appends
a switch that is not there yet and puts a clone on record under its name, and it puts a dispatcher
into the place of a function.  A property of a module and its clones that each of the three keeps is
kept however far isolation gets, whether it succeeds or stops at an obstacle.

## What is proved

`Reservation.KeptByIsolation` asks one thing of each step, and `isolateFunctions_keeps` gives the
property for as far as isolation gets, by induction on the functions.  Three properties are carried
in this way: functions are appended only, names stay in order, and the clones on record are of
different mutants, each of which has its switch.  So where a clone is recorded, none is there under
that name: a mutant that is listed twice is refused at the switch, and no second obstacle is needed
for it.

## What is left outside

What isolation achieves; a property that is kept says nothing about that.
-/

namespace MutantGate

/-- A property of a module and its clones that each step of isolation keeps. -/
structure Reservation.KeptByIsolation (P : Reservation → Prop) : Prop where
  copy : ∀ {r : Reservation} (f : Function) {stem : String}, stem ≠ "" → P r →
    P { r with module := r.module.pushCopy f stem }
  clone : ∀ {r : Reservation} {mutant : String} (index : Nat), mutant ∉ r.module.switches → P r →
    P ⟨r.module.pushSwitch mutant, r.clones ++ [(mutant, index)]⟩
  dispatch : ∀ {r : Reservation} {index : Nat} {f : Function} (fallback : Nat) (arms : List Arm),
    r.module.functions[index]? = some f → P r →
      P { r with module := r.module.modifyFunction index fun _ => dispatcher f fallback arms }

section Kept

variable {P : Reservation → Prop} (hP : Reservation.KeptByIsolation P) {r : Reservation}

include hP

theorem reserve_keeps (f : Function) (n : Nat) (mutant : String) (h : P r) :
    P (reserve f n mutant r).1 := by
  have hstem : s!"{f.name}$m{n}" ≠ "" := append_ne_empty Nat.repr_ne_empty
  have hcopy := hP.copy f hstem h
  rw [reserve]
  split
  · exact hcopy
  · rename_i hfresh
    exact hP.clone r.module.functions.length (by simpa using hfresh) hcopy

theorem reserveAll_keeps (f : Function) (mutants : List String) (n : Nat) (h : P r) :
    P (reserveAll f n mutants r).1 := by
  induction mutants generalizing n r with
  | nil => exact h
  | cons mutant mutants ih =>
      have hfirst := reserve_keeps hP f n mutant h
      rw [reserveAll]
      split <;> rename_i heq <;> rw [heq] at hfirst
      · exact hfirst
      · have hrest := ih (n + 1) hfirst
        split <;> rename_i hsecond <;> rw [hsecond] at hrest <;> exact hrest

theorem isolateFunction_keeps (index : Nat) (mutants : List String) (h : P r) :
    P (isolateFunction index mutants r).1 := by
  rw [isolateFunction]
  split
  · exact h
  · rename_i f hf
    have hstem : s!"{f.name}$original" ≠ "" := append_ne_empty (by decide)
    have hall := reserveAll_keeps hP f mutants 0 (hP.copy f hstem h)
    dsimp only
    split <;> rename_i hreserve <;> rw [hreserve] at hall
    · exact hall
    · split
      · exact hall
      · -- The function is still in its place when the dispatcher comes.
        obtain ⟨hr₂, -⟩ := reserveAll_eq_ok hreserve
        refine hP.dispatch _ _ ?_ hall
        have hlt := (List.getElem?_eq_some_iff.mp hf).1
        rw [hr₂.kept (Nat.lt_of_lt_of_le hlt (by simp [Module.pushCopy, Module.pushFunction]))]
        exact (List.getElem?_append_left hlt).trans hf

theorem isolateFunctions_keeps (owners : List (Nat × List String)) (h : P r) :
    P (isolateFunctions owners r).1 := by
  induction owners generalizing r with
  | nil => exact h
  | cons o owners ih =>
      have hfirst := isolateFunction_keeps hP o.1 o.2 h
      rw [isolateFunctions]
      split <;> rename_i heq <;> rw [heq] at hfirst
      · exact hfirst
      · exact ih hfirst

end Kept

/-! ## Modules -/

/-- A property of modules alone is kept by isolation as a whole. -/
theorem LoadedModule.isolate_keeps {P : Module → Prop}
    (hP : Reservation.KeptByIsolation fun r => P r.module) (l : LoadedModule)
    (points : List Point) (h : P l.module) : P (l.isolate points).1.module := by
  have hall := isolateFunctions_keeps hP (r := ⟨l.module, []⟩) (mutantsByFunction l.id points) h
  rw [isolate_eq]
  split
  · exact h
  · split <;> rename_i heq <;> rw [heq] at hall <;> exact hall

/-- Functions are appended only. -/
theorem Module.length_kept (n : Nat) :
    Reservation.KeptByIsolation fun r => n ≤ r.module.functions.length where
  copy f _ _ h := Nat.le_trans h (by simp [pushCopy, pushFunction])
  clone _ _ h := h
  dispatch _ _ _ h := by simpa [modifyFunction] using h

theorem isolateFunctions_length_le (owners : List (Nat × List String)) (r : Reservation) :
    r.module.functions.length ≤ (isolateFunctions owners r).1.module.functions.length :=
  isolateFunctions_keeps (Module.length_kept r.module.functions.length) owners (Nat.le_refl _)

/-- Copies get new names, and dispatchers keep the names of their functions. -/
theorem Module.properlyNamed_kept :
    Reservation.KeptByIsolation fun r => r.module.ProperlyNamed where
  copy f _ hstem h := h.pushCopy f hstem
  clone _ _ h := ⟨h.named, h.distinct⟩
  dispatch {r index f} fallback arms hf h := by
    have hname : ∀ f', r.module.functions[index]? = some f' →
        (dispatcher f fallback arms).name = f'.name := by
      intro f' hf'
      obtain rfl : f = f' := Option.some.inj (hf.symm.trans hf')
      rfl
    have hnames : (r.module.modifyFunction index fun _ => dispatcher f fallback arms).functions.map
        Function.name = r.module.functions.map Function.name := names_modifyFunction hname
    exact ⟨hnames ▸ h.named, hnames ▸ h.distinct⟩

/-! ## Clones -/

/-- The clones on record are of different mutants, and each of these has its switch. -/
structure Reservation.ListsOnce (r : Reservation) : Prop where
  switched : ∀ c ∈ r.clones, c.1 ∈ r.module.switches
  distinct : (r.clones.map Prod.fst).Nodup

/-- Before a clone is recorded, its mutant has no switch, and so no clone. -/
theorem Reservation.ListsOnce.not_mem {r : Reservation} (h : r.ListsOnce) {mutant : String}
    (hfresh : mutant ∉ r.module.switches) : mutant ∉ r.clones.map Prod.fst := by
  intro hmem
  obtain ⟨c, hc, rfl⟩ := List.mem_map.mp hmem
  exact hfresh (h.switched c hc)

theorem Reservation.listsOnce_kept : KeptByIsolation ListsOnce where
  copy _ _ _ h := ⟨h.switched, h.distinct⟩
  clone {r mutant} index hfresh h := by
    refine ⟨fun c hc => ?_, ?_⟩
    · rcases List.mem_append.mp hc with hc | hc
      · exact List.mem_append_left _ (h.switched c hc)
      · obtain rfl := List.mem_singleton.mp hc
        exact List.mem_append_right _ List.mem_cons_self
    · rw [List.map_append, List.map_singleton, ← List.concat_eq_append, List.nodup_concat]
      exact ⟨h.not_mem hfresh, h.distinct⟩
  dispatch _ _ _ h := ⟨h.switched, h.distinct⟩

/-- However far isolation gets, no clone has been recorded for a mutant that had one: a mutant
that is listed twice meets its own switch first. -/
theorem isolateFunctions_listsOnce (m : Module) (owners : List (Nat × List String)) :
    (isolateFunctions owners ⟨m, []⟩).1.ListsOnce :=
  isolateFunctions_keeps Reservation.listsOnce_kept owners ⟨nofun, List.nodup_nil⟩

end MutantGate
