import MutantGate.Proofs.Isolation
import MutantGate.Proofs.Replacement
/-!
# Isolating and applying keep modules well-formed

Isolation may stop half-way, and then leaves in place what it has appended by then.  But
each of its steps keeps a module well-formed: a copy gets a new name, a switch is appended
only if none has its name, and a dispatcher calls functions that are there.  So does the
replacement of an instruction.  Whatever sequence of isolations and applications is tried
on a program, with whatever points, its modules stay well-formed.

What has to be kept small on the way is the number of functions, as dispatchers name
functions by indices of 32 bits.  A point makes a module grow by two functions at most.

## What is proved

The step is `ProtocolCall.perform_ready`, for one call of any kind with any points, and it holds of
calls that fail as well.  The run is an induction on the list of calls.  The functions of each
module and the points that are asked to be isolated stay below `2 ^ 31` together.

## What is left outside

That a module is well-formed does not say what is in it.  The accounts of its mutants are kept in
`Proofs.Bookkeeping`, and what the mutants do is said in `Proofs.MutantIsolation`.
-/

namespace MutantGate

/-! ## Growth -/

/-- A well-formed module that extends another one by at most the given number of functions. -/
structure Module.GrowsTo (m : Module) (count : Nat) (m' : Module) : Prop where
  wellFormed : m'.WellFormed
  extension : m.Extends m'
  length : m'.functions.length ≤ m.functions.length + count

theorem Module.GrowsTo.refl {m : Module} (hm : m.WellFormed) : m.GrowsTo 0 m :=
  ⟨hm, .refl m, Nat.le_refl _⟩

theorem Module.GrowsTo.trans {m m' m'' : Module} {a b : Nat} (h : m.GrowsTo a m')
    (h' : m'.GrowsTo b m'') : m.GrowsTo (a + b) m'' := by
  refine ⟨h'.wellFormed, h.extension.trans h'.extension, ?_⟩
  have hlength := h.length
  have hlength' := h'.length
  omega

theorem Module.GrowsTo.mono {m m' : Module} {a b : Nat} (h : m.GrowsTo a m') (hab : a ≤ b) :
    m.GrowsTo b m' :=
  ⟨h.wellFormed, h.extension, Nat.le_trans h.length (Nat.add_le_add_left hab _)⟩

theorem Module.pushCopy_grows {m : Module} (hm : m.WellFormed) {f : Function}
    (hf : f.WellFormedIn m) (stem : String) (hstem : stem ≠ "") :
    m.GrowsTo 1 (m.pushCopy f stem) :=
  ⟨hm.pushCopy hf hstem, .pushFunction m _, Nat.le_of_eq List.length_append⟩

/-- A dispatcher whose calls and reads are in order can take the place of its function. -/
theorem Module.dispatcher_grows {m : Module} (hm : m.WellFormed) {index fallback : Nat}
    {f : Function} {arms : List Arm} (hf : m.functions[index]? = some f)
    (hdispatcher : (dispatcher f fallback arms).WellFormedIn m) :
    m.GrowsTo 0 (m.modifyFunction index fun _ => dispatcher f fallback arms) := by
  have hname : ∀ f', m.functions[index]? = some f' → f.name = f'.name := by
    intro f' hf'
    rw [Option.some.inj (hf'.symm.trans hf)]
  have hsame : ∀ f', m.functions[index]? = some f' →
      f'.SameSignature (dispatcher f fallback arms) := by
    intro f' hf'
    rw [Option.some.inj (hf'.symm.trans hf)]
    exact ⟨rfl, rfl⟩
  exact ⟨hm.modifyFunction hname hsame fun _ _ => hdispatcher, .modifyFunction hsame,
    Nat.le_of_eq (List.length_modify _ _ _)⟩

/-! ## Isolation -/

section Isolation

variable {f : Function} {r : Reservation}

theorem reserve_grows (hm : r.module.WellFormed) (hf : f.WellFormedIn r.module) (n : Nat)
    (mutant : String) : r.module.GrowsTo 1 (reserve f n mutant r).1.module := by
  have hcopy := Module.pushCopy_grows hm hf s!"{f.name}$m{n}"
    (append_ne_empty Nat.repr_ne_empty)
  unfold reserve
  dsimp only
  split
  · exact hcopy
  · rename_i hfresh
    refine ⟨hcopy.wellFormed.pushSwitch (by simpa using hfresh), ?_, hcopy.length⟩
    exact hcopy.extension.trans (.pushSwitch _ mutant)

theorem reserveAll_grows (hm : r.module.WellFormed) (hf : f.WellFormedIn r.module)
    (mutants : List String) (n : Nat) :
    r.module.GrowsTo mutants.length (reserveAll f n mutants r).1.module := by
  induction mutants generalizing n r with
  | nil => exact .refl hm
  | cons mutant mutants ih =>
      have hfirst := reserve_grows hm hf n mutant
      unfold reserveAll
      split
      · rename_i r₁ e heq
        rw [heq] at hfirst
        exact hfirst.mono (Nat.succ_le_succ (Nat.zero_le _))
      · rename_i r₁ a heq
        rw [heq] at hfirst
        have hrest := hfirst.trans
          (ih hfirst.wellFormed (hfirst.extension.wellFormedIn hf) (n + 1))
        rw [Nat.add_comm] at hrest
        split <;> rename_i hsecond <;> rw [hsecond] at hrest <;> exact hrest

/-- The function that is taken apart makes way for a dispatcher with everything it names. -/
theorem isolateFunction_grows (index : Nat) (mutants : List String) (hm : r.module.WellFormed)
    (hroom : r.module.functions.length + (mutants.length + 1) ≤ 2 ^ 32) :
    r.module.GrowsTo (mutants.length + 1) (isolateFunction index mutants r).1.module := by
  unfold isolateFunction
  split
  · exact (Module.GrowsTo.refl hm).mono (Nat.zero_le _)
  · rename_i f hf
    have hfm := hm.functions f (List.mem_of_getElem? hf)
    have hcopy := Module.pushCopy_grows hm hfm s!"{f.name}$original"
      (append_ne_empty (by decide))
    have hall := hcopy.trans (reserveAll_grows
      (r := { r with module := r.module.pushCopy f s!"{f.name}$original" }) hcopy.wellFormed
      (hcopy.extension.wellFormedIn hfm) mutants 0)
    rw [Nat.add_comm] at hall
    dsimp only
    split
    -- Whatever has been reserved by then stays, even if isolation fails here.
    · rename_i hreserve
      rw [hreserve] at hall
      exact hall
    · rename_i r₂ arms hreserve
      rw [hreserve] at hall
      split
      · exact hall
      · rename_i hparams
        obtain ⟨hr₂, rfl⟩ := reserveAll_eq_ok hreserve
        have hlength := Nat.le_trans hall.length hroom
        have hindex := (List.getElem?_eq_some_iff.mp hf).1
        have hpresent : r₂.module.functions[index]? = some f := by
          have hcopied : index < (r.module.pushCopy f s!"{f.name}$original").functions.length :=
            Nat.lt_of_lt_of_le hindex hcopy.extension.functions_length
          rw [hr₂.kept hcopied]
          exact (List.getElem?_append_left hindex).trans hf
        have hfallback : r₂.module.StandIn f r.module.functions.length :=
          (Module.pushCopy_standIn (m := r.module) (by omega)).extend hr₂.extension
        have hdispatcher := dispatcher_wellFormedIn (Nat.le_of_not_lt hparams) hfallback
          fun a ha => hr₂.standIn hlength ha
        exact hall.trans (Module.dispatcher_grows hall.wellFormed hpresent hdispatcher)

theorem isolateFunctions_grows {owners : List (Nat × List String)} (hm : r.module.WellFormed)
    (hroom : r.module.functions.length + addedFunctions owners ≤ 2 ^ 32) :
    r.module.GrowsTo (addedFunctions owners) (isolateFunctions owners r).1.module := by
  induction owners generalizing r with
  | nil => exact .refl hm
  | cons o owners ih =>
      obtain ⟨index, mutants⟩ := o
      rw [addedFunctions_cons] at hroom ⊢
      dsimp only at hroom ⊢
      have hfirst := isolateFunction_grows index mutants hm (by omega)
      unfold isolateFunctions
      split <;> rename_i heq <;> rw [heq] at hfirst
      · exact hfirst.mono (Nat.le_add_right _ _)
      · have hlength := hfirst.length
        exact hfirst.trans (ih hfirst.wellFormed (by omega))

end Isolation

/-! ## Loaded modules -/

/-- A well-formed module with room for the functions that points make necessary. -/
structure LoadedModule.Ready (points : Nat) (l : LoadedModule) : Prop where
  wellFormed : l.module.WellFormed
  room : l.module.functions.length + 2 * points ≤ 2 ^ 32

namespace LoadedModule.Ready

variable {l l' : LoadedModule} {points : List Point} {k : Nat}

theorem mono {n : Nat} (h : l.Ready n) (hk : k ≤ n) : l.Ready k :=
  ⟨h.wellFormed, Nat.le_trans (by omega) h.room⟩

/-- Isolation, however far it gets, uses up the room for its points. -/
theorem isolate (h : l.Ready (points.length + k)) : (l.isolate points).1.Ready k := by
  have hcount := addedFunctions_le l.id points
  have hroom := h.room
  have hgrows := isolateFunctions_grows (r := ⟨l.module, []⟩) h.wellFormed (by
    show l.module.functions.length + addedFunctions (mutantsByFunction l.id points) ≤ 2 ^ 32
    omega)
  rw [LoadedModule.isolate_eq]
  split
  · exact h.mono (Nat.le_add_left _ _)
  · have hlength := hgrows.length
    split <;> rename_i heq <;> rw [heq] at hgrows hlength
    · exact ⟨hgrows.wellFormed, by dsimp only at hlength ⊢; omega⟩
    · exact ⟨hgrows.wellFormed, by dsimp only at hlength ⊢; omega⟩

theorem apply {p : Point} (h : l.Ready k) (happly : l.apply p = .ok l') : l'.Ready k := by
  obtain ⟨clone, i, j, -, -, hi, hj, rfl⟩ := apply_eq_ok happly
  constructor
  · exact h.wellFormed.setInstruction hi (Operator.mutate_replacedBy hj)
  · show (l.module.functions.modify _ _).length + 2 * k ≤ 2 ^ 32
    rw [List.length_modify]
    exact h.room

end LoadedModule.Ready

theorem isolateModules_ready {points : List Point} {k : Nat} {ls : List LoadedModule}
    (h : ∀ l ∈ ls, l.Ready (points.length + k)) :
    ∀ l ∈ (isolateModules points ls).1, l.Ready k := by
  induction ls with
  | nil =>
      intro l hl
      cases hl
  | cons l₀ ls ih =>
      intro l hl
      have hfirst := (h l₀ List.mem_cons_self).isolate
      have hothers := fun l hl => h l (List.mem_cons_of_mem _ hl)
      unfold isolateModules at hl
      split at hl <;> rename_i heq <;> rw [heq] at hfirst
      · rcases List.mem_cons.mp hl with rfl | hl
        · exact hfirst
        · exact (hothers l hl).mono (Nat.le_add_left _ _)
      · rcases List.mem_cons.mp hl with rfl | hl
        · exact hfirst
        · exact ih hothers l hl

/-! ## Programs -/

/-- A call of the two phases in which mutants are made: isolation in one module or in all,
and application. -/
inductive ProtocolCall where
  | isolate (id : ModuleId) (points : List Point)
  | isolateAll (points : List Point)
  | apply (p : Point)

namespace ProtocolCall

/-- How many points a call asks to isolate. -/
def pointCount : ProtocolCall → Nat
  | .isolate _ points | .isolateAll points => points.length
  | .apply _ => 0

/-- The program after a call, whether it succeeds or not. -/
def perform : ProtocolCall → Program → Program
  | .isolate id points, program => program.modifyModule id fun l => (l.isolate points).1
  | .isolateAll points, program => (program.isolate points).1
  | .apply p, program =>
    match program.apply p with
    | .ok program' => program'
    | .error _ => program

/-- The program after calls, one after the other. -/
def performAll : List ProtocolCall → Program → Program
  | [], program => program
  | c :: calls, program => performAll calls (c.perform program)

/-- The points that calls ask to isolate, all together. -/
def totalPoints (calls : List ProtocolCall) : Nat := (calls.map pointCount).sum

theorem modifyModule_ready {program : Program} {id : ModuleId} {k n : Nat}
    {change : LoadedModule → LoadedModule} (hp : ∀ l ∈ program.modules, l.Ready n) (hk : k ≤ n)
    (hchange : ∀ l ∈ program.modules, (change l).Ready k) :
    ∀ l ∈ (program.modifyModule id change).modules, l.Ready k := by
  intro l hl
  obtain ⟨l₀, hl₀, rfl⟩ := List.mem_map.mp hl
  split
  · exact hchange l₀ hl₀
  · exact (hp l₀ hl₀).mono hk

/-- Every call uses up the room for its points and keeps modules well-formed. -/
theorem perform_ready {program : Program} {k : Nat} (c : ProtocolCall)
    (h : ∀ l ∈ program.modules, l.Ready (c.pointCount + k)) :
    ∀ l ∈ (c.perform program).modules, l.Ready k := by
  cases c with
  | isolate id points =>
      exact modifyModule_ready h (Nat.le_add_left _ _) fun l hl => (h l hl).isolate
  | isolateAll points => exact isolateModules_ready h
  | apply p =>
      have hall : ∀ l ∈ program.modules, l.Ready k :=
        fun l hl => (h l hl).mono (Nat.le_add_left _ _)
      cases happly : program.apply p with
      | error e =>
          simp only [perform, happly]
          exact hall
      | ok program' =>
          obtain ⟨l, l', hl, hl', rfl⟩ := Program.apply_eq_ok happly
          have hready := (hall l (List.mem_of_find?_eq_some hl)).apply hl'
          simp only [perform, happly]
          exact modifyModule_ready hall (Nat.le_refl _) fun _ _ => hready

/-- So do all calls of a sequence. -/
theorem performAll_ready {k : Nat} {calls : List ProtocolCall} {program : Program}
    (h : ∀ l ∈ program.modules, l.Ready (totalPoints calls + k)) :
    ∀ l ∈ (performAll calls program).modules, l.Ready k := by
  induction calls generalizing program with
  | nil =>
      intro l hl
      exact (h l hl).mono (Nat.le_add_left _ _)
  | cons c calls ih =>
      show ∀ l ∈ (performAll calls (c.perform program)).modules, l.Ready k
      refine ih (perform_ready c fun l hl => ?_)
      have hsum : totalPoints (c :: calls) = c.pointCount + totalPoints calls := List.sum_cons
      rw [← Nat.add_assoc, ← hsum]
      exact h l hl

/-- Calls of the protocol keep the modules of a program well-formed, in whatever order they
come and whether they succeed or not. -/
theorem performAll_isWellFormed (calls : List ProtocolCall) (program : Program)
    (hwf : ∀ l ∈ program.modules, l.module.isWellFormed = true)
    (hroom : ∀ l ∈ program.modules, l.module.functions.length + totalPoints calls < 2 ^ 31) :
    ∀ l ∈ (performAll calls program).modules, l.module.isWellFormed = true := by
  intro l hl
  refine (Module.isWellFormed_iff _).mpr
    (performAll_ready (k := 0) (fun l hl => ?_) l hl).wellFormed
  refine ⟨(Module.isWellFormed_iff _).mp (hwf l hl), ?_⟩
  have hlength := hroom l hl
  omega

/-- A point that is applied before its function is isolated, and once more when it has
been applied; its function is isolated twice. -/
def misuse : List ProtocolCall :=
  let p := Point.ofMatch 0 "doubling.json" "add" ⟨0, 0, 0⟩ .addToSub 0 0
  [.apply p, .isolate 0 [p], .apply p, .apply p, .isolateAll [p, p]]

theorem performAll_isWellFormed_misuse :
    (performAll misuse ((Program.empty 1).add doubling "doubling.json")).modules.all
      (fun l => l.module.isWellFormed) = true :=
  List.all_eq_true.mpr (performAll_isWellFormed misuse _ (by decide) (by decide))

end ProtocolCall

end MutantGate
