import Mathlib.Data.List.Forall2
import MutantGate.Proofs.Dispatcher
import MutantGate.Proofs.Owners
/-!
# What isolation makes of a module

Taking a function apart appends copies of it, appends a switch for each mutant, and puts a
dispatcher in its place; nothing else changes.  What one step appends starts where the
module ended before, so a later step, which puts a dispatcher into an earlier place, leaves
the copies of earlier steps as they are.  This carries the account of one function over to
that of all.

## What is proved

What one function makes of its module (`Isolates`) and what all of them make of it (`IsolatesAll`):
which functions stay, which are dispatchers and over what, and which clone is recorded under which
name, with indices that rise.  Also that the recording of the clones, which may be refused, is not
refused here (`LoadedModule.isolate_eq`).

## What is left outside

When isolation succeeds (`Proofs.MutationSuccess`, `Proofs.IsolationOutcome`) and what it leaves
where it does not (`Proofs.InterruptedIsolation`).
-/

namespace MutantGate

theorem exists_of_forall₂ {α β : Type} {R : α → β → Prop} {xs : List α} {ys : List β}
    (h : List.Forall₂ R xs ys) {x : α} (hx : x ∈ xs) : ∃ y, R x y := by
  obtain ⟨k, rfl⟩ := List.mem_iff_get.mp hx
  exact ⟨_, h.get k.2 (h.length_eq ▸ k.2)⟩

/-! ## Reserving clones -/

/-- Arms whose switches and clones are counted from the given numbers on. -/
def armsFrom (switch clone count : Nat) : List Arm :=
  List.zipWith Arm.mk (List.range' switch count) (List.range' clone count)

@[simp] theorem armsFrom_length (switch clone count : Nat) :
    (armsFrom switch clone count).length = count := by
  simp [armsFrom]

theorem mem_armsFrom {switch clone count : Nat} {a : Arm} (h : a ∈ armsFrom switch clone count) :
    ∃ k < count, a = ⟨switch + k, clone + k⟩ := by
  obtain ⟨k, hk, rfl⟩ := List.mem_iff_getElem.mp h
  exact ⟨k, by simpa using hk, by simp [armsFrom]⟩

theorem armsFrom_getElem? {switch clone count k : Nat} (hk : k < count) :
    (armsFrom switch clone count)[k]? = some ⟨switch + k, clone + k⟩ := by
  simp [armsFrom, hk]

/-- What reserving clones of a function for mutants appends. -/
structure Reserves (f : Function) (mutants : List String) (r r' : Reservation) : Prop where
  functions : ∃ names : List String, names.length = mutants.length ∧
    r'.module.functions = r.module.functions ++ names.map fun s => { f with name := s }
  switches : r'.module.switches = r.module.switches ++ mutants
  clones : r'.clones =
    r.clones ++ mutants.zip (List.range' r.module.functions.length mutants.length)
  rest : r'.module =
    { r.module with functions := r'.module.functions, switches := r'.module.switches }
  fresh : ∀ s ∈ mutants, s ∉ r.module.switches
  distinct : mutants.Nodup

variable {f : Function} {r r' : Reservation}

theorem reserve_eq_ok {n : Nat} {mutant : String} {a : Arm}
    (h : reserve f n mutant r = (r', .ok a)) :
    Reserves f [mutant] r r' ∧ a = ⟨r.module.switches.length, r.module.functions.length⟩ := by
  unfold reserve at h
  dsimp only at h
  split at h
  · cases h
  · rename_i hfresh
    cases h
    refine ⟨⟨⟨[r.module.freshName s!"{f.name}$m{n}"], rfl, rfl⟩, rfl, rfl, rfl, ?_,
      List.nodup_singleton _⟩, rfl⟩
    intro s hs
    rw [List.mem_singleton.mp hs]
    simpa [Module.pushCopy, Module.pushFunction] using hfresh

theorem Reserves.functions_length {mutants : List String} (h : Reserves f mutants r r') :
    r'.module.functions.length = r.module.functions.length + mutants.length := by
  obtain ⟨names, hcount, hfunctions⟩ := h.functions
  rw [hfunctions, List.length_append, List.length_map, hcount]

/-- One clone after the other. -/
theorem Reserves.cons {mutant : String} {mutants : List String} {r₁ : Reservation}
    (h₁ : Reserves f [mutant] r r₁) (h : Reserves f mutants r₁ r') :
    Reserves f (mutant :: mutants) r r' := by
  obtain ⟨names₁, hcount₁, hfunctions₁⟩ := h₁.functions
  obtain ⟨names, hcount, hfunctions⟩ := h.functions
  refine ⟨⟨names₁ ++ names, ?_, ?_⟩, ?_, ?_, ?_, fun s hs => ?_, ?_⟩
  · rw [List.length_append, hcount₁, hcount, List.length_singleton, List.length_cons, Nat.add_comm]
  · rw [hfunctions, hfunctions₁, List.append_assoc, List.map_append]
  · rw [h.switches, h₁.switches, List.append_assoc, List.singleton_append]
  · rw [h.clones, h₁.clones, h₁.functions_length, List.append_assoc, List.length_cons,
      List.range'_succ]
    rfl
  · rw [h.rest, h₁.rest]
  · rcases List.mem_cons.mp hs with rfl | hs
    · exact h₁.fresh s List.mem_cons_self
    · intro hmem
      exact h.fresh s hs (h₁.switches ▸ List.mem_append_left _ hmem)
  · refine List.nodup_cons.mpr ⟨fun hmem => ?_, h.distinct⟩
    refine h.fresh mutant hmem ?_
    rw [h₁.switches]
    exact List.mem_append_right _ List.mem_cons_self

theorem reserveAll_eq_ok {mutants : List String} {n : Nat} {arms : List Arm}
    (h : reserveAll f n mutants r = (r', .ok arms)) :
    Reserves f mutants r r' ∧
      arms = armsFrom r.module.switches.length r.module.functions.length mutants.length := by
  induction mutants generalizing n r arms with
  | nil =>
      cases h
      refine ⟨⟨⟨[], rfl, ?_⟩, ?_, ?_, rfl, ?_, List.nodup_nil⟩, rfl⟩ <;> simp
  | cons mutant mutants ih =>
      unfold reserveAll at h
      split at h
      · cases h
      · rename_i r₁ a hfirst
        split at h
        · cases h
        · rename_i r₂ as hrest
          cases h
          obtain ⟨hr₁, rfl⟩ := reserve_eq_ok hfirst
          obtain ⟨hr₂, rfl⟩ := ih hrest
          refine ⟨hr₁.cons hr₂, ?_⟩
          rw [hr₁.functions_length, hr₁.switches, List.length_append]
          simp [armsFrom, List.range'_succ]

/-- The functions that are there stay. -/
theorem Reserves.kept {mutants : List String} (h : Reserves f mutants r r') {g : Nat}
    (hg : g < r.module.functions.length) :
    r'.module.functions[g]? = r.module.functions[g]? := by
  obtain ⟨names, -, hfunctions⟩ := h.functions
  rw [hfunctions, List.getElem?_append_left hg]

theorem Reserves.extension {mutants : List String} (h : Reserves f mutants r r') :
    r.module.Extends r'.module := by
  refine ⟨fun g f' hf' => ⟨f', ?_, .refl f'⟩, ?_⟩
  · exact (h.kept (List.getElem?_eq_some_iff.mp hf').1).trans hf'
  · rw [h.switches, List.length_append]
    exact Nat.le_add_right _ _

/-- The clone and the switch of a reserved arm are there. -/
theorem Reserves.standIn {mutants : List String} (h : Reserves f mutants r r') {a : Arm}
    (hroom : r'.module.functions.length ≤ 2 ^ 32)
    (ha : a ∈ armsFrom r.module.switches.length r.module.functions.length mutants.length) :
    r'.module.StandIn f a.clone ∧ a.switch < r'.module.switches.length := by
  have hlength := h.functions_length
  obtain ⟨names, hcount, hfunctions⟩ := h.functions
  obtain ⟨k, hk, rfl⟩ := mem_armsFrom ha
  have hname : k < names.length := hcount ▸ hk
  refine ⟨⟨?_, { f with name := names[k] }, ?_, ⟨rfl, rfl⟩⟩, ?_⟩
  · show r.module.functions.length + k < 2 ^ 32
    omega
  · rw [hfunctions, List.getElem?_append_right (Nat.le_add_right _ _), Nat.add_sub_cancel_left,
      List.getElem?_map, List.getElem?_eq_getElem hname]
    rfl
  · rw [h.switches, List.length_append]
    exact Nat.add_lt_add_left hk _

theorem Module.pushCopy_standIn {m : Module} {stem : String} (hroom : m.functions.length < 2 ^ 32) :
    (m.pushCopy f stem).StandIn f m.functions.length := by
  refine ⟨hroom, { f with name := m.freshName stem }, ?_, ⟨rfl, rfl⟩⟩
  simp [Module.pushCopy, Module.pushFunction]

/-! ## One function -/

/-- What taking one function apart does. -/
structure Isolates (index : Nat) (mutants : List String) (f : Function) (r r' : Reservation) :
    Prop where
  present : r.module.functions[index]? = some f
  params : f.params.toNat ≤ maxForwarded
  functions : ∃ names : List String, names.length = mutants.length + 1 ∧
    r'.module.functions =
      (r.module.functions ++ names.map fun s => { f with name := s }).modify index fun _ =>
        dispatcher f r.module.functions.length
          (armsFrom r.module.switches.length (r.module.functions.length + 1) mutants.length)
  switches : r'.module.switches = r.module.switches ++ mutants
  clones : r'.clones =
    r.clones ++ mutants.zip (List.range' (r.module.functions.length + 1) mutants.length)
  rest : r'.module =
    { r.module with functions := r'.module.functions, switches := r'.module.switches }
  fresh : ∀ s ∈ mutants, s ∉ r.module.switches
  distinct : mutants.Nodup

theorem isolateFunction_eq_ok {index : Nat} {mutants : List String}
    (h : isolateFunction index mutants r = (r', .ok ())) :
    ∃ f, Isolates index mutants f r r' := by
  unfold isolateFunction at h
  split at h
  · cases h
  · rename_i f hf
    dsimp only at h
    split at h
    · cases h
    · rename_i r₂ arms hreserve
      split at h
      · cases h
      · rename_i hparams
        cases h
        obtain ⟨hr₂, rfl⟩ := reserveAll_eq_ok hreserve
        obtain ⟨names, hcount, hfunctions⟩ := hr₂.functions
        have hlength : (r.module.pushCopy f s!"{f.name}$original").functions.length =
            r.module.functions.length + 1 := List.length_append
        refine ⟨f, hf, Nat.le_of_not_lt hparams,
          ⟨r.module.freshName s!"{f.name}$original" :: names, congrArg (· + 1) hcount, ?_⟩,
          hr₂.switches, hlength ▸ hr₂.clones, ?_, hr₂.fresh, hr₂.distinct⟩
        · simp only [Module.modifyFunction, hfunctions, hlength, List.map_cons]
          rw [Module.pushCopy, Module.pushFunction, List.append_assoc, List.singleton_append]
        · simp only [Module.modifyFunction]
          rw [hr₂.rest]
          rfl

namespace Isolates

variable {index : Nat} {mutants : List String}

theorem index_lt (h : Isolates index mutants f r r') : index < r.module.functions.length :=
  (List.getElem?_eq_some_iff.mp h.present).1

theorem functions_length (h : Isolates index mutants f r r') :
    r'.module.functions.length = r.module.functions.length + mutants.length + 1 := by
  obtain ⟨names, hcount, hfunctions⟩ := h.functions
  rw [hfunctions, List.length_modify, List.length_append, List.length_map, hcount, Nat.add_assoc]

/-- The functions in other places stay. -/
theorem others (h : Isolates index mutants f r r') {g : Nat} (hg : g ≠ index)
    (hlt : g < r.module.functions.length) :
    r'.module.functions[g]? = r.module.functions[g]? := by
  obtain ⟨names, -, hfunctions⟩ := h.functions
  rw [hfunctions, List.getElem?_modify_ne _ _ (Ne.symm hg), List.getElem?_append_left hlt]

theorem dispatched (h : Isolates index mutants f r r') :
    r'.module.functions[index]? = some (dispatcher f r.module.functions.length
      (armsFrom r.module.switches.length (r.module.functions.length + 1) mutants.length)) := by
  obtain ⟨names, -, hfunctions⟩ := h.functions
  rw [hfunctions, List.getElem?_modify_eq, List.getElem?_append_left h.index_lt, h.present]
  rfl

theorem copied (h : Isolates index mutants f r r') {k : Nat} (hk : k ≤ mutants.length) :
    ∃ s, r'.module.functions[r.module.functions.length + k]? = some { f with name := s } := by
  obtain ⟨names, hcount, hfunctions⟩ := h.functions
  have hlt := h.index_lt
  have hnames : k < names.length := hcount ▸ Nat.lt_succ_of_le hk
  refine ⟨names[k], ?_⟩
  have hne : index ≠ r.module.functions.length + k := by omega
  rw [hfunctions, List.getElem?_modify_ne _ _ hne,
    List.getElem?_append_right (Nat.le_add_right _ _), Nat.add_sub_cancel_left, List.getElem?_map,
    List.getElem?_eq_getElem hnames]
  rfl

end Isolates

/-! ## All functions -/

/-- An index from a number on at which a copy of a function stands. -/
structure Module.CopyAt (m : Module) (base : Nat) (f : Function) (index : Nat) : Prop where
  appended : base ≤ index
  present : ∃ s, m.functions[index]? = some { f with name := s }

/-- The arm of a mutant: its switch has the name of the mutant, and its clone is recorded. -/
structure Module.ArmFor (m : Module) (clones : List (String × Nat)) (base : Nat) (f : Function)
    (a : Arm) (mutant : String) : Prop where
  switch : m.switches[a.switch]? = some mutant
  recorded : (mutant, a.clone) ∈ clones
  clone : m.CopyAt base f a.clone

/-- In the place of a function stands its dispatcher.  What that calls stands among the
functions from a number on, and the untouched copy is no clone. -/
structure Module.IsolatedAt (m : Module) (clones : List (String × Nat)) (base index : Nat)
    (mutants : List String) (f : Function) : Prop where
  params : f.params.toNat ≤ maxForwarded
  split : ∃ fallback arms, m.functions[index]? = some (dispatcher f fallback arms) ∧
    m.CopyAt base f fallback ∧ (∀ c ∈ clones, c.2 ≠ fallback) ∧
    List.Forall₂ (m.ArmFor clones base f) arms mutants

section Persistence

variable {m m' : Module} {clones clones' : List (String × Nat)} {base index : Nat}
  {mutants : List String}

theorem Module.CopyAt.mono
    (hfunctions : ∀ g f, base ≤ g → m.functions[g]? = some f → m'.functions[g]? = some f)
    (h : m.CopyAt base f index) : m'.CopyAt base f index := by
  obtain ⟨s, hs⟩ := h.present
  exact ⟨h.appended, s, hfunctions _ _ h.appended hs⟩

/-- What is appended later, and what happens to other functions, makes no difference. -/
theorem Module.IsolatedAt.mono
    (hfunctions : ∀ g f, base ≤ g → m.functions[g]? = some f → m'.functions[g]? = some f)
    (hindex : m'.functions[index]? = m.functions[index]?)
    (hswitches : m.switches <+: m'.switches) (hclones : clones ⊆ clones')
    (hnew : ∀ c ∈ clones', c ∈ clones ∨ m.functions.length ≤ c.2)
    (h : m.IsolatedAt clones base index mutants f) :
    m'.IsolatedAt clones' base index mutants f := by
  obtain ⟨fallback, arms, hdispatcher, hcopy, hfallback, harms⟩ := h.split
  refine ⟨h.params, fallback, arms, hindex.trans hdispatcher, hcopy.mono hfunctions, ?_, ?_⟩
  · intro c hc
    obtain ⟨s, hs⟩ := hcopy.present
    have hlt := (List.getElem?_eq_some_iff.mp hs).1
    rcases hnew c hc with hc | hc
    · exact hfallback c hc
    · exact Nat.ne_of_gt (Nat.lt_of_lt_of_le hlt hc)
  · refine harms.imp fun a mutant harm =>
      ⟨?_, hclones harm.recorded, harm.clone.mono hfunctions⟩
    obtain ⟨rest, hrest⟩ := hswitches
    rw [← hrest, List.getElem?_append_left (List.getElem?_eq_some_iff.mp harm.switch).1]
    exact harm.switch

end Persistence

/-- What one step isolates, as a later step will see it. -/
theorem Isolates.isolatedAt {base index : Nat} {mutants : List String}
    (h : Isolates index mutants f r r') (hbase : base ≤ r.module.functions.length)
    (hclones : ∀ c ∈ r.clones, c.2 < r.module.functions.length) :
    r'.module.IsolatedAt r'.clones base index mutants f := by
  have hcopy : ∀ k ≤ mutants.length, r'.module.CopyAt base f (r.module.functions.length + k) :=
    fun k hk => ⟨Nat.le_trans hbase (Nat.le_add_right _ _), h.copied hk⟩
  refine ⟨h.params, _, _, h.dispatched, hcopy 0 (Nat.zero_le _), fun c hc => ?_, ?_⟩
  · rcases List.mem_append.mp (h.clones ▸ hc) with hc | hc
    · exact Nat.ne_of_lt (hclones c hc)
    · have hc := List.mem_range'_1.mp (List.of_mem_zip hc).2
      omega
  · refine List.forall₂_iff_get.mpr ⟨armsFrom_length _ _ _, fun k hk hk' => ?_⟩
    have harm : (armsFrom r.module.switches.length (r.module.functions.length + 1)
        mutants.length).get ⟨k, hk⟩ =
          ⟨r.module.switches.length + k, r.module.functions.length + 1 + k⟩ := by
      refine Option.some.inj (Eq.trans ?_ (armsFrom_getElem? hk'))
      exact (List.getElem?_eq_getElem hk).symm
    rw [harm]
    refine ⟨?_, ?_, ?_⟩
    · rw [h.switches, List.getElem?_append_right (Nat.le_add_right _ _), Nat.add_sub_cancel_left]
      exact List.getElem?_eq_getElem hk'
    · rw [h.clones]
      refine List.mem_append_right _ (List.mem_iff_getElem?.mpr ⟨k, ?_⟩)
      simp [hk']
    · show r'.module.CopyAt base f (r.module.functions.length + 1 + k)
      rw [Nat.add_assoc, Nat.add_comm 1 k]
      exact hcopy (k + 1) hk'

/-- Names with the indices of clones, which rise between two numbers. -/
structure RecordsClones (mutants : List String) (low high : Nat) (cs : List (String × Nat)) :
    Prop where
  names : cs.map Prod.fst = mutants
  rising : (cs.map Prod.snd).Pairwise (· < ·)
  range : ∀ c ∈ cs, low ≤ c.2 ∧ c.2 < high

theorem recordsClones_zip (mutants : List String) (low : Nat) :
    RecordsClones mutants low (low + mutants.length)
      (mutants.zip (List.range' low mutants.length)) := by
  refine ⟨?_, ?_, fun c hc => ?_⟩
  · exact List.map_fst_zip (Nat.le_of_eq List.length_range'.symm)
  · rw [List.map_snd_zip (Nat.le_of_eq List.length_range')]
    exact List.pairwise_lt_range'
  · exact List.mem_range'_1.mp (List.of_mem_zip hc).2

theorem RecordsClones.append {mutants mutants' : List String} {low mid high : Nat}
    {cs cs' : List (String × Nat)} (h : RecordsClones mutants low mid cs)
    (h' : RecordsClones mutants' mid high cs') (hlow : low ≤ mid) (hhigh : mid ≤ high) :
    RecordsClones (mutants ++ mutants') low high (cs ++ cs') := by
  refine ⟨?_, ?_, fun c hc => ?_⟩
  · rw [List.map_append, h.names, h'.names]
  · rw [List.map_append, List.pairwise_append]
    refine ⟨h.rising, h'.rising, fun n hn n' hn' => ?_⟩
    obtain ⟨c, hc, rfl⟩ := List.mem_map.mp hn
    obtain ⟨c', hc', rfl⟩ := List.mem_map.mp hn'
    exact Nat.lt_of_lt_of_le (h.range c hc).2 (h'.range c' hc').1
  · rcases List.mem_append.mp hc with hc | hc
    · exact ⟨(h.range c hc).1, Nat.lt_of_lt_of_le (h.range c hc).2 hhigh⟩
    · exact ⟨Nat.le_trans hlow (h'.range c hc).1, (h'.range c hc).2⟩

/-- What taking functions apart does, with the functions in question below a number from
which on copies are appended. -/
structure IsolatesAll (base : Nat) (owners : List (Nat × List String)) (r r' : Reservation) :
    Prop where
  length : r'.module.functions.length = r.module.functions.length + addedFunctions owners
  others : ∀ g < r.module.functions.length, g ∉ owners.map Prod.fst →
    r'.module.functions[g]? = r.module.functions[g]?
  isolated : ∀ o ∈ owners, ∃ f, r.module.functions[o.1]? = some f ∧
    r'.module.IsolatedAt r'.clones base o.1 o.2 f
  switches : r'.module.switches = r.module.switches ++ owners.flatMap Prod.snd
  clones : ∃ cs, r'.clones = r.clones ++ cs ∧ RecordsClones (owners.flatMap Prod.snd)
    r.module.functions.length r'.module.functions.length cs
  rest : r'.module =
    { r.module with functions := r'.module.functions, switches := r'.module.switches }
  fresh : ∀ s ∈ owners.flatMap Prod.snd, s ∉ r.module.switches
  distinct : (owners.flatMap Prod.snd).Nodup

namespace IsolatesAll

variable {base index : Nat} {mutants : List String} {owners : List (Nat × List String)}

theorem nil (base : Nat) (r : Reservation) : IsolatesAll base [] r r where
  length := rfl
  others := fun _ _ _ => rfl
  isolated := nofun
  switches := (List.append_nil _).symm
  clones := ⟨[], (List.append_nil _).symm, rfl, List.Pairwise.nil, nofun⟩
  rest := rfl
  fresh := nofun
  distinct := List.nodup_nil

/-- Copies that are there already stay. -/
theorem kept (h : IsolatesAll base owners r r') (howners : ∀ o ∈ owners, o.1 < base) {g : Nat}
    {f : Function} (hg : base ≤ g) (hf : r.module.functions[g]? = some f) :
    r'.module.functions[g]? = some f := by
  rw [h.others g (List.getElem?_eq_some_iff.mp hf).1 ?_]
  · exact hf
  · intro hmem
    obtain ⟨o, ho, rfl⟩ := List.mem_map.mp hmem
    exact absurd (howners o ho) (Nat.not_lt_of_le hg)

/-- One function after the other. -/
theorem cons {r₁ : Reservation} (hindex : index ∉ owners.map Prod.fst) (hbelow : index < base)
    (howners : ∀ o ∈ owners, o.1 < base) (hbase : base ≤ r.module.functions.length)
    (hclones : ∀ c ∈ r.clones, c.2 < r.module.functions.length)
    (h₁ : Isolates index mutants f r r₁) (h : IsolatesAll base owners r₁ r') :
    IsolatesAll base ((index, mutants) :: owners) r r' := by
  have hlength₁ := h₁.functions_length
  have hlength := h.length
  obtain ⟨cs, hcs, hrecords⟩ := h.clones
  refine ⟨?_, fun g hg hother => ?_, fun o ho => ?_, ?_, ?_, ?_, fun s hs => ?_, ?_⟩
  · rw [hlength, hlength₁, addedFunctions_cons, Nat.add_assoc, Nat.add_assoc, Nat.add_assoc]
  · rw [List.map_cons, List.mem_cons, not_or] at hother
    rw [h.others g (by omega) hother.2, h₁.others hother.1 hg]
  · rcases List.mem_cons.mp ho with rfl | ho
    · refine ⟨f, h₁.present, (h₁.isolatedAt hbase hclones).mono
        (fun _ _ hg => h.kept howners hg) ?_ ?_ ?_ ?_⟩
      · exact h.others index (by omega) hindex
      · exact h.switches ▸ List.prefix_append _ _
      · exact hcs ▸ List.subset_append_left _ _
      · intro c hc
        rcases List.mem_append.mp (hcs ▸ hc) with hc | hc
        · exact Or.inl hc
        · exact Or.inr (hrecords.range c hc).1
    · obtain ⟨f', hf', hisolated⟩ := h.isolated o ho
      have hne : o.1 ≠ index := fun heq => hindex (List.mem_map.mpr ⟨o, ho, heq⟩)
      rw [h₁.others hne (Nat.lt_of_lt_of_le (howners o ho) hbase)] at hf'
      exact ⟨f', hf', hisolated⟩
  · rw [h.switches, h₁.switches, List.append_assoc, List.flatMap_cons]
  · refine ⟨mutants.zip (List.range' (r.module.functions.length + 1) mutants.length) ++ cs, ?_, ?_⟩
    · rw [hcs, h₁.clones, List.append_assoc]
    -- The untouched copy comes first, so the clones start one behind it.
    · have hzip := recordsClones_zip mutants (r.module.functions.length + 1)
      rw [Nat.add_right_comm, ← hlength₁] at hzip
      have hall := hzip.append hrecords (by omega) (by omega)
      exact ⟨hall.names, hall.rising, fun c hc => ⟨Nat.le_of_succ_le (hall.range c hc).1,
        (hall.range c hc).2⟩⟩
  · rw [h.rest, h₁.rest]
  · rcases List.mem_append.mp (List.flatMap_cons ▸ hs) with hs | hs
    · exact h₁.fresh s hs
    · intro hmem
      exact h.fresh s hs (h₁.switches ▸ List.mem_append_left _ hmem)
  · rw [List.flatMap_cons]
    refine List.nodup_append.mpr ⟨h₁.distinct, h.distinct, fun s hs t ht heq => ?_⟩
    exact h.fresh t ht (h₁.switches ▸ List.mem_append_right _ (heq ▸ hs))

end IsolatesAll

theorem Isolates.clones_lt {index : Nat} {mutants : List String} (h : Isolates index mutants f r r')
    (hclones : ∀ c ∈ r.clones, c.2 < r.module.functions.length) :
    ∀ c ∈ r'.clones, c.2 < r'.module.functions.length := by
  intro c hc
  have hlength := h.functions_length
  rcases List.mem_append.mp (h.clones ▸ hc) with hc | hc
  · exact Nat.lt_of_lt_of_le (hclones c hc) (by omega)
  · have hrange := (recordsClones_zip mutants (r.module.functions.length + 1)).range c hc
    omega

theorem isolateFunctions_eq_ok {base : Nat} {owners : List (Nat × List String)}
    (hdistinct : (owners.map Prod.fst).Nodup) (howners : ∀ o ∈ owners, o.1 < base)
    (hbase : base ≤ r.module.functions.length)
    (hclones : ∀ c ∈ r.clones, c.2 < r.module.functions.length)
    (h : isolateFunctions owners r = (r', .ok ())) : IsolatesAll base owners r r' := by
  induction owners generalizing r with
  | nil =>
      cases h
      exact .nil base _
  | cons o owners ih =>
      obtain ⟨index, mutants⟩ := o
      unfold isolateFunctions at h
      split at h
      · cases h
      · rename_i r₁ hfirst
        obtain ⟨hindex, hdistinct⟩ := List.nodup_cons.mp hdistinct
        have hbelow : index < base := howners _ List.mem_cons_self
        have howners : ∀ o ∈ owners, o.1 < base := fun o ho => howners o (List.mem_cons_of_mem _ ho)
        obtain ⟨f, h₁⟩ := isolateFunction_eq_ok hfirst
        have hbase₁ : base ≤ r₁.module.functions.length := by
          have hlength := h₁.functions_length
          omega
        exact .cons hindex hbelow howners hbase hclones h₁
          (ih hdistinct howners hbase₁ (h₁.clones_lt hclones) h)

namespace IsolatesAll

variable {base g : Nat} {id : ModuleId} {points : List Point}

/-- A function without points stays. -/
theorem unowned (h : IsolatesAll base (mutantsByFunction id points) r r')
    (hg : g < r.module.functions.length) (hnone : pointsIn id points g = []) :
    r'.module.functions[g]? = r.module.functions[g]? := by
  refine h.others g hg fun hmem => ?_
  obtain ⟨o, ho, rfl⟩ := List.mem_map.mp hmem
  exact (mem_mutantsByFunction.mp ho).1 hnone

/-- A function with points is taken apart for all of them. -/
theorem owned (h : IsolatesAll base (mutantsByFunction id points) r r')
    (hsome : pointsIn id points g ≠ []) :
    ∃ f, r.module.functions[g]? = some f ∧ r'.module.IsolatedAt r'.clones base g
      ((pointsIn id points g).map Point.identifier) f :=
  h.isolated (g, (pointsIn id points g).map Point.identifier)
    (mem_mutantsByFunction.mpr ⟨hsome, rfl⟩)

end IsolatesAll

/-! ## The record of the clones -/

/-- Clones are recorded of modules only that have none on record, so this does not fail. -/
theorem LoadedModule.isolate_eq (l : LoadedModule) (points : List Point) :
    l.isolate points =
      if l.isPrepared then (l, .error (.alreadyPrepared l.identifier))
      else
        match isolateFunctions (mutantsByFunction l.id points) ⟨l.module, []⟩ with
        | (r, .error e) => ({ l with module := r.module }, .error e)
        | (r, .ok ()) => ({ l with module := r.module, clones := some r.clones }, .ok ()) := by
  by_cases hnew : l.isPrepared = true
  · rw [isolate, if_pos hnew, if_pos hnew]
  · rw [isolate, if_neg hnew, if_neg hnew]
    rcases isolateFunctions (mutantsByFunction l.id points) ⟨l.module, []⟩ with ⟨r, e | u⟩
    · rfl
    · have hset : LoadedModule.setClones? { l with module := r.module } r.clones =
          some { l with module := r.module, clones := some r.clones } := if_neg hnew
      dsimp only
      rw [recordClones, hset]

end MutantGate
