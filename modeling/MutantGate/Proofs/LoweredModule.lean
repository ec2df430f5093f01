import Mathlib.Algebra.Order.Floor.Div
import Mathlib.Data.UInt
import Mathlib.GroupTheory.GroupAction.Ring
import MutantGate.Proofs.LoweredRuns
import MutantGate.Proofs.LoweredTypes
/-!
# What a well-formed module is lowered to

A module with which nothing is wrong has code for all its functions, so its memory alone
decides if it can be lowered: the pages it needs, counted without bound, have to be within
the limit.  What it is lowered to is a valid module of WebAssembly, if the limit itself is
one that a memory can have and if the registers of each function can be counted.

## What is proved

For every well-formed module and all options: it can be lowered exactly if its pages, as a whole
number without bound, are within the limit, and it is refused for its memory or not at all.  If the
limit is one of WebAssembly and each function has fewer than `2 ^ 32` registers with the selector,
then what comes out is valid: code has its types, indices lead somewhere, exports differ.

## What is left outside

Validity is that of the module as it is described in `Wasm.Module`; its bytes are not read again.
The size of sections and bodies, for which WebAssembly has 32 bits too, is not bounded.
-/

namespace MutantGate

open Wasm (Instr ValueType)
open Wasm.Instr (BodyTyped)

/-! ## Memory -/

section Memory

variable {m : Module}

/-- The pages that hold a module's words of four bytes, but one at least. -/
theorem pagesFor_eq (words : Nat) : pagesFor words = max 1 (4 * words ⌈/⌉ 65536) := by
  rw [pagesFor, Nat.ceilDiv_eq_add_pred_div, Wasm.pageBytes, Nat.add_sub_assoc (by decide)]

/-- Pages that can be limited can be counted. -/
theorem countable_of_pagesFor_le {words : Nat} {limit : UInt32}
    (h : pagesFor words ≤ limit.toNat) : 4 * words < UInt64.size := by
  rw [pagesFor_eq, max_le_iff, ceilDiv_le_iff_le_mul (by decide)] at h
  have hlimit := limit.toNat_lt
  have hsize : UInt64.size = 2 ^ 64 := rfl
  omega

theorem memoryPages_eq_ok_iff {limit : UInt32} {pages : Nat} :
    memoryPages limit m = .ok pages ↔
      pages = pagesFor m.memoryWords.toNat ∧ pagesFor m.memoryWords.toNat ≤ limit.toNat := by
  unfold memoryPages
  constructor
  · intro h
    dsimp only at h
    split at h
    · cases h
    · split at h
      · cases h
      · rename_i hfits
        cases h
        exact ⟨rfl, Nat.le_of_not_lt hfits⟩
  · rintro ⟨rfl, hfits⟩
    dsimp only
    rw [if_neg (Nat.not_le_of_lt (countable_of_pagesFor_le hfits)), if_neg (Nat.not_lt_of_le hfits)]

/-- The memory of a module is refused if its bytes cannot be counted, and else if it needs too
many pages. -/
theorem memoryPages_eq_error {limit : UInt32} {o : Obstacle} (h : memoryPages limit m = .error o) :
    (2 ^ 64 ≤ 4 * m.memoryWords.toNat ∧
        o = .memoryUncountable m.memoryWords.toNat limit.toNat) ∨
      (limit.toNat < pagesFor m.memoryWords.toNat ∧
        o = .memoryTooLarge m.memoryWords.toNat (pagesFor m.memoryWords.toNat) limit.toNat) := by
  unfold memoryPages at h
  dsimp only at h
  split at h
  · rename_i huncountable
    cases h
    exact Or.inl ⟨huncountable, rfl⟩
  · split at h
    · rename_i hlarge
      cases h
      exact Or.inr ⟨hlarge, rfl⟩
    · cases h

end Memory

/-! ## Functions -/

section Functions

variable {m : Module} {f : Function}

/-- The context of the body of a function, with a number of local variables. -/
def Function.bodyContext (m : Module) (f : Function) (locals : Nat) : Wasm.Context where
  functions := m.functions.map Function.loweredType
  globals := List.replicate m.switches.length .i32
  memories := 1
  locals := List.replicate locals .i32
  labels := [f.returns.results]
  results := f.returns.results

theorem Function.bodyContext_declares {locals : Nat} (hregisters : f.registers.toNat ≤ locals)
    (hselector : f.selector.toNat < locals) :
    (f.bodyContext m locals).inside.inside.Declares m f where
  functions := fun g h hg => by
    show (m.functions.map Function.loweredType)[g]? = _
    rw [List.getElem?_map, hg]
    rfl
  globals := fun k hk => List.getElem?_replicate_of_lt hk
  memory := Nat.one_pos
  locals := fun k hk => List.getElem?_replicate_of_lt (Nat.lt_of_lt_of_le hk hregisters)
  selector := List.getElem?_replicate_of_lt hselector
  loop := rfl
  results := rfl

/-- For the typing of code one only has to allow for local variables enough, so there is a
context for any function, whatever the number of its registers is. -/
theorem Function.exists_declares (m : Module) (f : Function) :
    ∃ C : Wasm.Context, C.inside.inside.Declares m f := by
  have hselector : f.selector.toNat < UInt32.size := f.selector.toNat_lt
  exact ⟨f.bodyContext m (f.registers.toNat + UInt32.size),
    f.bodyContext_declares (Nat.le_add_right _ _)
      (Nat.lt_of_lt_of_le hselector (Nat.le_add_left _ _))⟩

/-- There is code for an instruction that is in order. -/
theorem lowerInstruction_isOk {block : Nat} {i : Instruction}
    (hi : instructionViolations m f block i = []) :
    ∃ c, lowerInstruction m f.selector block i = .ok c := by
  obtain ⟨C, hC⟩ := f.exists_declares m
  obtain ⟨c, hc, -⟩ := lowerInstruction_typed hC hi
  exact ⟨c, hc⟩

/-- There is code for a well-formed function. -/
theorem lowerFunction_isOk (hf : f.WellFormedIn m) : ∃ h, lowerFunction m f = .ok h := by
  obtain ⟨C, hC⟩ := f.exists_declares m
  obtain ⟨h, hlower, -⟩ := lowerFunction_typed hC hf
  exact ⟨h, hlower⟩

/-- Functions can be lowered together if each of them can be. -/
theorem lowerFunctions_isOk_of_forall {fs : List Function}
    (hfs : ∀ f ∈ fs, ∃ h, lowerFunction m f = .ok h) : ∃ hs, lowerFunctions m fs = .ok hs := by
  induction fs with
  | nil => exact ⟨[], rfl⟩
  | cons f fs ih =>
      obtain ⟨h, hlower⟩ := hfs f List.mem_cons_self
      obtain ⟨hs, hrest⟩ := ih fun f' hf' => hfs f' (List.mem_cons_of_mem _ hf')
      refine ⟨h :: hs, ?_⟩
      simp only [lowerFunctions, hlower, hrest]
      rfl

theorem lowerFunctions_isOk {fs : List Function} (hfs : ∀ f ∈ fs, f.WellFormedIn m) :
    ∃ hs, lowerFunctions m fs = .ok hs :=
  lowerFunctions_isOk_of_forall fun f hf => lowerFunction_isOk (hfs f hf)

/-- The signatures stay. -/
theorem lowerFunctions_types {fs : List Function} {hs : List Wasm.Func}
    (hc : lowerFunctions m fs = .ok hs) :
    hs.map Wasm.Func.type = fs.map Function.loweredType := by
  refine List.ext_getElem? fun g => ?_
  have hg := lowerFunctions_getElem? hc g
  rw [List.getElem?_map, List.getElem?_map]
  cases hf : fs[g]? with
  | none =>
      rw [hf] at hg
      rw [Option.map_eq_none_iff.mp hg]
      rfl
  | some f =>
      rw [hf] at hg
      obtain ⟨h, hh, hlower⟩ := Option.map_eq_some_iff.mp hg
      rw [hh]
      exact congrArg some (lowerFunction_type hlower.symm).1

end Functions

/-! ## Modules that can be lowered -/

section Modules

variable {m : Module} {options : LoweringOptions} {w : Wasm.Module}

theorem lower_eq_ok (hc : lower options m = .ok w) :
    ∃ pages, memoryPages options.maxPages m = .ok pages ∧
      w = { functions := w.functions
            minPages := pages
            maxPages := max options.maxPages.toNat pages
            globals := m.switches.length
            exports := moduleExports options m } := by
  unfold lower at hc
  split at hc
  · cases hc
  · rename_i pages hpages
    cases hfunctions : lowerFunctions m m.functions with
    | error e => rw [hfunctions] at hc; cases hc
    | ok hs => rw [hfunctions] at hc; cases hc; exact ⟨pages, hpages, rfl⟩

/-- A well-formed module is refused for its memory only. -/
theorem Module.WellFormed.lower_eq_error (hm : m.WellFormed) {o : Obstacle}
    (hc : lower options m = .error o) : memoryPages options.maxPages m = .error o := by
  obtain ⟨hs, hfunctions⟩ := lowerFunctions_isOk hm.functions
  unfold lower at hc
  split at hc
  · rename_i hpages
    cases hc
    exact hpages
  · rw [hfunctions] at hc
    cases hc

theorem Module.WellFormed.lower_isOk_iff (hm : m.WellFormed) :
    (∃ w, lower options m = .ok w) ↔
      pagesFor m.memoryWords.toNat ≤ options.maxPages.toNat := by
  constructor
  · rintro ⟨w, hw⟩
    obtain ⟨pages, hpages, -⟩ := lower_eq_ok hw
    exact (memoryPages_eq_ok_iff.mp hpages).2
  · intro hfits
    obtain ⟨hs, hfunctions⟩ := lowerFunctions_isOk hm.functions
    have hpages := (memoryPages_eq_ok_iff (m := m)).mpr ⟨rfl, hfits⟩
    simp only [lower, hpages, hfunctions]
    exact ⟨_, rfl⟩

/-- A well-formed module can be lowered exactly if the pages for its memory, one at least, are
within the limit; then its bytes can be counted in 64 bits, and the memory has those pages.
If it cannot be lowered, the obstacle is its memory. -/
theorem lower_isOk_iff_memory_fits (options : LoweringOptions) (hwf : m.isWellFormed = true) :
    ((∃ w, lower options m = .ok w) ↔
        max 1 (4 * m.memoryWords.toNat ⌈/⌉ 65536) ≤ options.maxPages.toNat) ∧
      (∀ w, lower options m = .ok w →
        4 * m.memoryWords.toNat < 2 ^ 64 ∧
          w.minPages = max 1 (4 * m.memoryWords.toNat ⌈/⌉ 65536)) ∧
      ∀ o, lower options m = .error o →
        (2 ^ 64 ≤ 4 * m.memoryWords.toNat ∧
            o = .memoryUncountable m.memoryWords.toNat options.maxPages.toNat) ∨
          (options.maxPages.toNat < max 1 (4 * m.memoryWords.toNat ⌈/⌉ 65536) ∧
            o = .memoryTooLarge m.memoryWords.toNat (max 1 (4 * m.memoryWords.toNat ⌈/⌉ 65536))
              options.maxPages.toNat) := by
  have hm := (Module.isWellFormed_iff m).mp hwf
  simp only [← pagesFor_eq]
  refine ⟨hm.lower_isOk_iff, fun w hw => ?_, fun o ho => memoryPages_eq_error (hm.lower_eq_error ho)⟩
  obtain ⟨pages, hpages, hfields⟩ := lower_eq_ok hw
  obtain ⟨rfl, hfits⟩ := memoryPages_eq_ok_iff.mp hpages
  rw [hfields]
  exact ⟨countable_of_pagesFor_le hfits, rfl⟩

/-- Of one page and of two, the memory of the summing module. -/
theorem lower_isOk_iff_memory_fits_summing :
    (∃ w, lower .default { summing with memoryWords := 16384 } = .ok w) ∧
      ¬ (∃ w, lower .default { summing with memoryWords := 16385 } = .ok w) ∧
      ¬ ∃ w, lower .default { summing with memoryWords := 2 ^ 62 } = .ok w := by
  refine ⟨?_, ?_, ?_⟩
  · exact (lower_isOk_iff_memory_fits .default (by decide)).1.mpr (by decide)
  · rw [(lower_isOk_iff_memory_fits .default (by decide)).1]
    decide
  · rw [(lower_isOk_iff_memory_fits .default (by decide)).1]
    decide +kernel

end Modules

/-! ## Validity -/

section Validity

variable {m : Module} {options : LoweringOptions} {w : Wasm.Module}

/-- A name begins with the letter that its lead begins with. -/
theorem head?_append {lead : String} {c : Char} (s : String) (h : lead.toList.head? = some c) :
    (lead ++ s).toList.head? = some c := by
  rw [String.toList_append, List.head?_append, h]
  rfl

/-- Items exported under their index keep their names, in order. -/
theorem zipIdx_export_names {α : Type} (xs : List α) (toExport : α × Nat → Wasm.Export)
    (name : α → String) (h : ∀ p, (toExport p).name = name p.1) :
    (xs.zipIdx.map toExport).map Wasm.Export.name = xs.map name := by
  conv_rhs => rw [← List.zipIdx_map_fst 0 xs]
  rw [List.map_map, List.map_map]
  exact List.map_congr_left fun p _ => h p

theorem moduleExports_names (options : LoweringOptions) (m : Module) :
    (moduleExports options m).map Wasm.Export.name =
      (if options.exportFunctions then (m.functions.map Function.name).map ("fn:" ++ ·) else []) ++
        "memory" :: m.switches.map ("switch:" ++ ·) := by
  unfold moduleExports
  rw [List.map_append, List.map_cons, apply_ite (List.map Wasm.Export.name), List.map_nil,
    zipIdx_export_names m.functions _ (fun f => "fn:" ++ f.name) (fun _ => rfl),
    zipIdx_export_names m.switches _ ("switch:" ++ ·) (fun _ => rfl), List.map_map]
  rfl

/-- The names of functions, of the memory and of switches begin with different letters, so it
is enough that those of one kind differ. -/
theorem moduleExports_distinct (hm : m.WellFormed) (options : LoweringOptions) :
    ((moduleExports options m).map Wasm.Export.name).Nodup := by
  have hmemory : "memory".toList.head? = some 'm' := rfl
  have hswitch : ∀ s : String, ("switch:" ++ s).toList.head? = some 's' :=
    fun s => head?_append s rfl
  have hfunction : ∀ s : String, ("fn:" ++ s).toList.head? = some 'f' :=
    fun s => head?_append s rfl
  have hothers : ("memory" :: m.switches.map ("switch:" ++ ·)).Nodup := by
    refine List.nodup_cons.mpr ⟨fun hmem => ?_, ?_⟩
    · obtain ⟨s, -, heq⟩ := List.mem_map.mp hmem
      have hhead := hswitch s
      rw [heq, hmemory] at hhead
      exact absurd hhead (by decide)
    · exact hm.switchesDistinct.map fun s t => (String.append_right_inj _).mp
  rw [moduleExports_names]
  split
  · refine List.nodup_append.mpr ⟨?_, hothers, fun a ha b hb heq => ?_⟩
    · exact hm.namesDistinct.map fun s t => (String.append_right_inj _).mp
    · obtain ⟨s, -, rfl⟩ := List.mem_map.mp ha
      have hhead := hfunction s
      rcases List.mem_cons.mp hb with rfl | hb
      · rw [heq, hmemory] at hhead
        exact absurd hhead (by decide)
      · obtain ⟨t, -, rfl⟩ := List.mem_map.mp hb
        rw [heq, hswitch t] at hhead
        exact absurd hhead (by decide)
  · exact hothers

theorem mem_moduleExports {e : Wasm.Export} (he : e ∈ moduleExports options m) :
    (e.kind = .function ∧ e.index < m.functions.length) ∨ (e.kind = .memory ∧ e.index = 0) ∨
      (e.kind = .global ∧ e.index < m.switches.length) := by
  unfold moduleExports at he
  rcases List.mem_append.mp he with he | he
  · split at he
    · obtain ⟨⟨f, index⟩, hf, rfl⟩ := List.mem_map.mp he
      have hget := List.mem_zipIdx_iff_getElem?.mp hf
      exact Or.inl ⟨rfl, (List.getElem?_eq_some_iff.mp hget).1⟩
    · cases he
  · rcases List.mem_cons.mp he with rfl | he
    · exact Or.inr (Or.inl ⟨rfl, rfl⟩)
    · obtain ⟨⟨s, index⟩, hs, rfl⟩ := List.mem_map.mp he
      have hget := List.mem_zipIdx_iff_getElem?.mp hs
      exact Or.inr (Or.inr ⟨rfl, (List.getElem?_eq_some_iff.mp hget).1⟩)

theorem lower_lengths (hc : lower options m = .ok w) :
    w.types = m.functions.map Function.loweredType ∧ w.globals = m.switches.length := by
  obtain ⟨pages, -, hfields⟩ := lower_eq_ok hc
  exact ⟨lowerFunctions_types (lower_functions hc), congrArg Wasm.Module.globals hfields⟩

/-- A function whose registers can be counted is lowered to a valid one. -/
theorem lowerFunction_validIn {f : Function} {h : Wasm.Func} (hc : lower options m = .ok w)
    (hf : f.WellFormedIn m) (hcount : f.Countable) (hlower : lowerFunction m f = .ok h) :
    h.ValidIn w.context := by
  obtain ⟨htypes, hglobals⟩ := lower_lengths hc
  obtain ⟨htype, hlocals⟩ := lowerFunction_type hlower
  have hparams := lowerFunction_params hlower
  have hregisters := hcount.registers
  have hdeclared : h.locals.toNat = f.locals.toNat + 1 := by
    rw [hlocals]
    exact hcount.locals
  have hcontext : h.context w.context =
      f.bodyContext m (f.params.toNat + (f.locals.toNat + 1)) := by
    unfold Wasm.Func.context Wasm.Module.context Function.bodyContext
    rw [htypes, hglobals, htype, hparams, hdeclared]
    rfl
  have hdeclares : (f.bodyContext m (f.params.toNat + (f.locals.toNat + 1))).inside.inside.Declares
      m f := Function.bodyContext_declares (by omega) (by rw [hcount.selector]; omega)
  obtain ⟨h', hlower', hbody⟩ := lowerFunction_typed hdeclares hf
  obtain rfl : h' = h := Except.ok.inj (hlower'.symm.trans hlower)
  constructor
  · rw [hparams, hdeclared]
    exact hcount
  · rw [hcontext, htype]
    exact hbody

/-- What a well-formed module is lowered to is valid. -/
theorem lower_valid (hwf : m.isWellFormed = true)
    (hcount : ∀ f ∈ m.functions, f.params.toNat + f.locals.toNat + 1 < 2 ^ 32)
    (hlimit : options.maxPages.toNat ≤ 65536) (hc : lower options m = .ok w) : w.Valid := by
  have hm := (Module.isWellFormed_iff m).mp hwf
  obtain ⟨htypes, hglobals⟩ := lower_lengths hc
  obtain ⟨pages, hpages, hfields⟩ := lower_eq_ok hc
  have hlength : w.functions.length = m.functions.length := by
    simpa [Wasm.Module.types] using congrArg List.length htypes
  refine ⟨w.types_listed, fun h hh => ?_, ?_, fun e he => ?_, ?_⟩
  · obtain ⟨g, hg⟩ := List.mem_iff_getElem?.mp hh
    have hlowered := lowerFunctions_getElem? (lower_functions hc) g
    rw [hg] at hlowered
    obtain ⟨f, hf, hlower⟩ := Option.map_eq_some_iff.mp hlowered.symm
    have hmem := List.mem_of_getElem? hf
    exact lowerFunction_validIn hc (hm.functions f hmem) (hcount f hmem) hlower
  · have hfits := (memoryPages_eq_ok_iff.mp hpages).2
    rw [← (memoryPages_eq_ok_iff.mp hpages).1] at hfits
    rw [hfields]
    exact ⟨Nat.le_max_right _ _, Nat.max_le.mpr ⟨hlimit, Nat.le_trans hfits hlimit⟩⟩
  · rw [hfields] at he
    unfold Wasm.Module.count Wasm.Module.context
    rcases mem_moduleExports he with ⟨hkind, hindex⟩ | ⟨hkind, hindex⟩ | ⟨hkind, hindex⟩ <;>
      rw [hkind]
    · exact hlength.symm ▸ hindex
    · exact hindex.symm ▸ Nat.one_pos
    · simpa [hglobals] using hindex
  · rw [hfields]
    exact moduleExports_distinct hm options

theorem lower_valid_summing : ∃ w, lower .default summing = .ok w ∧ w.Valid := by
  obtain ⟨w, hw⟩ : ∃ w, lower .default summing = .ok w := ⟨_, rfl⟩
  exact ⟨w, hw, lower_valid (by decide) (by decide) (by decide) hw⟩

end Validity

end MutantGate
