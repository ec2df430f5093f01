import MutantGate.Proofs.LoweredRuns
import MutantGate.Proofs.Semantics.Calls
/-!
# The rounds of the loop over the blocks

The code for a function is a loop over its blocks, with a trap behind the loop that is never
reached.  Each round begins with the number of a block in the selector.  Of all the conditionals
in the loop the round enters the one around the code of that block and no other, and it ends
inside: with a return, with a trap, or by going to the beginning of the loop with the number of
a block in the selector again.

This is so because nothing but a branch writes to the selector, which stands behind all registers,
and because a block ends with a branch to a block that is there or with a return.  It takes an
index for the selector that fits a word, and a number of local variables that does so with the
selector among them: where that number wraps around there is no selector at all.

## What is proved

For every function of a lowered module, whatever functions it calls, as long as they take their
arguments and give results of their types: every round that the loop begins runs the code of one
block and enters no other conditional, and the loop never goes on to what stands behind it.  The
step is from the beginning of a round to the beginning of the next (`ready_of_branch`), the
induction is on the rounds.  Calls of lowered functions, to any depth, are among those that are
allowed.  A module beyond the bounds is given too, of which the first round is stuck.

## What is left outside

That the code of a block does what the block does is not said here; that is
`Proofs.LoweredInstruction` and `Proofs.LoweredRuns`.  Nor is it said that a call comes to an end:
the rounds are those that there are under any bound.
-/

namespace MutantGate

open Wasm (Instr)

namespace Wasm

/-! ## Rounds of a loop -/

/-- The state in which a round of a loop begins, and the number of rounds before it. -/
inductive BeginsRound (body : State → Outcome Flow) (entry : State) : Nat → State → Prop
  | first : BeginsRound body entry 0 { entry with stack := [] }
  | again {k : Nat} {s t : State} (round : BeginsRound body entry k s)
      (branch : body s = .ok (.branch 0 t)) :
      BeginsRound body entry (k + 1) { t with stack := [] }

section Rounds

variable {body : State → Outcome Flow} {entry s t : State} {k n : Nat}

/-- A round of the loop as it goes on after its first round is one of the loop itself. -/
theorem BeginsRound.after_first (hfirst : body { entry with stack := [] } = .ok (.branch 0 t))
    (h : BeginsRound body { t with stack := entry.stack } k s) :
    BeginsRound body entry (k + 1) s := by
  induction h with
  | first => exact .again (t := t) .first hfirst
  | again _ branch ih => exact .again ih branch

/-- A loop leads on to what stands behind it only from the end of a round. -/
theorem exists_round_of_runLoop_next (h : runLoop body n entry = .ok (.next t)) :
    ∃ k s u, BeginsRound body entry k s ∧ body s = .ok (.next u) := by
  induction n generalizing entry with
  | zero => cases h
  | succ n ih =>
      unfold runLoop at h
      obtain ⟨flow, hflow, h⟩ := Outcome.bind_eq_ok h
      cases flow with
      | next u => exact ⟨0, _, u, .first, hflow⟩
      | branch d u =>
          cases d with
          | zero =>
              obtain ⟨k, s, v, hround, hnext⟩ := ih h
              exact ⟨k + 1, s, v, hround.after_first hflow, hnext⟩
          | succ d => cases h
      | ret stack m => cases h

end Rounds

/-! ## Conditionals -/

/-- Is the instruction a conditional? -/
def Instr.isConditional : Instr → Bool
  | .ifThen _ => true
  | _ => false

/-- What is entered with an instruction: the body of a conditional whose condition holds. -/
def Instr.entered? : Instr → State → Option (List Instr)
  | .ifThen body, s => if s.stack.head?.any (· != 0) then some body else none
  | _, _ => none

/-- The conditionals of a body that a run of it enters: each with its number among those of the
body, counted from a given number on, and with what is inside. -/
def Instr.entered (σ : Surroundings) (n : Nat) : Nat → List Instr → State → List (Nat × List Instr)
  | _, [], _ => []
  | k, i :: body, s =>
    (i.entered? s).toList.map (k, ·) ++
      match i.exec σ n s with
      | .ok (.next t) => Instr.entered σ n (if i.isConditional then k + 1 else k) body t
      | _ => []

section Conditionals

variable {σ : Surroundings} {n k : Nat} {i : Instr} {body : List Instr} {s t : State}

theorem entered_cons_next (hi : i.isConditional = false) (h : i.exec σ n s = .ok (.next t)) :
    Instr.entered σ n k (i :: body) s = Instr.entered σ n k body t := by
  have hnothing : i.entered? s = none := by
    cases i <;> first | rfl | cases hi
  simp [Instr.entered, hnothing, hi, h]

/-- A conditional that does not lead on once it is entered is the last one that is entered. -/
theorem entered_ifThen {inner : List Instr} (hcond : s.stack.head?.any (· != 0) = true)
    (h : ∀ u, (Instr.ifThen inner).exec σ n s ≠ .ok (.next u)) :
    Instr.entered σ n k (.ifThen inner :: body) s = [(k, inner)] := by
  unfold Instr.entered
  rw [Instr.entered?, if_pos hcond]
  split
  · rename_i u hnext
    exact absurd hnext (h u)
  · rfl

/-- A conditional that is not entered is counted all the same. -/
theorem entered_ifThen_skip {inner : List Instr} (hcond : s.stack.head?.any (· != 0) = false)
    (h : (Instr.ifThen inner).exec σ n s = .ok (.next t)) :
    Instr.entered σ n k (.ifThen inner :: body) s = Instr.entered σ n (k + 1) body t := by
  rw [Instr.entered, Instr.entered?, if_neg (by rw [hcond]; exact Bool.false_ne_true), h]
  rfl

end Conditionals

end Wasm

/-! ## The round of a block -/

section Rounds

variable {m : Module} {f : Function} {σ : Surroundings} {τ : Wasm.Surroundings} {n block : Nat}

theorem whenSelected_entered {selector : UInt32} {s : Frame} {c cs : List Instr} {j k : Nat}
    {p : Word} (hsel : selector.toNat = s.registers.length) :
    Instr.entered τ n j (whenSelected selector k c ++ cs) (s.toState [] p) =
      Instr.entered τ n j (.ifThen c :: cs)
        (s.toState [wordOfBool (p == BitVec.ofNat 32 k)] p) := by
  rw [whenSelected, List.cons_append,
    Wasm.entered_cons_next rfl (localGet_selector_exec hsel)]
  exact (Wasm.entered_cons_next rfl rfl).trans (Wasm.entered_cons_next rfl rfl)

/-- The code of a block does not lead on behind the conditional around it. -/
theorem lowerInstructions_leaves (hσ : σ.Lowers m τ) (hsel : f.selector.toNat = f.registers.toNat)
    {is : Block} {s : Frame} {c : List Instr} (hregs : s.registers.length = f.registers.toNat)
    (his : is.WellFormedIn m f block) (hc : lowerInstructions m f.selector block is = .ok c)
    (p : Word) (u : Wasm.State) :
    (Instr.execBody τ n c (s.toState [] p)).map (Wasm.Flow.leave []) ≠ .ok (.next u) := by
  rw [lowerInstructions_simulates hσ hsel his.sound hregs hc]
  cases hflow : execBlock σ f.returns block is s with
  | error e => exact nofun
  | ok flow =>
      cases flow with
      | next t => exact absurd hflow (execBlock_ne_next his.nonempty his.last)
      | goto d t => exact nofun
      | ret r => exact nofun

/-- Of the conditionals around blocks that of the selected block is entered. -/
theorem lowerBlocks_entered (hσ : σ.Lowers m τ) (hsel : f.selector.toNat = f.registers.toNat)
    {is : Block} {s : Frame} (hregs : s.registers.length = f.registers.toNat)
    (his : is.WellFormedIn m f block) (hblock : block < 2 ^ 32) {bs : List Block} {k : Nat}
    {code : List Instr} (hk : k ≤ block) (hb : bs[block - k]? = some is)
    (hc : lowerBlocks m f.selector k bs = .ok code) :
    ∃ c, lowerInstructions m f.selector block is = .ok c ∧
      Instr.entered τ n k code (s.toState [] (BitVec.ofNat 32 block)) = [(block, c)] := by
  -- By induction on the blocks from number k on, as they are numbered in the code.
  induction bs generalizing k code with
  | nil => cases hb
  | cons b bs ih =>
      unfold lowerBlocks at hc
      split at hc
      · cases hc
      · cases hc
      · rename_i c cs hfirst hrest
        cases hc
        rw [whenSelected_entered (hsel.trans hregs.symm)]
        by_cases hkb : k = block
        · subst hkb
          obtain rfl : b = is := by simpa using hb
          refine ⟨c, hfirst, Wasm.entered_ifThen (by simp [Frame.toState, wordOfBool]) fun u => ?_⟩
          rw [conditional_exec, if_neg (by simp [wordOfBool])]
          exact lowerInstructions_leaves hσ hsel hregs his hfirst _ u
        · have hne := ofNat_word_ne hblock (Nat.lt_of_le_of_lt hk hblock) (Ne.symm hkb)
          have hskip : (Instr.ifThen c).exec τ n
              (s.toState [wordOfBool (BitVec.ofNat 32 block == BitVec.ofNat 32 k)]
                (BitVec.ofNat 32 block)) =
              .ok (.next (s.toState [] (BitVec.ofNat 32 block))) := by
            rw [conditional_exec, if_pos (by simp [wordOfBool, hne])]
          rw [Wasm.entered_ifThen_skip (by simp [Frame.toState, wordOfBool, hne]) hskip]
          refine ih (k := k + 1) (by omega) ?_ hrest
          have hindex : block - k = block - (k + 1) + 1 := by omega
          rwa [hindex, List.getElem?_cons_succ] at hb

/-! ## What holds of every round -/

/-- The selector has the number of a block. -/
structure Function.Selects (f : Function) (s : Wasm.State) (block : Nat) : Prop where
  lt_length : block < f.blocks.length
  selector : s.locals[f.selector.toNat]? = some (BitVec.ofNat 32 block)

/-- The ends that a round of the loop may have: a return, a trap, the beginning of the loop with a
block selected, or a call that comes to no end. -/
inductive Function.EndsRound (f : Function) (callees : Callees) : Outcome Wasm.Flow → Prop
  | ret (stack : List Word) (memory : Memory) : f.EndsRound callees (.ok (.ret stack memory))
  | trap : f.EndsRound callees (.error .trap)
  | again {t : Wasm.State} {block : Nat} (selects : f.Selects t block) :
      f.EndsRound callees (.ok (.branch 0 t))
  | inCall {g : Nat} {args : List Word} {memory : Memory}
      (endless : callees g args memory = .error .unfinished) :
      f.EndsRound callees (.error .unfinished)

/-- The round that begins in a state runs the code of a block: the block is selected, of all
conditionals the one around its code is entered, and the round ends inside of the loop. -/
structure Function.RunsBlock (m : Module) (f : Function) (τ : Wasm.Surroundings) (n : Nat)
    (code : List Instr) (s : Wasm.State) (block : Nat) : Prop where
  selects : f.Selects s block
  enters : ∃ is c, f.blocks[block]? = some is ∧ lowerInstructions m f.selector block is = .ok c ∧
    Instr.entered τ n 0 code s = [(block, c)]
  ends : f.EndsRound τ.callees (Instr.execBody τ n code s)

theorem Frame.toState_selects {s : Frame} (hsel : f.selector.toNat = f.registers.toNat)
    (hregs : s.registers.length = f.registers.toNat) (hblock : block < f.blocks.length)
    (stack : List Word) : f.Selects (s.toState stack (BitVec.ofNat 32 block)) block := by
  refine ⟨hblock, ?_⟩
  rw [hsel, ← hregs, Frame.toState, List.getElem?_append_right (Nat.le_refl _)]
  simp

/-- A state that stands for the registers of a function, with a block selected. -/
def Function.Ready (f : Function) (s : Wasm.State) : Prop :=
  ∃ (block : Nat) (frame : Frame), block < f.blocks.length ∧
    frame.registers.length = f.registers.toNat ∧ s = frame.toState [] (BitVec.ofNat 32 block)

/-- The run of a block ends the round that it is. -/
theorem execBlock_endsRound (hserves : σ.Serves m) {is : Block} {s : Frame}
    (his : is.WellFormedIn m f block) (hsel : f.selector.toNat = f.registers.toNat)
    (hregs : s.registers.length = f.registers.toNat) (p : Word) :
    f.EndsRound σ.callees
      ((execBlock σ f.returns block is s).map fun flow => (flow.toWasm p).leave []) := by
  cases hflow : execBlock σ f.returns block is s with
  | error e =>
      cases e with
      | trap => exact .trap
      | stuck => exact absurd hflow (execBlock_ne_stuck hserves his.sound hregs)
      | unfinished =>
          obtain ⟨call, -, hendless⟩ := exists_unfinished_call hflow
          exact .inCall hendless
  | ok flow =>
      cases flow with
      | next t => exact absurd hflow (execBlock_ne_next his.nonempty his.last)
      | goto d t =>
          exact .again (Frame.toState_selects hsel ((execBlock_keeps hflow).trans hregs)
            (execBlock_goto_lt his.sound hflow) [])
      | ret r => exact .ret _ _

/-- The block to which a block leads is the selected one in the state that is left. -/
theorem execBlock_ready {is : Block} {s : Frame} {t : Wasm.State} {p : Word}
    (his : is.WellFormedIn m f block) (hregs : s.registers.length = f.registers.toNat)
    (h : ((execBlock σ f.returns block is s).map fun flow => (flow.toWasm p).leave []) =
      .ok (.branch 0 t)) : f.Ready { t with stack := [] } := by
  cases hflow : execBlock σ f.returns block is s with
  | error e =>
      rw [hflow] at h
      cases h
  | ok flow =>
      rw [hflow] at h
      cases flow with
      | next u => cases h
      | goto d u =>
          cases h
          exact ⟨d, u, execBlock_goto_lt his.sound hflow, (execBlock_keeps hflow).trans hregs, rfl⟩
      | ret r => cases h

section Loop

variable (hσ : σ.Lowers m τ) (hf : f.WellFormedIn m)
  (hsel : f.selector.toNat = f.registers.toNat) (hblocks : f.blocks.length ≤ 2 ^ 32)
  {code : List Instr} (hc : lowerBlocks m f.selector 0 f.blocks = .ok code)
include hσ hf hsel hblocks hc

/-- A round with a block selected runs the code of the block. -/
theorem ready_runsBlock (hserves : σ.Serves m) {s : Wasm.State} (hready : f.Ready s) :
    ∃ block, f.RunsBlock m τ n code s block := by
  obtain ⟨block, s, hb, hregs, rfl⟩ := hready
  have his := List.getElem?_eq_getElem hb
  have hwf := hf.blocks block _ his
  have hlt := Nat.lt_of_lt_of_le hb hblocks
  obtain ⟨c, hcode, hentered⟩ :=
    lowerBlocks_entered (n := n) hσ hsel hregs hwf hlt (Nat.zero_le block) his hc
  refine ⟨block, Frame.toState_selects hsel hregs hb [], ⟨_, c, his, hcode, hentered⟩, ?_⟩
  rw [lowerBlocks_exec hσ hsel hregs hwf hlt (Nat.zero_le block) his hc, hσ.callees]
  exact execBlock_endsRound hserves hwf hsel hregs _

/-- A round with a block selected is followed by a round with a block selected, if by any. -/
theorem ready_of_branch {s t : Wasm.State} (hready : f.Ready s)
    (hbranch : Instr.execBody τ n code s = .ok (.branch 0 t)) :
    f.Ready { t with stack := [] } := by
  obtain ⟨block, s, hb, hregs, rfl⟩ := hready
  have his := List.getElem?_eq_getElem hb
  have hwf := hf.blocks block _ his
  rw [lowerBlocks_exec hσ hsel hregs hwf (Nat.lt_of_lt_of_le hb hblocks) (Nat.zero_le block) his
    hc] at hbranch
  exact execBlock_ready hwf hregs hbranch

/-- Every round begins with a block selected if the first one does. -/
theorem beginsRound_ready {entry s : Wasm.State} {k : Nat}
    (hentry : f.Ready { entry with stack := [] })
    (h : Wasm.BeginsRound (Instr.execBody τ n code) entry k s) : f.Ready s := by
  induction h with
  | first => exact hentry
  | again _ hbranch ih => exact ready_of_branch hσ hf hsel hblocks hc ih hbranch

/-- Every round runs the code of a block if one is selected at the entry. -/
theorem beginsRound_runsBlock (hserves : σ.Serves m) {entry s : Wasm.State} {k : Nat}
    (hentry : f.Ready { entry with stack := [] })
    (h : Wasm.BeginsRound (Instr.execBody τ n code) entry k s) :
    ∃ block, f.RunsBlock m τ n code s block :=
  ready_runsBlock hσ hf hsel hblocks hc hserves
    (beginsRound_ready hσ hf hsel hblocks hc hentry h)

end Loop

end Rounds

/-! ## The loop of a lowered function -/

/-- The state in which a function starts. -/
def Wasm.Func.entry (f : Wasm.Func) (args : List Word) (m : Memory) : Wasm.State :=
  ⟨[], args ++ List.replicate f.locals.toNat 0, m⟩

theorem Function.EndsRound.ne_next {f : Function} {callees : Callees} {outcome : Outcome Wasm.Flow}
    (h : f.EndsRound callees outcome) (t : Wasm.State) : outcome ≠ .ok (.next t) := by
  cases h <;> exact nofun

/-- The functions of a lowered module are not stuck in calls among each other. -/
theorem lower_serves {m : Module} {options : LoweringOptions} {w : Wasm.Module}
    (hm : m.WellFormed) (hcount : ∀ f ∈ m.functions, f.SelectorFits)
    (hblocks : ∀ f ∈ m.functions, f.blocks.length ≤ 2 ^ 32) (hc : lower options m = .ok w)
    {switches : List Word} (hswitches : switches.length = m.switches.length) (depth : Nat) :
    Surroundings.Serves m ⟨switches, w.call switches depth⟩ := by
  rw [lower_call_of_selectorFits hm hcount hblocks hc]
  have hregisters : ∀ f ∈ m.functions, f.params.toNat + f.locals.toNat < 2 ^ 64 :=
    fun f hf => Nat.lt_trans (hcount f hf).index (by decide)
  exact ⟨hswitches, fun g callee hcallee args memory hargs =>
      hm.call_ne_stuck hregisters hswitches hcallee hargs,
    fun g callee hcallee args memory r hr => Module.call_result hcallee hr⟩

/-- Whatever the functions do, as long as they take their arguments and give results of their types
as the functions of the lowered module do: in the loop of a lowered function every round runs the
code of one block, and so the trap behind the loop is not reached. -/
theorem lower_rounds_run_blocks {m : Module} {options : LoweringOptions} {w : Wasm.Module}
    (hwf : m.isWellFormed = true)
    (hcount : ∀ f ∈ m.functions,
      f.params.toNat + f.locals.toNat < 2 ^ 32 ∧ f.locals.toNat + 1 < 2 ^ 32)
    (hblocks : ∀ f ∈ m.functions, f.blocks.length < 2 ^ 31) (hc : lower options m = .ok w)
    {switches : List Word} (hswitches : switches.length = m.switches.length) :
    (∀ depth, Surroundings.Serves m ⟨switches, w.call switches depth⟩) ∧
      ∀ callees, Surroundings.Serves m ⟨switches, callees⟩ →
        ∀ (index : Nat) (f : Function), m.functions[index]? = some f →
          ∃ h code, w.functions[index]? = some h ∧ h.body = [.loop code, .unreachable] ∧
            ∀ (args : List Word) (memory : Memory) (n : Nat), args.length = f.params.toNat →
              (∀ k s, Wasm.BeginsRound (Instr.execBody ⟨w.functions, switches, callees⟩ n code)
                  (h.entry args memory) k s →
                ∃ block, f.RunsBlock m ⟨w.functions, switches, callees⟩ n code s block) ∧
              ∀ t, (Instr.loop code).exec ⟨w.functions, switches, callees⟩ n
                (h.entry args memory) ≠ .ok (.next t) := by
  have hm := (Module.isWellFormed_iff m).mp hwf
  have hfits : ∀ f ∈ m.functions, f.SelectorFits := fun f hf => ⟨(hcount f hf).1, (hcount f hf).2⟩
  have hnumbers : ∀ f ∈ m.functions, f.blocks.length ≤ 2 ^ 32 :=
    fun f hf => Nat.le_of_lt (Nat.lt_trans (hblocks f hf) (by decide))
  refine ⟨lower_serves hm hfits hnumbers hc hswitches, fun callees hserves index f hf => ?_⟩
  have hmem := List.mem_of_getElem? hf
  have hg := lowerFunctions_getElem? (lower_functions hc) index
  rw [hf] at hg
  obtain ⟨h, hh, hlower⟩ := Option.map_eq_some_iff.mp hg
  obtain ⟨code, hcode, rfl⟩ := lowerFunction_eq_ok hlower.symm
  refine ⟨_, code, hh, rfl, fun args memory n hargs => ?_⟩
  have hentry : f.Ready ⟨[], args ++ List.replicate (f.locals.toUInt32 + 1).toNat 0, memory⟩ :=
    ⟨0, _, List.length_pos_iff.mpr (hm.functions f hmem).nonempty,
      (hfits f hmem).entry_registers hargs memory, (hfits f hmem).entry args memory⟩
  have hround : ∀ k s, Wasm.BeginsRound (Instr.execBody ⟨w.functions, switches, callees⟩ n code)
      ⟨[], args ++ List.replicate (f.locals.toUInt32 + 1).toNat 0, memory⟩ k s →
      ∃ block, f.RunsBlock m ⟨w.functions, switches, callees⟩ n code s block := fun k s hs =>
    beginsRound_runsBlock (lower_lowers hc hserves.results) (hm.functions f hmem)
      (hfits f hmem).selector (hnumbers f hmem) hcode hserves hentry hs
  refine ⟨hround, fun t ht => ?_⟩
  simp only [Instr.exec] at ht
  obtain ⟨k, s, u, hs, hnext⟩ := Wasm.exists_round_of_runLoop_next ht
  obtain ⟨block, hruns⟩ := hround k s hs
  exact hruns.ends.ne_next u hnext

/-- In the module that sums, every round of a call runs a block, whatever the depth of calls. -/
theorem lower_rounds_run_blocks_summing :
    ∃ f w, summing.functions[0]? = some f ∧ lower .default summing = .ok w ∧
      ∀ depth, ∃ h code, w.functions[0]? = some h ∧ h.body = [.loop code, .unreachable] ∧
        ∀ n, (∀ k s,
            Wasm.BeginsRound (Instr.execBody ⟨w.functions, [], w.call [] depth⟩ n code)
              (h.entry [3] []) k s →
            ∃ block, f.RunsBlock summing ⟨w.functions, [], w.call [] depth⟩ n code s block) ∧
          ∀ t, (Instr.loop code).exec ⟨w.functions, [], w.call [] depth⟩ n (h.entry [3] []) ≠
            .ok (.next t) := by
  obtain ⟨w, hw⟩ : ∃ w, lower .default summing = .ok w := ⟨_, rfl⟩
  obtain ⟨hserves, hrounds⟩ := lower_rounds_run_blocks (by decide) (by decide) (by decide) hw
    (rfl : ([] : List Word).length = _)
  refine ⟨_, w, rfl, hw, fun depth => ?_⟩
  obtain ⟨h, code, hh, hbody, hrun⟩ := hrounds _ (hserves depth) 0 _ rfl
  exact ⟨h, code, hh, hbody, fun n => hrun [3] [] n rfl⟩

/-- A function that returns a constant, with as many local variables as 32 bits count. -/
def brimful : Module :=
  ⟨"brimful.json",
    [⟨"one", 0, 4294967295, [[⟨.ret, none, [.immediate (.int 1)]⟩]], .int⟩], 0, 1, []⟩

/-- The number of local variables wraps around with the selector among them, so a verified module
has code for a function in which there is no selector.  Its first round is stuck. -/
theorem brimful_without_selector :
    brimful.isWellFormed = true ∧
      (∀ f ∈ brimful.functions,
        f.params.toNat + f.locals.toNat < 2 ^ 32 ∧ f.blocks.length < 2 ^ 31) ∧
      ∃ f w h code, brimful.functions[0]? = some f ∧ lower .default brimful = .ok w ∧
        w.functions[0]? = some h ∧ h.body = [.loop code, .unreachable] ∧
        ∀ depth n, Wasm.BeginsRound (Instr.execBody ⟨w.functions, [], w.call [] depth⟩ n code)
            (h.entry [] []) 0 (h.entry [] []) ∧
          (∀ block, ¬ f.Selects (h.entry [] []) block) ∧
          Instr.execBody ⟨w.functions, [], w.call [] depth⟩ n code (h.entry [] []) =
            .error .stuck := by
  refine ⟨by decide, by decide, _, _, _, _, rfl, rfl, rfl, rfl, fun depth n => ⟨.first, ?_, rfl⟩⟩
  intro block hselects
  exact absurd hselects.selector nofun

end MutantGate
