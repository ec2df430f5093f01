import Mathlib.Algebra.Order.Ring.Nat
import Mathlib.Data.List.Forall2
import MutantGate.Lowering
/-!
# Valid WebAssembly modules

The rules by which a module of WebAssembly is valid, for the part of it that modules are
lowered to.  Code has a type `ts → us`: it takes operands of types `ts` off the stack and
leaves operands of types `us` on it, the last one on top, whatever lies below them.  What
it may refer to is declared in a context, which also says what the labels around it and
the function it stands in expect.

Behind `unreachable`, a branch or a return nothing is run, so these leave operands of any
types one likes, and take any in addition to those that go to the label or the caller.

## What is left outside

Types other than 32-bit words, tables, imports and data, of which lowered modules have none.  That
valid code is never stuck is not proved from these rules; for lowered modules it follows from what
they do (`Proofs.LoweredRuns`).
-/

namespace MutantGate.Wasm

/-! ## Types and contexts -/

/-- The types of operands. -/
inductive ValueType where
  | i32
  deriving DecidableEq, Repr

/-- What a function takes and gives back. -/
structure FuncType where
  params : List ValueType
  results : List ValueType
  deriving DecidableEq, Repr

/-- The signature of a function. -/
def Func.type (f : Func) : FuncType :=
  ⟨List.replicate f.params .i32, if f.hasResult then [.i32] else []⟩

/-- What code may refer to. -/
structure Context where
  functions : List FuncType
  globals : List ValueType
  memories : Nat
  locals : List ValueType
  /-- What a branch to each of the labels takes, the innermost label first. -/
  labels : List (List ValueType)
  /-- What a return takes. -/
  results : List ValueType

/-- The context inside a block without parameters and results. -/
def Context.inside (C : Context) : Context := { C with labels := [] :: C.labels }

/-! ## Code -/

mutual

/-- The type of an instruction. -/
inductive Instr.Typed : Context → Instr → List ValueType → List ValueType → Prop
  | unreachable {C ts us} : Typed C .unreachable ts us
  | nop {C} : Typed C .nop [] []
  | loop {C body} : Instr.BodyTyped C.inside body [] [] → Typed C (.loop body) [] []
  | ifThen {C body} : Instr.BodyTyped C.inside body [] [] → Typed C (.ifThen body) [.i32] []
  | br {C depth ts us vs} : C.labels[depth]? = some ts → Typed C (.br depth) (us ++ ts) vs
  | ret {C us vs} : Typed C .ret (us ++ C.results) vs
  | call {C index t} : C.functions[index.toNat]? = some t →
      Typed C (.call index) t.params t.results
  | drop {C t} : Typed C .drop [t] []
  | select {C t} : Typed C .select [t, t, .i32] [t]
  | localGet {C index t} : C.locals[index.toNat]? = some t → Typed C (.localGet index) [] [t]
  | localSet {C index t} : C.locals[index.toNat]? = some t → Typed C (.localSet index) [t] []
  | globalGet {C index t} : C.globals[index.toNat]? = some t → Typed C (.globalGet index) [] [t]
  | load {C} : 0 < C.memories → Typed C .load [.i32] [.i32]
  | store {C} : 0 < C.memories → Typed C .store [.i32, .i32] []
  | const {C w} : Typed C (.const w) [] [.i32]
  | eqz {C} : Typed C .eqz [.i32] [.i32]
  | binary {C op} : Typed C (.binary op) [.i32, .i32] [.i32]

/-- The type of instructions in sequence.  Each of them works on the upper part of the stack
and leaves the rest of it as it is. -/
inductive Instr.BodyTyped : Context → List Instr → List ValueType → List ValueType → Prop
  | nil {C ts} : BodyTyped C [] ts ts
  | cons {C i is rest ts us vs} : Instr.Typed C i ts us → BodyTyped C is (rest ++ us) vs →
      BodyTyped C (i :: is) (rest ++ ts) vs

end

/-! ## Modules -/

/-- The context of the body of a function: its local variables are its parameters and those it
declares, and a branch to the outermost label takes what a return takes. -/
def Func.context (C : Context) (f : Func) : Context :=
  { C with
    locals := List.replicate (f.params + f.locals.toNat) .i32
    labels := [f.type.results]
    results := f.type.results }

/-- The body of a function keeps to its signature, and its local variables can be counted. -/
structure Func.ValidIn (C : Context) (f : Func) : Prop where
  locals : f.params + f.locals.toNat < 2 ^ 32
  body : Instr.BodyTyped (f.context C) f.body [] f.type.results

/-- The signatures that a module lists. -/
def Module.types (w : Module) : List FuncType := w.functions.map Func.type

/-- The positions of the signatures of its functions: each has one of its own. -/
def Module.typeIndices (w : Module) : List Nat := List.range w.functions.length

/-- What all functions of a module may refer to: each other, the switches and one memory. -/
def Module.context (w : Module) : Context where
  functions := w.types
  globals := List.replicate w.globals .i32
  memories := 1
  locals := []
  labels := []
  results := []

/-- How many things of a kind a module has. -/
def Module.count (w : Module) : ExportKind → Nat
  | .function => w.functions.length
  | .memory => w.context.memories
  | .global => w.context.globals.length

/-- A valid module. -/
structure Module.Valid (w : Module) : Prop where
  types : List.Forall₂ (fun index f => w.types[index]? = some f.type) w.typeIndices w.functions
  functions : ∀ f ∈ w.functions, f.ValidIn w.context
  memory : w.minPages ≤ w.maxPages ∧ w.maxPages ≤ addressablePages
  exports : ∀ e ∈ w.exports, e.index < w.count e.kind
  names : (w.exports.map Export.name).Nodup

/-- The type index of each function is that of its own signature. -/
theorem Module.types_listed (w : Module) :
    List.Forall₂ (fun index f => w.types[index]? = some f.type) w.typeIndices w.functions := by
  refine List.forall₂_iff_get.mpr ⟨List.length_range, fun k hk hk' => ?_⟩
  simp only [typeIndices, types, List.get_eq_getElem, List.getElem_range, List.getElem?_map,
    List.getElem?_eq_getElem hk', Option.map_some]

/-! ## Code in sequence -/

namespace Instr

variable {C : Context} {i : Instr} {a b : List Instr} {ts us vs : List ValueType}

theorem Typed.body (h : i.Typed C ts us) : BodyTyped C [i] ts us :=
  @BodyTyped.cons C i [] [] ts us us h .nil

theorem BodyTyped.append (ha : BodyTyped C a ts us) (hb : BodyTyped C b us vs) :
    BodyTyped C (a ++ b) ts vs := by
  induction a generalizing ts with
  | nil =>
      cases ha
      exact hb
  | cons i a ih =>
      cases ha with
      | cons hi hrest => exact .cons hi (ih hrest)

/-- What lies below the operands of code stays. -/
theorem BodyTyped.under (ha : BodyTyped C a ts us) (below : List ValueType) :
    BodyTyped C a (below ++ ts) (below ++ us) := by
  induction a generalizing ts with
  | nil =>
      cases ha
      exact .nil
  | cons i a ih =>
      cases ha with
      | @cons _ _ _ rest ts ws _ hi hrest =>
          rw [← List.append_assoc]
          refine .cons hi ?_
          rw [List.append_assoc]
          exact ih hrest

end Instr

end MutantGate.Wasm
