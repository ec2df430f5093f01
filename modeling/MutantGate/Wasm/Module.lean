import MutantGate.Number.Binary32
/-!
# WebAssembly modules

The part of WebAssembly that modules are lowered to: functions over 32-bit integers
with structured control, one memory, mutable globals that start at zero, and
exports.  Bodies are trees, so the branch depths and the matching of ends need no
second look.

## What is left outside

Other types, tables, imports, and data.  What these modules do is defined in
`Proofs.Semantics.WasmExecution`, and when they are valid in `Proofs.Semantics.WasmTyping`.
-/

namespace MutantGate.Wasm

/-- An operation on the two words on top of the stack. -/
inductive BinaryOp where
  | eq
  | ne
  | ltS
  | gtS
  | leS
  | geS
  | add
  | sub
  | mul
  | divS
  | remS
  | and
  | or
  | xor
  | shl
  deriving DecidableEq, Repr

/-- An instruction. -/
inductive Instr where
  | unreachable
  | nop
  | loop (body : List Instr)
  | ifThen (body : List Instr)
  | br (depth : Nat)
  | ret
  | call (function : UInt32)
  | drop
  | select
  | localGet (index : UInt32)
  | localSet (index : UInt32)
  | globalGet (index : UInt32)
  | load
  | store
  | const (w : Word)
  | eqz
  | binary (op : BinaryOp)

/-- A function: how many words it takes, whether it gives one back, how many local
variables it has besides its parameters, and what it does. -/
structure Func where
  params : Nat
  hasResult : Bool
  locals : UInt32
  body : List Instr

/-- What an export makes visible. -/
inductive ExportKind where
  | function
  | memory
  | global
  deriving DecidableEq, Repr

/-- A name under which something is visible. -/
structure Export where
  name : String
  kind : ExportKind
  index : Nat
  deriving DecidableEq, Repr

/-- A module; memory sizes are measured in pages of 65536 bytes. -/
structure Module where
  functions : List Func
  minPages : Nat
  maxPages : Nat
  globals : Nat
  exports : List Export

/-- The bytes in a page of memory. -/
def pageBytes : Nat := 65536

/-- The most pages that 32-bit addresses reach. -/
def addressablePages : Nat := 65536

end MutantGate.Wasm
