import MutantGate.Text.Utf8
import MutantGate.Wasm.Leb128
import MutantGate.Wasm.Module
/-!
# The bytes of a WebAssembly module

A module is a header and six sections in ascending order; a section is written even
if it is empty.  Every function has a type of its own, so the type index of a
function is its position.

## What is left outside

A reader.  That these bytes are the encoding which the specification of WebAssembly asks for is not
proved; what is proved of them is that isolation keeps those of bodies and types
(`Proofs.IsolatedCode`).
-/

namespace MutantGate.Wasm

open Leb128

/-- The byte for the only value type, 32-bit integers. -/
def i32 : UInt8 := 0x7F

/-- The byte that ends a body. -/
def endByte : UInt8 := 0x0B

/-- The byte for a block that neither takes nor leaves values. -/
def emptyType : UInt8 := 0x40

/-- The byte of an operation on two words. -/
def BinaryOp.byte : BinaryOp → UInt8
  | .eq => 0x46
  | .ne => 0x47
  | .ltS => 0x48
  | .gtS => 0x4A
  | .leS => 0x4C
  | .geS => 0x4E
  | .add => 0x6A
  | .sub => 0x6B
  | .mul => 0x6C
  | .divS => 0x6D
  | .remS => 0x6F
  | .and => 0x71
  | .or => 0x72
  | .xor => 0x73
  | .shl => 0x74

mutual

/-- The bytes of an instruction. -/
def Instr.bytes : Instr → List UInt8
  | .unreachable => [0x00]
  | .nop => [0x01]
  | .loop body => 0x03 :: emptyType :: Instr.bodyBytes body ++ [endByte]
  | .ifThen body => 0x04 :: emptyType :: Instr.bodyBytes body ++ [endByte]
  | .br depth => 0x0C :: unsigned depth
  | .ret => [0x0F]
  | .call f => 0x10 :: unsigned f.toNat
  | .drop => [0x1A]
  | .select => [0x1B]
  | .localGet i => 0x20 :: unsigned i.toNat
  | .localSet i => 0x21 :: unsigned i.toNat
  | .globalGet i => 0x23 :: unsigned i.toNat
  | .load => [0x28, 0x02, 0x00]
  | .store => [0x36, 0x02, 0x00]
  | .const w => 0x41 :: signed w.toInt
  | .eqz => [0x45]
  | .binary op => [op.byte]

/-- The bytes of a body, without its end. -/
def Instr.bodyBytes : List Instr → List UInt8
  | [] => []
  | i :: body => Instr.bytes i ++ Instr.bodyBytes body

end

/-- A list of items behind their number. -/
def counted {α : Type} (item : α → List UInt8) (items : List α) : List UInt8 :=
  unsigned items.length ++ items.flatMap item

/-- Bytes behind their number. -/
def sized (bytes : List UInt8) : List UInt8 := unsigned bytes.length ++ bytes

/-- The type of a function. -/
def Func.typeBytes (f : Func) : List UInt8 :=
  0x60 :: counted (fun _ => [i32]) (List.replicate f.params ())
    ++ counted (fun _ => [i32]) (List.replicate (if f.hasResult then 1 else 0) ())

/-- The body of a function: one run of local variables and the instructions. -/
def Func.codeBytes (f : Func) : List UInt8 :=
  sized (0x01 :: unsigned f.locals.toNat ++ i32 :: Instr.bodyBytes f.body ++ [endByte])

/-- The byte for the kind of an export. -/
def ExportKind.byte : ExportKind → UInt8
  | .function => 0x00
  | .memory => 0x02
  | .global => 0x03

/-- An export. -/
def Export.bytes (e : Export) : List UInt8 :=
  sized (Utf8.encode e.name) ++ e.kind.byte :: unsigned e.index

/-- A section behind its number and size. -/
def sectionBytes (number : UInt8) (content : List UInt8) : List UInt8 := number :: sized content

/-- A global: a mutable integer that starts at zero. -/
def globalBytes : List UInt8 := [i32, 0x01, 0x41, 0x00, endByte]

/-- The bytes of a module. -/
def Module.bytes (m : Module) : List UInt8 :=
  [0x00, 0x61, 0x73, 0x6D, 0x01, 0x00, 0x00, 0x00]
    ++ sectionBytes 1 (counted Func.typeBytes m.functions)
    ++ sectionBytes 3 (counted unsigned (List.range m.functions.length))
    ++ sectionBytes 5 (0x01 :: 0x01 :: unsigned m.minPages ++ unsigned m.maxPages)
    ++ sectionBytes 6 (counted (fun _ => globalBytes) (List.replicate m.globals ()))
    ++ sectionBytes 7 (counted Export.bytes m.exports)
    ++ sectionBytes 10 (counted Func.codeBytes m.functions)

end MutantGate.Wasm
