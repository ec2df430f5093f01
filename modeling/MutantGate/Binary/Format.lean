import MutantGate.Text.Utf8
/-!
# Binary formats

A binary format says how a value is laid out in bytes and how it is read back from
the front of a list of bytes.  Formats of larger types are put together from those
of their parts.  All numbers have a fixed width and stand with the least significant
byte first; a list and a text stand behind their length in eight bytes, and a choice
behind its number in four.

## What is left outside

Other encodings of numbers, and limits on how much is read.  The layout is the documented one of the
files; that reading and writing are inverse under it is proved in `Proofs.ExactFormats`.
-/

namespace MutantGate.Binary

/-- Why a list of bytes does not start with a value. -/
inductive Fault where
  /-- The input ends inside an item of fixed width. -/
  | ended
  /-- A text is announced to be longer than what is left. -/
  | textCutOff
  /-- A choice has a number that no alternative has. -/
  | noSuchChoice (found : Nat) (count : Nat)
  /-- The byte in front of an optional value is neither zero nor one. -/
  | badPresence (found : Nat)
  /-- The byte of a truth value is neither zero nor one. -/
  | badTruth (found : Nat)
  /-- The bytes of a text are no text. -/
  | badText (reason : Utf8.Fault)
  deriving DecidableEq, Repr

/-- The words for a refusal. -/
def Fault.message : Fault → String
  | .ended => "io error: unexpected end of file"
  | .textCutOff => "io error: "
  | .noSuchChoice found count =>
    s!"invalid value: integer `{found}`, expected variant index 0 <= i < {count}"
  | .badPresence found => s!"tag for enum is not valid, found {found}"
  | .badTruth found => s!"invalid u8 while decoding bool, expected 0 or 1, found {found}"
  | .badText reason => s!"string is not valid utf8: {reason.message}"

/-- How a value is laid out in bytes and read back.  Reading gives a value and the
bytes behind it, or a refusal. -/
structure Format (α : Type) where
  write : α → List UInt8
  read : List UInt8 → Except Fault (α × List UInt8)

namespace Format

variable {α β : Type}

/-! ## Combining formats -/

/-- The format of a type whose values correspond to those of another one. -/
def convert (f : Format α) (view : β → α) (make : α → β) : Format β where
  write b := f.write (view b)
  read bs := (f.read bs).map fun p => (make p.1, p.2)

/-- One value behind another. -/
def both (f : Format α) (g : Format β) : Format (α × β) where
  write p := f.write p.1 ++ g.write p.2
  read bs := do
    let (a, bs) ← f.read bs
    let (b, bs) ← g.read bs
    .ok ((a, b), bs)

/-! ## Numbers -/

/-- The `width` low bytes of a number, least significant first. -/
def littleEndian : Nat → Nat → List UInt8
  | 0, _ => []
  | width + 1, n => n.toUInt8 :: littleEndian width (n / 256)

/-- The number in the first `width` bytes. -/
def readLittleEndian : Nat → List UInt8 → Except Fault (Nat × List UInt8)
  | 0, bs => .ok (0, bs)
  | _ + 1, [] => .error .ended
  | width + 1, b :: bs => (readLittleEndian width bs).map fun p => (b.toNat + 256 * p.1, p.2)

/-- A number in a fixed width. -/
def fixed (width : Nat) : Format Nat := ⟨littleEndian width, readLittleEndian width⟩

/-- One byte. -/
def byte : Format UInt8 := (fixed 1).convert UInt8.toNat Nat.toUInt8

/-- Four bytes. -/
def word32 : Format UInt32 := (fixed 4).convert UInt32.toNat Nat.toUInt32

/-- Eight bytes. -/
def word64 : Format UInt64 := (fixed 8).convert UInt64.toNat Nat.toUInt64

/-! ## Truth values, optional values, choices -/

/-- A truth value, as one byte. -/
def truth : Format Bool where
  write b := [if b then 1 else 0]
  read bs := do
    let (b, bs) ← byte.read bs
    if b = 0 then .ok (false, bs)
    else if b = 1 then .ok (true, bs)
    else .error (.badTruth b.toNat)

/-- An optional value, behind one byte that says whether it is there. -/
def optional (f : Format α) : Format (Option α) where
  write
    | none => [0]
    | some a => 1 :: f.write a
  read bs := do
    let (b, bs) ← byte.read bs
    if b = 0 then .ok (none, bs)
    else if b = 1 then
      let (a, bs) ← f.read bs
      .ok (some a, bs)
    else .error (.badPresence b.toNat)

/-- The number of a choice among `count` alternatives. -/
def choice (count : Nat) : Format Nat where
  write n := (fixed 4).write n
  read bs := do
    let (n, bs) ← (fixed 4).read bs
    if n < count then .ok (n, bs) else .error (.noSuchChoice n count)

/-- A choice without content, by its place in the list of alternatives. -/
def oneOf [BEq α] (all : List α) : Format α where
  write a := (choice all.length).write (all.idxOf a)
  read bs := do
    let (n, bs) ← (choice all.length).read bs
    match all[n]? with
    | some a => .ok (a, bs)
    | none => .error (.noSuchChoice n all.length)

/-! ## Lists and texts -/

/-- Reads a given number of values. -/
def readMany (f : Format α) :
    Nat → List UInt8 → Except Fault (List α × List UInt8)
  | 0, bs => .ok ([], bs)
  | n + 1, bs =>
    match f.read bs with
    | .error e => .error e
    | .ok (a, bs) => (readMany f n bs).map fun p => (a :: p.1, p.2)

/-- A list, behind its length. -/
def list (f : Format α) : Format (List α) where
  write items := (fixed 8).write items.length ++ items.flatMap f.write
  read bs := do
    let (n, bs) ← (fixed 8).read bs
    readMany f n bs

/-- A text, behind the length of its bytes. -/
def text : Format String where
  write s := (fixed 8).write (Utf8.encode s).length ++ Utf8.encode s
  read bs := do
    let (n, bs) ← (fixed 8).read bs
    if bs.length < n then .error .textCutOff
    else
      match Utf8.decode (bs.take n) with
      | .ok s => .ok (s, bs.drop n)
      | .error e => .error (.badText e)

end Format

end MutantGate.Binary
