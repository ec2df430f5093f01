/-!
# Numbers in groups of seven bits

WebAssembly writes numbers in groups of seven bits, least significant first; the
high bit of a byte says that another group follows.  A signed number ends with the
first group whose top bit already shows the sign.  The encodings are the shortest.
-/

namespace MutantGate.Wasm.Leb128

/-- A natural number. -/
def unsigned (n : Nat) : List UInt8 :=
  if n < 128 then [n.toUInt8] else (n % 128 + 128).toUInt8 :: unsigned (n / 128)
  termination_by n
  decreasing_by omega

/-- An integer. -/
def signed (i : Int) : List UInt8 :=
  if -64 ≤ i ∧ i < 64 then [(i % 128).toNat.toUInt8]
  else (i % 128 + 128).toNat.toUInt8 :: signed (i / 128)
  termination_by i.natAbs
  decreasing_by omega

end MutantGate.Wasm.Leb128
