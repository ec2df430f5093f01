import MutantGate.IR.Module
/-!
# Mutation operators

A mutation operator looks at one instruction and offers replacements for it, in a
fixed order; an instruction it offers nothing for does not match.  A replacement touches
nothing but the instruction, and keeps the rules on arity and destination that the
instruction was under.  The operator without effect offers the instruction itself
and serves to check a run as such.

## What is proved elsewhere

That a replacement is in order wherever the instruction was (`Proofs.Replacement`), and that no two
mutants of an instruction are the same (`Proofs.DistinctMutants`).
-/

namespace MutantGate

/-- A mutation operator. -/
inductive Operator where
  | addToSub
  | subToAdd
  | mulToDiv
  | divToMul
  | remToDiv
  | minusToNoop
  | eqToNe
  | neToEq
  | ltToGe
  | geToLt
  | gtToLe
  | leToGt
  | andToOr
  | orToAnd
  | xorToOr
  | removeNegation
  | removeVoidCall
  | replaceCall
  | replaceScalar
  | noMutation
  deriving DecidableEq, Repr

namespace Operator

/-- All operators, in order. -/
def all : List Operator :=
  [.addToSub, .subToAdd, .mulToDiv, .divToMul, .remToDiv, .minusToNoop, .eqToNe, .neToEq,
    .ltToGe, .geToLt, .gtToLe, .leToGt, .andToOr, .orToAnd, .xorToOr, .removeNegation,
    .removeVoidCall, .replaceCall, .replaceScalar, .noMutation]

/-- The name of an operator in requests and in the names of its mutants. -/
def id : Operator → String
  | .addToSub => "cxx_add_to_sub"
  | .subToAdd => "cxx_sub_to_add"
  | .mulToDiv => "cxx_mul_to_div"
  | .divToMul => "cxx_div_to_mul"
  | .remToDiv => "cxx_rem_to_div"
  | .minusToNoop => "cxx_minus_to_noop"
  | .eqToNe => "cxx_eq_to_ne"
  | .neToEq => "cxx_ne_to_eq"
  | .ltToGe => "cxx_lt_to_ge"
  | .geToLt => "cxx_ge_to_lt"
  | .gtToLe => "cxx_gt_to_le"
  | .leToGt => "cxx_le_to_gt"
  | .andToOr => "cxx_and_to_or"
  | .orToAnd => "cxx_or_to_and"
  | .xorToOr => "cxx_xor_to_or"
  | .removeNegation => "cxx_remove_negation"
  | .removeVoidCall => "cxx_remove_void_call"
  | .replaceCall => "cxx_replace_call"
  | .replaceScalar => "cxx_replace_scalar"
  | .noMutation => "no_mutation"

/-- The operator with a given name. -/
def ofId? (s : String) : Option Operator := all.find? fun o => o.id == s

/-- What an operator does, in words. -/
def description : Operator → String
  | .addToSub => "Replaces + with -"
  | .subToAdd => "Replaces - with +"
  | .mulToDiv => "Replaces * with /"
  | .divToMul => "Replaces / with *"
  | .remToDiv => "Replaces % with /"
  | .minusToNoop => "Replaces -x with x"
  | .eqToNe => "Replaces == with !="
  | .neToEq => "Replaces != with =="
  | .ltToGe => "Replaces < with >="
  | .geToLt => "Replaces >= with <"
  | .gtToLe => "Replaces > with <="
  | .leToGt => "Replaces <= with >"
  | .andToOr => "Replaces & with |"
  | .orToAnd => "Replaces | with &"
  | .xorToOr => "Replaces ^ with |"
  | .removeNegation => "Replaces !x with x"
  | .removeVoidCall => "Removes calls whose result is unused"
  | .replaceCall => "Replaces a call result with 42"
  | .replaceScalar => "Replaces integer constants and flips booleans"
  | .noMutation => "Matches arithmetic without changing it"

/-! ## Replacements -/

/-- The replacement of an operation by one that has the same number of operands. -/
def exchange (old new : Opcode) (i : Instruction) : List Instruction :=
  if i.opcode = old then [{ i with opcode := new }] else []

/-- The constant in the place of a call result. -/
def replacedResult : Word := 42

/-- A call whose result is not used vanishes. -/
def withoutCall (i : Instruction) : List Instruction :=
  match i.opcode, i.dest with
  | .call, none => [.nop]
  | _, _ => []

/-- A call whose result is used gives a constant. -/
def withoutCallee (i : Instruction) : List Instruction :=
  match i.opcode, i.dest with
  | .call, some d => [.const d (.int replacedResult)]
  | _, _ => []

/-- Two words different from a given one and from each other: zero or, for zero,
one; and the next word, or the one before if that has been taken. -/
def otherWords (w : Word) : List Word :=
  let first := if w = 0 then 1 else 0
  [first, if w + 1 = first then w - 1 else w + 1]

/-- The constants in the place of a constant; numbers with a fraction have none. -/
def otherValues : Value → List Value
  | .int w => (otherWords w).map .int
  | .bool b => [.bool !b]
  | .float _ => []

/-- A constant is replaced where it is loaded, if it is all that is loaded. -/
def withOtherValue (i : Instruction) : List Instruction :=
  match i.opcode, i.operands with
  | .const, [.immediate v] => (otherValues v).map fun v => { i with operands := [.immediate v] }
  | _, _ => []

/-- Arithmetic stays as it is. -/
def unchanged (i : Instruction) : List Instruction :=
  if i.opcode.isBinaryArithmetic then [i] else []

/-- The replacements that an operator offers for an instruction. -/
def replacements : Operator → Instruction → List Instruction
  | .addToSub => exchange .add .sub
  | .subToAdd => exchange .sub .add
  | .mulToDiv => exchange .mul .div
  | .divToMul => exchange .div .mul
  | .remToDiv => exchange .mod .div
  | .minusToNoop => exchange .neg .copy
  | .eqToNe => exchange .eq .ne
  | .neToEq => exchange .ne .eq
  | .ltToGe => exchange .lt .ge
  | .geToLt => exchange .ge .lt
  | .gtToLe => exchange .gt .le
  | .leToGt => exchange .le .gt
  | .andToOr => exchange .and .or
  | .orToAnd => exchange .or .and
  | .xorToOr => exchange .xor .or
  | .removeNegation => exchange .not .copy
  | .removeVoidCall => withoutCall
  | .replaceCall => withoutCallee
  | .replaceScalar => withOtherValue
  | .noMutation => unchanged

/-- How many replacements an operator offers for an instruction. -/
def replacementCount (o : Operator) (i : Instruction) : Nat := (o.replacements i).length

/-- Does an operator offer anything for an instruction? -/
def isApplicable (o : Operator) (i : Instruction) : Bool := o.replacementCount i != 0

/-! ## Mutating -/

/-- Why an instruction was not replaced. -/
inductive Refusal where
  /-- The operator offers nothing for the instruction. -/
  | mismatch (operator : Operator) (i : Instruction)
  /-- The operator offers fewer replacements than were counted on. -/
  | noSuchVariant (operator : Operator) (i : Instruction) (available : Nat) (variant : Nat)
  deriving DecidableEq, Repr

/-- The words for a refusal. -/
def Refusal.message : Refusal → String
  | .mismatch o i => s!"'{i.text}' does not match {o.id}"
  | .noSuchVariant o i available variant =>
    s!"{o.id} has {available} rewrites for '{i.text}', variant {variant} requested"

/-- The replacement with the given number. -/
def mutate (o : Operator) (variant : Nat) (i : Instruction) : Except Refusal Instruction :=
  match (o.replacements i)[variant]? with
  | some j => .ok j
  | none =>
    if o.isApplicable i then .error (.noSuchVariant o i (o.replacementCount i) variant)
    else .error (.mismatch o i)

end Operator

end MutantGate
