import MutantGate.Number.Binary32
/-!
# Memory, words, and how a run ends

What the executions of the intermediate representation and of WebAssembly have in common.
Memory is a list of bytes; a word lies in four of them, least significant first, and an
access that does not fit into the memory traps.

A run that gives no result has stopped for one of three reasons.  It has trapped; or it
is stuck, since the next instruction is not of a form that means anything; or the bound
under which it is followed was too small.  Only the last of them may change with the
bound, so `Outcome.Approximates` compares runs under different bounds: what the shorter
one finds out holds of the longer one.
-/

namespace MutantGate

/-! ## Memory -/

/-- The bytes of a memory in the order of their addresses. -/
abbrev Memory := List (BitVec 8)

namespace Memory

/-- The word in the four bytes from an address on, if they are there. -/
def word? (m : Memory) (address : Nat) : Option Word :=
  match m.drop address with
  | b₀ :: b₁ :: b₂ :: b₃ :: _ => some (b₃ ++ b₂ ++ b₁ ++ b₀)
  | _ => none

/-- Puts a word into the four bytes from an address on, if they are there. -/
def setWord? (m : Memory) (address : Nat) (w : Word) : Option Memory :=
  match m.drop address with
  | _ :: _ :: _ :: _ :: rest =>
    some (m.take address
      ++ w.extractLsb' 0 8 :: w.extractLsb' 8 8 :: w.extractLsb' 16 8 :: w.extractLsb' 24 8
      :: rest)
  | _ => none

end Memory

/-! ## Outcomes -/

/-- Why a run gives no result. -/
inductive Halt where
  /-- An instruction trapped. -/
  | trap
  /-- There is nothing that the next instruction could mean. -/
  | stuck
  /-- The bound on the run is used up. -/
  | unfinished
  deriving DecidableEq, Repr

/-- What a run gives, or why it gives nothing. -/
abbrev Outcome (α : Type) := Except Halt α

/-- What a call gives: the value of a function that has one, and the memory after it. -/
abbrev Returned := Option Word × Memory

/-- What the functions of a module do: from index, arguments and memory to a result. -/
abbrev Callees := Nat → List Word → Memory → Outcome Returned

namespace Outcome

variable {α β : Type}

/-- The value if there is one, and else a reason to halt. -/
def ofOption (h : Halt) : Option α → Outcome α
  | some a => .ok a
  | none => .error h

/-- What the first outcome says the second one says as well; one that is unfinished says
nothing. -/
def Approximates (x y : Outcome α) : Prop := x = .error .unfinished ∨ x = y

theorem Approximates.refl (x : Outcome α) : x.Approximates x := Or.inr rfl

theorem Approximates.trans {x y z : Outcome α} (hxy : x.Approximates y)
    (hyz : y.Approximates z) : x.Approximates z := by
  rcases hxy with rfl | rfl
  · exact Or.inl rfl
  · exact hyz

theorem approximates_of_unfinished (x : Outcome α) :
    Approximates (.error .unfinished) x := Or.inl rfl

/-- A finished outcome is kept. -/
theorem Approximates.eq_of_ne {x y : Outcome α} (h : x.Approximates y)
    (hx : x ≠ .error .unfinished) : y = x :=
  (h.resolve_left hx).symm

/-- Going on from approximating outcomes gives approximating outcomes. -/
theorem Approximates.bind {x y : Outcome α} {f g : α → Outcome β} (h : x.Approximates y)
    (hfg : ∀ a, (f a).Approximates (g a)) : (x >>= f).Approximates (y >>= g) := by
  rcases h with rfl | rfl
  · exact Or.inl rfl
  · cases x with
    | error e => exact Approximates.refl _
    | ok a => exact hfg a

/-- A halt that comes neither at first nor afterwards does not come at all. -/
theorem bind_ne_error {h : Halt} {x : Outcome α} {f : α → Outcome β} (hx : x ≠ .error h)
    (hf : ∀ a, x = .ok a → f a ≠ .error h) : (x >>= f) ≠ .error h := by
  cases x with
  | error e =>
      intro heq
      cases heq
      exact hx rfl
  | ok a => exact hf a rfl

theorem ofOption_ne_error {h k : Halt} (hne : k ≠ h) (x : Option α) :
    ofOption k x ≠ .error h := by
  cases x with
  | none => exact fun heq => hne (Except.error.inj heq)
  | some a => exact nofun

end Outcome

/-! ## Words -/

/-- The word for a truth value. -/
def wordOfBool (b : Bool) : Word := if b then 1 else 0

/-- The signed quotient, rounded towards zero.  There is none for a divisor zero, and
none where the quotient is not a word. -/
def quotient (a b : Word) : Outcome Word :=
  if b = 0 ∨ (a = BitVec.intMin 32 ∧ b = -1) then .error .trap else .ok (a.sdiv b)

/-- The signed remainder, with the sign of the dividend; there is none for a divisor
zero. -/
def remainder (a b : Word) : Outcome Word :=
  if b = 0 then .error .trap else .ok (a.srem b)

end MutantGate
