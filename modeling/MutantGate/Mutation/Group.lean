import MutantGate.Failure
import MutantGate.Mutation.Operator
/-!
# Groups of mutation operators

Operators are requested by name, one by one or in groups; larger groups are made of
smaller ones, which they refer to by their names.  One selection of operators is handed
through a whole request, group in group, so that the operators come in the order of the
names and each of them once.  A name that is neither a group nor an operator fails the
request, so that a slip of the pen does not become a run that finds nothing.

## What is proved elsewhere

The laws of requests (`Proofs.Resolution`); among them, that the depth to which groups are expanded
is enough for every name.
-/

namespace MutantGate

/-- A named group of operators. -/
inductive Group where
  | arithmetic
  | comparison
  | bitwise
  | calls
  | scalar
  | standard
  | complete
  | experimental
  deriving DecidableEq, Repr

/-- A member of a group: an operator, or a group under its name. -/
inductive Member where
  | operator (o : Operator)
  | group (name : String)
  deriving DecidableEq, Repr

/-- The name of a member that is a group. -/
def Member.group? : Member → Option String
  | .operator _ => none
  | .group name => some name

namespace Group

/-- All groups, in order. -/
def all : List Group :=
  [.arithmetic, .comparison, .bitwise, .calls, .scalar, .standard, .complete, .experimental]

/-- The name of a group in requests. -/
def name : Group → String
  | .arithmetic => "cxx_arithmetic"
  | .comparison => "cxx_comparison"
  | .bitwise => "cxx_bitwise"
  | .calls => "cxx_calls"
  | .scalar => "cxx_scalar"
  | .standard => "cxx_default"
  | .complete => "cxx_all"
  | .experimental => "experimental"

/-- The group with a given name. -/
def ofName? (s : String) : Option Group := all.find? fun g => g.name == s

/-- What a group is made of, in order. -/
def members : Group → List Member
  | .arithmetic =>
    [.operator .addToSub, .operator .subToAdd, .operator .mulToDiv, .operator .divToMul,
      .operator .remToDiv, .operator .minusToNoop]
  | .comparison =>
    [.operator .eqToNe, .operator .neToEq, .operator .ltToGe, .operator .geToLt,
      .operator .gtToLe, .operator .leToGt]
  | .bitwise =>
    [.operator .andToOr, .operator .orToAnd, .operator .xorToOr, .operator .removeNegation]
  | .calls => [.operator .removeVoidCall, .operator .replaceCall]
  | .scalar => [.operator .replaceScalar]
  | .standard => [.group "cxx_arithmetic", .group "cxx_comparison", .group "cxx_calls"]
  | .complete =>
    [.group "cxx_arithmetic", .group "cxx_comparison", .group "cxx_bitwise",
      .group "cxx_calls", .group "cxx_scalar"]
  | .experimental => [.operator .noMutation]

/-- How many groups stand one in the other, counted from a group. -/
def height : Group → Nat
  | .standard | .complete => 2
  | _ => 1

/-- How many groups stand one in the other behind a name; for an operator there are none. -/
def nesting (name : String) : Nat := (ofName? name).elim 0 height

/-- There is less behind the groups in a group than behind the group. -/
theorem nesting_lt {name inner : String} {g : Group} (hg : ofName? name = some g)
    (hinner : .group inner ∈ g.members) : nesting inner < nesting name := by
  have hparts : ∀ inner ∈ g.members.filterMap Member.group?, nesting inner < g.height := by
    cases g <;> decide
  have hname : nesting name = g.height := by rw [nesting, hg, Option.elim_some]
  rw [hname]
  exact hparts inner (List.mem_filterMap.mpr ⟨_, hinner, rfl⟩)

end Group

/-! ## Selections -/

/-- Operators in the order in which they were first taken, with the set of them. -/
structure Selection where
  operators : List Operator
  seen : Operator → Bool
  seen_iff : ∀ o, seen o = true ↔ o ∈ operators
  nodup : operators.Nodup

namespace Selection

/-- Nothing has been taken yet. -/
def empty : Selection where
  operators := []
  seen := fun _ => false
  seen_iff := by simp
  nodup := List.nodup_nil

/-- Takes an operator, if it has not been taken. -/
def take (s : Selection) (o : Operator) : Selection :=
  if h : s.seen o then s
  else
    { operators := s.operators ++ [o]
      seen := fun p => p == o || s.seen p
      seen_iff := fun p => by simp [s.seen_iff, or_comm]
      nodup := by
        have hnew : o ∉ s.operators := fun hmem => h ((s.seen_iff o).mpr hmem)
        exact List.nodup_append.mpr ⟨s.nodup, List.pairwise_singleton _ _, by
          rintro p hp q hq rfl
          exact hnew (List.mem_singleton.mp hq ▸ hp)⟩ }

end Selection

/-! ## Requests -/

/-- Takes what a name stands for: the members of a group, one after the other, or else an
operator.  A group in a group is looked up by its name like the group itself. -/
def expand (name : String) (s : Selection) : Except Failure Selection :=
  match hg : Group.ofName? name with
  | some g =>
    g.members.attach.foldlM (fun s m =>
      match hm : m.val with
      | .operator o => .ok (s.take o)
      | .group inner =>
        have : Group.nesting inner < Group.nesting name := Group.nesting_lt hg (hm ▸ m.property)
        expand inner s) s
  | none =>
    match Operator.ofId? name with
    | some o => .ok (s.take o)
    | none => .error (.unknownGroup name)
termination_by Group.nesting name

/-- Takes what several names stand for, up to the first that stands for nothing. -/
def expandAll (names : List String) (s : Selection) : Except Failure Selection :=
  names.foldlM (fun s name => expand name s) s

/-- The operators of a request, each once, in the order of their first mention. -/
def resolve (names : List String) : Except Failure (List Operator) :=
  if names.isEmpty then .error (.usage "no mutator group requested")
  else (expandAll names .empty).map Selection.operators

end MutantGate
