import MutantGate.Failure
import MutantGate.IR.FreshName
import MutantGate.Mutation.Point
/-!
# Isolating the mutants of a module

Before anything is replaced, each function that owns mutation points is taken apart:
an untouched copy of it is appended, then one clone for each point together with a
switch named after the mutant, and the function itself becomes a dispatcher with its
old name and signature.  The dispatcher of a function with points 0, ..., k-1 has
2k+1 blocks:

    block i            (i < k)  read switch i, go to block k+1+i if it is on
    block k                     call the untouched copy and return its result
    block k+1+i        (i < k)  call clone i and return its result

With every switch off a call runs the untouched code, and no two mutants share code
that is going to be changed.  Functions keep their indices, so no call has to be
changed.

Isolation works on the module step by step and stops at the first obstacle, with
whatever was appended by then left in place; the clones are recorded only when all
steps have succeeded.  A mutant that is listed twice needs no obstacle of its own: its
switch is there the second time, and that is looked at first.

## What is proved elsewhere

The layout of an isolated module (`Proofs.IsolatedLayout`), its behaviour
(`Proofs.MutantIsolation`), what can stand in the way (`Proofs.IsolationOutcome`), and what is left
behind then (`Proofs.InterruptedIsolation`).
-/

namespace MutantGate

/-- Why isolation stopped. -/
inductive IsolationObstacle where
  /-- The module was isolated before. -/
  | alreadyPrepared (identifier : String)
  /-- A point is in a function that is not there. -/
  | missingFunction (mutant : String) (index : Nat)
  /-- A switch of the module has the name of a mutant. -/
  | switchTaken (mutant : String)
  /-- A dispatcher would need more registers than can be named. -/
  | tooManyParameters (function : String)
  deriving DecidableEq, Repr

/-- An obstacle as a failure. -/
def IsolationObstacle.failure : IsolationObstacle → Failure
  | .alreadyPrepared identifier =>
    .invalidState s!"mutations for {identifier} were already prepared"
  | .missingFunction mutant index => .application mutant s!"function {index} does not exist"
  | .switchTaken mutant => .invalidState s!"module already has a switch named {mutant}"
  | .tooManyParameters function =>
    .invalidState s!"function '{function}' has too many parameters to forward"

/-! ## The dispatcher -/

/-- A mutant as the dispatcher sees it: its switch and its clone. -/
structure Arm where
  switch : Nat
  clone : Nat
  deriving DecidableEq, Repr

/-- The greatest number of parameters that leaves a register for the dispatcher. -/
def maxForwarded : Nat := 255

/-- Calls a function with all parameters and returns its result. -/
def forwardBlock (params : Nat) (returns : ReturnType) (callee : Nat) : Block :=
  let scratch : Register := ⟨params.toUInt8⟩
  let args := (List.range params).map fun n => Register.mk n.toUInt8
  match returns with
  | .int => [.call callee.toUInt32 (some scratch) args, .ret scratch]
  | .void => [.call callee.toUInt32 none args, .retVoid]

/-- Goes to a block if a switch is on. -/
def testBlock (params : Nat) (switch target : Nat) : Block :=
  let scratch : Register := ⟨params.toUInt8⟩
  [.readSwitch scratch switch.toUInt32, .branchIf scratch target.toUInt32]

/-- The blocks of a dispatcher: tests, the call of the untouched copy, the calls of
the clones. -/
def dispatchBlocks (params : Nat) (returns : ReturnType) (fallback : Nat)
    (arms : List Arm) : List Block :=
  (arms.zipIdx.map fun (a, n) => testBlock params a.switch (arms.length + 1 + n))
    ++ forwardBlock params returns fallback
    :: arms.map fun a => forwardBlock params returns a.clone

/-- The dispatcher that takes the place of a function. -/
def dispatcher (f : Function) (fallback : Nat) (arms : List Arm) : Function :=
  { f with
    locals := 1
    blocks := dispatchBlocks f.params.toNat f.returns fallback arms }

/-! ## Clones and switches -/

/-- A module in the course of isolation and the clones reserved so far. -/
structure Reservation where
  module : Module
  clones : List (String × Nat)
  deriving DecidableEq, Repr

/-- Appends a copy of a function under a new name; its index is the number of
functions before. -/
def Module.pushCopy (m : Module) (f : Function) (stem : String) : Module :=
  m.pushFunction { f with name := m.freshName stem }

/-- Reserves clone number `n` of a function for a mutant, and its switch.  A mutant that is
listed a second time has its switch by then, so its clone is not recorded over another one. -/
def reserve (f : Function) (n : Nat) (mutant : String) (r : Reservation) :
    Reservation × Except IsolationObstacle Arm :=
  let m := r.module.pushCopy f s!"{f.name}$m{n}"
  if m.switches.contains mutant then ({ r with module := m }, .error (.switchTaken mutant))
  else
    let a : Arm := ⟨m.switches.length, r.module.functions.length⟩
    (⟨m.pushSwitch mutant, r.clones ++ [(mutant, a.clone)]⟩, .ok a)

/-- Reserves clones of a function for mutants, counted from `n` on. -/
def reserveAll (f : Function) (n : Nat) :
    List String → Reservation → Reservation × Except IsolationObstacle (List Arm)
  | [], r => (r, .ok [])
  | mutant :: mutants, r =>
    match reserve f n mutant r with
    | (r, .error e) => (r, .error e)
    | (r, .ok a) =>
      match reserveAll f (n + 1) mutants r with
      | (r, .error e) => (r, .error e)
      | (r, .ok arms) => (r, .ok (a :: arms))

/-! ## Functions and the module -/

/-- Takes one function apart. -/
def isolateFunction (index : Nat) (mutants : List String) (r : Reservation) :
    Reservation × Except IsolationObstacle Unit :=
  match r.module.functions[index]? with
  | none => (r, .error (.missingFunction (mutants.head?.getD "") index))
  | some f =>
    let fallback := r.module.functions.length
    let r := { r with module := r.module.pushCopy f s!"{f.name}$original" }
    match reserveAll f 0 mutants r with
    | (r, .error e) => (r, .error e)
    | (r, .ok arms) =>
      if maxForwarded < f.params.toNat then (r, .error (.tooManyParameters f.name))
      else
        ({ r with module := r.module.modifyFunction index fun _ => dispatcher f fallback arms },
          .ok ())

/-- Takes functions apart, one after the other. -/
def isolateFunctions :
    List (Nat × List String) → Reservation → Reservation × Except IsolationObstacle Unit
  | [], r => (r, .ok ())
  | (index, mutants) :: rest, r =>
    match isolateFunction index mutants r with
    | (r, .error e) => (r, .error e)
    | (r, .ok ()) => isolateFunctions rest r

/-- The mutants of a module by function, functions in ascending order and mutants in
the order of the list. -/
def mutantsByFunction (id : ModuleId) (points : List Point) : List (Nat × List String) :=
  let own := points.filter fun p => p.module == id
  let owners := (own.map fun p => p.location.function).eraseDups.mergeSort
  owners.map fun f =>
    (f, (own.filter fun p => p.location.function == f).map Point.identifier)

/-- Records the clones of a module, unless there are some on record. -/
def LoadedModule.recordClones (l : LoadedModule) (clones : List (String × Nat)) :
    LoadedModule × Except IsolationObstacle Unit :=
  match l.setClones? clones with
  | none => (l, .error (.alreadyPrepared l.identifier))
  | some l => (l, .ok ())

/-- Takes apart the functions of a module that own points; points of other modules
count for nothing. -/
def LoadedModule.isolate (l : LoadedModule) (points : List Point) :
    LoadedModule × Except IsolationObstacle Unit :=
  if l.isPrepared then (l, .error (.alreadyPrepared l.identifier))
  else
    match isolateFunctions (mutantsByFunction l.id points) ⟨l.module, []⟩ with
    | (r, .error e) => ({ l with module := r.module }, .error e)
    | (r, .ok ()) => LoadedModule.recordClones { l with module := r.module } r.clones

/-- Isolates the mutants of modules, one after the other, up to the first obstacle. -/
def isolateModules (points : List Point) :
    List LoadedModule → List LoadedModule × Except IsolationObstacle Unit
  | [] => ([], .ok ())
  | l :: ls =>
    match l.isolate points with
    | (l, .error e) => (l :: ls, .error e)
    | (l, .ok ()) =>
      let (ls, outcome) := isolateModules points ls
      (l :: ls, outcome)

/-- Isolates the mutants of every module of a program. -/
def Program.isolate (p : Program) (points : List Point) :
    Program × Except IsolationObstacle Unit :=
  let (modules, outcome) := isolateModules points p.modules
  ({ p with modules }, outcome)

end MutantGate
