import MutantGate.CommandLine
/-!
# The program

Calls the command on the files of the system and hands on what it leaves.  Machine code is left
to `CodeGenerator.simple`, so a call says which modules can be lowered, and makes no code for
the machine.
-/

namespace MutantGate

/-- The number of a system error; some calls report it negated. -/
def systemNumber (code : UInt32) : UInt32 := min code (0 - code)

/-- The text of the system for an error, with its number. -/
def systemText (details : String) (code : UInt32) : String :=
  s!"{details.capitalize} (os error {systemNumber code})"

/-- Why the system refused a file. -/
def FileFault.ofSystem : IO.Error → FileFault
  | .noFileOrDirectory .. => .notFound
  | .inappropriateType _ code details =>
    if systemNumber code = 21 then .isDirectory
    else if systemNumber code = 20 then .notDirectory
    else .other (systemText details code)
  | .permissionDenied _ code details => .other (systemText details code)
  | .invalidArgument _ code details => .other (systemText details code)
  | .resourceExhausted _ code details => .other (systemText details code)
  | .otherError code details => .other (systemText details code)
  | e => .other (toString e)

/-- Access to the files of the system. -/
def systemFiles : FileAccess IO where
  read path := do
    try return .ok (← IO.FS.readBinFile path).toList
    catch e => return .error (.ofSystem e)
  write path bytes := do
    try
      IO.FS.writeBinFile path ⟨bytes.toArray⟩
      return .ok ()
    catch e => return .error (.ofSystem e)

end MutantGate

open MutantGate in
/-- Runs the command and reports how it went. -/
def main (args : List String) : IO UInt32 := do
  let r ← command args systemFiles .simple
  IO.print r.output
  match r.diagnostic with
  | some text => IO.eprint s!"mutator-validator: {text}"
  | none => pure ()
  return r.exitCode.toUInt32
