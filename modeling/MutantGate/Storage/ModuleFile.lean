import MutantGate.Failure
import MutantGate.IR.BinaryForm
import MutantGate.IR.JsonForm
import MutantGate.Program
import MutantGate.Storage.Directory
/-!
# Modules in files

The path of a file decides the form of the module in it: JSON under the extension of
JSON files, otherwise the binary form.  A file is refused for the first of these
reasons: it cannot be read; as JSON, its bytes are not a text; it does not hold a
module; the module is of another version than the program it is loaded into.
-/

namespace MutantGate

/-- The forms of a module. -/
inductive ModuleForm where
  | json
  | binary
  deriving DecidableEq, Repr

/-- The form of the module under a path. -/
def ModuleForm.ofPath (path : String) : ModuleForm :=
  if Path.isJson path then .json else .binary

/-- A module as bytes of a form. -/
def Module.encode (form : ModuleForm) (m : Module) : List UInt8 :=
  match form with
  | .json => Utf8.encode m.toJsonText
  | .binary => m.toBytes

/-! ## Reading -/

/-- Why a text or a list of bytes is no module. -/
inductive MalformedModule where
  /-- The text is no JSON, or JSON of something else. -/
  | json
  | binary (fault : Binary.Fault)
  deriving DecidableEq, Repr

/-- A malformed module as a failure; what is wrong with JSON is left to say. -/
def MalformedModule.failure : MalformedModule → Failure
  | .json => .serialization (.unfinished "")
  | .binary fault => .serialization (.closed fault.message)

/-- Why a module was not loaded. -/
inductive LoadObstacle where
  | unreadable (fault : FileFault)
  | notText (fault : Utf8.Fault)
  | malformed (reason : MalformedModule)
  | otherVersion (found expected : UInt32)
  deriving DecidableEq, Repr

/-- The words for an obstacle. -/
def LoadObstacle.wording : LoadObstacle → Wording
  | .unreadable fault => .closed fault.message
  | .notText fault => .closed fault.message
  | .malformed reason => reason.failure.wording.following "not a valid serialized module: "
  | .otherVersion found expected =>
    .closed s!"IR version {found} does not match context version {expected}"

/-- An obstacle as a failure of the file it was met in. -/
def LoadObstacle.failure (path : String) (o : LoadObstacle) : Failure := .load path o.wording

/-- The module in a JSON text. -/
def Module.ofJsonText (text : String) : Except MalformedModule Module :=
  match Module.ofJsonText? text with
  | some m => .ok m
  | none => .error .json

/-- The module in a list of bytes. -/
def Module.ofBinary (bytes : List UInt8) : Except MalformedModule Module :=
  (Module.ofBytes bytes).mapError .binary

/-- The module in the bytes of a form. -/
def Module.decode (form : ModuleForm) (bytes : List UInt8) : Except LoadObstacle Module :=
  match form with
  | .json => do
    let text ← (Utf8.decode bytes).mapError .notText
    (Module.ofJsonText text).mapError .malformed
  | .binary => (Module.ofBinary bytes).mapError .malformed

/-- The module in a file of which this is the content, if it has the given version. -/
def Module.load (version : UInt32) (path : String) (content : Except FileFault (List UInt8)) :
    Except LoadObstacle Module := do
  let bytes ← content.mapError .unreadable
  let m ← Module.decode (.ofPath path) bytes
  if m.version = version then .ok m else .error (.otherVersion m.version version)

/-- The program with the module of a file, under the path as its identifier. -/
def Program.load (p : Program) (path : String) (content : Except FileFault (List UInt8)) :
    Except LoadObstacle Program :=
  (Module.load p.formatVersion path content).map fun m => p.add m path

end MutantGate
