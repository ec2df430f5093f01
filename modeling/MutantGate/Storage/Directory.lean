import MutantGate.Storage.Path
/-!
# Directories

The files that a run can see, by their places.  The working directory, the directories
above it and the root are there from the start; any other directory is there if a file
lies in it.  A path is walked step by step, and each step but the last has to end in a
directory; an access that fails says what stood in its way first.

## What is left outside

Permissions, links, devices and directories without files.  Nobody else changes the files while a
run goes on.  Whatever else a system may have against an access is `FileFault.other`, in words of
its own; no directory here gives it.
-/

namespace MutantGate

/-- Why a file could not be read or written. -/
inductive FileFault where
  | notFound
  | isDirectory
  | notDirectory
  | nameTooLong
  /-- The path has a NUL character. -/
  | nulInPath
  /-- The system gives a reason of its own. -/
  | other (text : String)
  deriving DecidableEq, Repr

/-- The words for a fault. -/
def FileFault.message : FileFault → String
  | .notFound => "No such file or directory (os error 2)"
  | .isDirectory => "Is a directory (os error 21)"
  | .notDirectory => "Not a directory (os error 20)"
  | .nameTooLong => "File name too long (os error 36)"
  | .nulInPath => "file name contained an unexpected NUL byte"
  | .other text => text

/-- The most bytes a name may have. -/
def Path.maxName : Nat := 255

/-- The most bytes a path may have. -/
def Path.maxLength : Nat := 4095

/-- Files by their places. -/
structure Directory where
  files : List (Path.Place × List UInt8)
  deriving DecidableEq, Repr

namespace Directory

/-- A directory without files. -/
def empty : Directory := ⟨[]⟩

/-- The bytes of the file at a place. -/
def file? (d : Directory) (p : Path.Place) : Option (List UInt8) := d.files.lookup p

/-- Does a place lie somewhere in another one? -/
def liesIn (inner outer : Path.Place) : Bool :=
  inner.base == outer.base && outer.names.isPrefixOf inner.names && inner.names != outer.names

/-- Is there a directory at a place? -/
def hasDirectory (d : Directory) (p : Path.Place) : Bool :=
  p.names.isEmpty || d.files.any fun f => liesIn f.1 p

/-! ## Walking -/

/-- A step that has to end in a directory. -/
def enter (d : Directory) (p : Path.Place) (step : String) : Except FileFault Path.Place :=
  let q := Path.follow p step
  if d.hasDirectory q then .ok q
  else if Path.maxName < step.utf8ByteSize then .error .nameTooLong
  else if (d.file? q).isSome then .error .notDirectory
  else .error .notFound

/-- Where a walk ends: in a directory, or at a name in one, which may have a slash
behind it. -/
inductive Destination where
  | directory
  | entry (p : Path.Place) (name : String) (hasSlash : Bool)
  deriving DecidableEq, Repr

/-- Walks a path. -/
def walk (d : Directory) (path : String) : Except FileFault Destination :=
  if path.toList.contains '\x00' then .error .nulInPath
  else if path.isEmpty then .error .notFound
  else if Path.maxLength < path.utf8ByteSize then .error .nameTooLong
  else
    match (Path.steps path).getLast? with
    | none => .ok .directory
    | some last =>
      match (Path.steps path).dropLast.foldlM d.enter (Path.start path) with
      | .error fault => .error fault
      | .ok p =>
        if last == "." || last == ".." then .ok .directory
        else .ok (.entry (p.child last) last (path.endsWith "/"))

/-! ## Access -/

/-- The bytes of a file. -/
def read (d : Directory) (path : String) : Except FileFault (List UInt8) :=
  match d.walk path with
  | .error fault => .error fault
  | .ok .directory => .error .isDirectory
  | .ok (.entry p name hasSlash) =>
    if d.hasDirectory p then .error .isDirectory
    else if Path.maxName < name.utf8ByteSize then .error .nameTooLong
    else
      match d.file? p with
      | none => .error .notFound
      | some bytes => if hasSlash then .error .notDirectory else .ok bytes

/-- The directory with a file at a place, in the stead of an older one. -/
def withFile (d : Directory) (p : Path.Place) (bytes : List UInt8) : Directory :=
  ⟨(p, bytes) :: d.files.filter fun f => f.1 != p⟩

/-- The directory after a file has been written. -/
def write (d : Directory) (path : String) (bytes : List UInt8) : Except FileFault Directory :=
  match d.walk path with
  | .error fault => .error fault
  | .ok .directory => .error .isDirectory
  | .ok (.entry p name hasSlash) =>
    if hasSlash || d.hasDirectory p then .error .isDirectory
    else if Path.maxName < name.utf8ByteSize then .error .nameTooLong
    else .ok (d.withFile p bytes)

/-- Puts a file where a path leads, whatever is missing on its way. -/
def put (d : Directory) (path : String) (bytes : List UInt8) : Directory :=
  d.withFile (Path.place path) bytes

end Directory

end MutantGate
