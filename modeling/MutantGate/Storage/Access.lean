import MutantGate.Storage.Directory
/-!
# Access to files

What a run does with files, whatever holds them.  A run is written against this
interface once: on a computer the files are those of the system, and in thought they
are a directory that the run passes on.

## What is left outside

What reading and writing do.  Where a theorem needs something of them, it says so: that reading
changes nothing is `FileAccess.ReadsOnly`, and writing may fail as it likes.
-/

namespace MutantGate

/-- Reading and writing files. -/
structure FileAccess (m : Type → Type) where
  read : String → m (Except FileFault (List UInt8))
  write : String → List UInt8 → m (Except FileFault Unit)

/-- Access to the files of a directory; a write that fails changes nothing. -/
def FileAccess.ofDirectory : FileAccess (StateM Directory) where
  read path := do return (← get).read path
  write path bytes := do
    match (← get).write path bytes with
    | .error fault => return .error fault
    | .ok d => set d; return .ok ()

end MutantGate
