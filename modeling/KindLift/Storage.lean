import KindLift.Path
import KindLift.Table

/-! Where a run reads its units and writes them back. -/
namespace KindLift

/-- Why a file cannot be read or replaced. What the system refuses it gives a reason
of its own for. -/
inductive FileFault where
  | absent
  | noEntry
  | notDirectory
  | isDirectory
  | notText
  | refused (reason : String)
deriving DecidableEq, Repr

def FileFault.message : FileFault → String
  | absent => "entity not found"
  | noEntry => "No such file or directory (os error 2)"
  | notDirectory => "Not a directory (os error 20)"
  | isDirectory => "Is a directory (os error 21)"
  | notText => "stream did not contain valid UTF-8"
  | refused reason => reason

/-- Named texts that can be read and replaced. A text is replaced as a whole or not
at all. -/
class Storage (σ : Type) where
  read : σ → String → Except FileFault String
  write : σ → String → String → Except FileFault σ

/-- Files in memory, and how often one was written. -/
structure MemoryFiles where
  files : Table (List Component) String
  writes : Nat

namespace MemoryFiles

/-- The given files, none of them written yet. -/
def ofList (files : List (String × String)) : MemoryFiles :=
  ⟨.ofList (files.map fun file => (Path.components file.1, file.2)), 0⟩

def get? (storage : MemoryFiles) (path : String) : Option String :=
  storage.files.get? (Path.components path)

instance : Storage MemoryFiles where
  read storage path :=
    match storage.get? path with
    | some text => .ok text
    | none => .error .absent
  write storage path text :=
    .ok ⟨storage.files.insert (Path.components path) text, storage.writes + 1⟩

end MemoryFiles
end KindLift
