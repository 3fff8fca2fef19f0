import ModelBinding.Error
import ModelBinding.Files.Path

/-!
# Access to files

What a project needs of a file system. Everything that is done to files is written over these
five operations, and means the same for a tree in memory as for the files of a machine.
-/
namespace ModelBinding

/-- What a path leads to, if it leads anywhere. -/
inductive FileKind where
  | regular
  | directory
deriving DecidableEq

class FileAccess (m : Type → Type) where
  kind? (path : String) : m (Option FileKind)
  /-- The names in a directory, in any order. -/
  names (path : String) : m (Except FileFault (List String))
  read (path : String) : m (Except FileFault String)
  /-- Write a whole file; its directory has to be there. -/
  write (path text : String) : m (Except FileFault Unit)
  /-- Make one directory, in a directory that is there. -/
  makeDirectory (path : String) : m (Except FileFault Unit)

/-- A computation that can fail has the access of the one below it. -/
instance {m : Type → Type} [Monad m] [FileAccess m] : FileAccess (ExceptT ε m) where
  kind? path := ExceptT.lift (FileAccess.kind? path)
  names path := ExceptT.lift (FileAccess.names path)
  read path := ExceptT.lift (FileAccess.read path)
  write path text := ExceptT.lift (FileAccess.write path text)
  makeDirectory path := ExceptT.lift (FileAccess.makeDirectory path)

namespace FileAccess

variable {m : Type → Type} [Monad m] [FileAccess m]

def isDirectory (path : String) : m Bool :=
  return (← kind? path) == some .directory

def isRegular (path : String) : m Bool :=
  return (← kind? path) == some .regular

/-- The names in a directory in increasing order; what is no directory has none. -/
def sortedNames (path : String) : m (List String) :=
  return match ← names path with
    | .ok list => sortDistinct list
    | .error _ => []

/-- Make a directory that may be there already. -/
def ensureDirectory (path : String) : m (Except FileFault Unit) := do
  match ← makeDirectory path with
  | .ok () => return .ok ()
  | .error fault => if ← isDirectory path then return .ok () else return .error fault

/-- Make a directory; only if there is no place for it, make its parents first. -/
def ensureWithParents (path : String) (makeParents : m (Except FileFault Unit)) :
    m (Except FileFault Unit) := do
  match ← ensureDirectory path with
  | .error .notFound =>
    match ← makeParents with
    | .ok () => ensureDirectory path
    | .error fault => return .error fault
  | result => return result

/-- Make the directory of some components, given from the last to the first. -/
def makeAncestors : List String → m (Except FileFault Unit)
  | [] => return .ok ()
  | name :: above =>
    ensureWithParents (Path.ofComponents (name :: above).reverse) (makeAncestors above)

/-- Make a directory with all its parents. The empty path stands for the one we are in. -/
def makeDirectories (path : String) : m (Except FileFault Unit) :=
  if path.isEmpty then return .ok ()
  else ensureWithParents path (makeAncestors (Path.components path).reverse.tail)

end FileAccess

end ModelBinding
