import ModelBinding.Files.Access

/-!
# Sources of a model

The sources that the exporter leaves in the model directory: C++ files, C files, and the C files
one directory below. Each kind comes in the order of names.

What the search finds is spelled without a `.` at the front, and it counts only if it is below
the model directory as that is spelled.
-/
namespace ModelBinding.Sources

variable {m : Type → Type} [Monad m] [FileAccess m]

def hasSuffix (suffix name : String) : Bool := suffix.toList.isSuffixOf name.toList

/-- The names of the regular files in a directory that end in a suffix, in order. -/
def filesWith (suffix directory : String) : m (List String) := do
  let names ← FileAccess.sortedNames directory
  (names.filter (hasSuffix suffix)).filterM fun name =>
    FileAccess.isRegular (Path.join directory name)

/-- The same one directory below. -/
def nestedFilesWith (suffix directory : String) : m (List (List String)) := do
  let names ← FileAccess.sortedNames directory
  let found ← names.mapM fun name => do
    return (← filesWith suffix (Path.join directory name)).map fun file => [name, file]
  return found.flatten

/-- The names that lead from the model directory to each source. -/
def search (directory : String) : m (List (List String)) := do
  let units ← filesWith ".cpp" directory
  let files ← filesWith ".c" directory
  let nested ← nestedFilesWith ".c" directory
  return units.map ([·]) ++ files.map ([·]) ++ nested

/-- A slash for every backslash. -/
def forwardSlashes (name : String) : String :=
  String.ofList (name.toList.map fun c => if c = '\\' then '/' else c)

/-- The path of a source from the model directory, given the names that lead to it. -/
def relative? (directory : String) (names : List String) : Option String :=
  let components := Path.components directory
  (Path.relative? components (Path.withoutLeadingDot components ++ names)).map fun names =>
    forwardSlashes (Path.ofComponents names)

/-- The paths of the sources from the model directory. -/
def discover (directory : String) : m (List String) := do
  return (← search directory).filterMap (relative? directory)

end ModelBinding.Sources
