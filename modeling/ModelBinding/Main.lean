import ModelBinding.Command.Run

/-!
# The command line program

The files of the machine behind the operations of `FileAccess`, and the program over them.
-/
namespace ModelBinding.Machine

/-- The reason that an operation failed, with the number that the system gave it. -/
def reason (text : String) (number : UInt32) : FileFault :=
  if number = 20 then .notADirectory
  else if number = 21 then .isADirectory
  else .other (text ++ " (os error " ++ toString number ++ ")")

def fault : IO.Error → FileFault
  | .noFileOrDirectory .. => .notFound
  | .alreadyExists .. => .exists
  | .inappropriateType _ number text => reason text number
  | .permissionDenied _ number text => reason text number
  | .otherError number text => reason text number
  | error => .other (toString error)

/-- The result of an operation, its failure as a value. -/
def attempt (action : IO α) : IO (Except FileFault α) := do
  match ← action.toBaseIO with
  | .ok a => return .ok a
  | .error error => return .error (fault error)

def kind? (path : String) : IO (Option FileKind) := do
  let found ← attempt do
    return (← (← IO.FS.realPath path).metadata).type
  return match found with
    | .ok .dir => some .directory
    | .ok .file => some .regular
    | _ => none

def names (path : String) : IO (Except FileFault (List String)) :=
  attempt do
    return (← (← IO.FS.realPath path).readDir).toList.map fun entry => entry.fileName

def read (path : String) : IO (Except FileFault String) := do
  match ← attempt (IO.FS.readBinFile path) with
  | .error fault => return .error fault
  | .ok content =>
    match String.fromUTF8? content with
    | some text => return .ok text
    | none => return .error .notText

instance : FileAccess IO where
  kind? := kind?
  names := names
  read := read
  write path text := attempt (IO.FS.writeFile path text)
  makeDirectory path := attempt (IO.FS.createDir path)

end ModelBinding.Machine

def main (arguments : List String) : IO UInt32 := do
  let outcome ← (ModelBinding.Invocation.runArguments arguments : IO ModelBinding.Outcome)
  IO.print outcome.stdout
  IO.eprint outcome.stderr
  return outcome.code
