import ModelBinding.Document.Json.Reader
import ModelBinding.Document.Record
import ModelBinding.Document.Toml.Reader
import ModelBinding.Document.Toml.Writer
import ModelBinding.Error

/-!
# Versioned documents

Every document says which version of the schema it is written in, and none is read that says
another or nothing. A text without a version is no document of ours, whatever else is in it.
-/
namespace ModelBinding

/-- Whether the version that a document says is the one in use. -/
def checkVersion (document : DocumentKind) (found : Option String) : Except Error Unit :=
  if found = some schemaVersion then .ok () else .error (.versionMismatch document found)

namespace Json

def parse (text : String) (rounding : Rounding := .bestEffort) : Except Error Value :=
  match parse? text rounding with
  | some v => .ok v
  | none => .error .jsonSyntax

/-- Read a record of a value. -/
def read (decode : Decoder α) (v : Value) : Except Error α :=
  (decode v).mapError .json

/-- Read a record of a text without asking for a version. -/
def readText (decode : Decoder α) (text : String) (rounding : Rounding := .bestEffort) :
    Except Error α := do
  read decode (← parse text rounding)

def readVersioned (document : DocumentKind) (decode : Decoder α) (text : String)
    (rounding : Rounding := .bestEffort) : Except Error α := do
  let v ← parse text rounding
  checkVersion document ((v.field? versionKey).bind Value.asText?)
  read decode v

end Json

namespace Toml

def parse (text : String) : Except Error Entries :=
  match parse? text with
  | some entries => .ok entries
  | none => .error .tomlSyntax

def readVersioned (document : DocumentKind) (decode : Decoder α) (text : String) :
    Except Error α := do
  let entries ← parse text
  checkVersion document (topText? versionKey entries)
  (decode (.ofEntries (entryValues entries))).mapError fun fault =>
    .config (.fault document fault)

/-- The text of a record with its version. -/
def writeVersioned (v : Value) : Except Error String :=
  match write? (v.withEntry versionKey (.text schemaVersion)) with
  | some text => .ok text
  | none => .error .tomlRange

end Toml

end ModelBinding
