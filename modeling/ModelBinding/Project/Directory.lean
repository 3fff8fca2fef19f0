import ModelBinding.Binding.Context
import ModelBinding.Project.Sources

/-!
# Project directories

A project is a directory with the settings of a model, those of its environment, the metadata
that the exporter gives, and the model directory with the sources. Building reads all of them
before it writes anything.
-/
namespace ModelBinding

/-- A project by its directory, as the user spells it. -/
structure Project where
  workdir : String
deriving DecidableEq

namespace Project

def settingsName : String := "model.toml"

def environmentName : String := "env.toml"

def metadataName : String := "metadata.json"

/-- The concise document of the last build. -/
def contextName : String := "project.json"

/-- The document with everything that reading derives. -/
def debugContextName : String := "project.debug.json"

def modelDirectoryName : String := "model"

def path (project : Project) (name : String) : String := Path.join project.workdir name

def modelDirectory (project : Project) : String := project.path modelDirectoryName

/-- Model and class names for a directory, if its own name can be used. -/
def suggestNames (workdir : String) : Option (String × String) := do
  let name ← Path.fileName? workdir
  if isModelName name && isIdentifier name then some (name, name ++ "ModelClass") else none

variable {m : Type → Type} [Monad m] [FileAccess m]

/-- A result about the file at a path. -/
def atPath (path : String) (result : Except FileFault α) : ExceptT Error m α :=
  ExceptT.mk (pure (result.mapError (Error.file path)))

def readText (path : String) : ExceptT Error m String := do
  atPath path (← FileAccess.read path)

def writeText (path text : String) : ExceptT Error m Unit := do
  atPath path (← FileAccess.write path text)

/-- The project in a directory that has been set up as one. -/
def openAt (workdir : String) : ExceptT Error m Project := do
  let project : Project := ⟨workdir⟩
  if ← FileAccess.isRegular (project.path settingsName) then return project
  else throw (.workspace workdir .notAProject)

/-- Whether a project can be set up: the directory is missing or empty. -/
def checkVacant (project : Project) : ExceptT Error m Unit := do
  match ← FileAccess.kind? project.workdir with
  | none => return ()
  | some .regular => throw (.workspace project.workdir .notADirectory)
  | some .directory =>
    let names ← atPath project.workdir (← FileAccess.names project.workdir)
    if names.isEmpty then return ()
    else if ← FileAccess.isRegular (project.path settingsName) then
      throw (.workspace project.workdir .alreadyInitialized)
    else throw (.workspace project.workdir .hasContent)

/-- Set up a project with given settings and an environment to start from. -/
def create (workdir : String) (settings : ModelSettings) : ExceptT Error m Project := do
  let project : Project := ⟨workdir⟩
  project.checkVacant
  settings.validate
  atPath workdir (← FileAccess.makeDirectories workdir)
  writeText (project.path settingsName) (← settings.toToml)
  writeText (project.path environmentName) (← Environment.default.toToml)
  return project

def loadSettings (project : Project) : ExceptT Error m ModelSettings := do
  ModelSettings.ofToml (← readText (project.path settingsName))

def loadEnvironment (project : Project) : ExceptT Error m Environment := do
  Environment.ofToml (← readText (project.path environmentName))

def loadMetadata (project : Project) : ExceptT Error m Metadata := do
  Metadata.ofJson (← readText (project.path metadataName))

/-- The context of the last build. -/
def loadContext (project : Project) : ExceptT Error m Context := do
  Context.ofJson (← readText (project.path contextName))

def discoverSources (project : Project) : ExceptT Error m (List String) :=
  Sources.discover project.modelDirectory

/-- The context of what the project directory holds. -/
def assemble (project : Project) : ExceptT Error m Context := do
  let settings ← project.loadSettings
  let env ← project.loadEnvironment
  let metadata ← project.loadMetadata
  let sources ← project.discoverSources
  Context.build metadata settings env sources metadata.headers

/-- Build the context and write it down, with `debug` also in full. -/
def build (project : Project) (debug : Bool) : ExceptT Error m Context := do
  let context ← project.assemble
  writeText (project.path contextName) (context.dump .concise)
  if debug then writeText (project.path debugContextName) (context.dump .debug)
  return context

end Project

end ModelBinding
