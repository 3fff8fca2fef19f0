import ModelBinding.Binding.Summary
import ModelBinding.Command.Arguments
import ModelBinding.Project.Directory

/-!
# Running commands

A command works on a project directory and comes to an outcome: what goes to the two output
streams, and the exit code. On failure nothing goes to the first stream.
-/
namespace ModelBinding

structure Outcome where
  code : UInt32
  stdout : String
  stderr : String
deriving DecidableEq

inductive CommandError where
  /-- The name of the directory is no name for a model. -/
  | noModelName (workdir : String)
  | failed (error : Error)

namespace CommandError

def message : CommandError → String
  | .noModelName workdir =>
    "Invalid argument: Can't derive a model name from " ++ workdir ++ ", pass --model"
  | .failed error => error.message

def userMessage : CommandError → String
  | .noModelName workdir => message (.noModelName workdir)
  | .failed error => error.userMessage

/-- The message and what a lower layer said. -/
def chain : CommandError → List String
  | .noModelName workdir => [message (.noModelName workdir)]
  | .failed error => error.message :: error.cause?.toList

end CommandError

namespace Command

/-- Text whose lines after the first begin under the text of the first. -/
def hang (margin : String) (text : String) : String :=
  String.ofList (text.toList.flatMap fun c => if c = '\n' then '\n' :: margin.toList else [c])

/-- The causes of a failure, with numbers if there are several. -/
def causes : List String → String
  | [message] => "\n    " ++ hang "    " message
  | messages => String.join (messages.zipIdx.map fun (message, n) =>
      "\n    " ++ toString n ++ ": " ++ hang "       " message)

/-- What a failed command says about itself when asked for details. -/
def details (name : String) (error : CommandError) : String :=
  name ++ " failed\n\nCaused by:" ++ causes error.chain

def failure (name : String) (debug : Bool) (error : CommandError) : Outcome where
  code := 1
  stdout := ""
  stderr := "Error: " ++ error.userMessage ++ "\n" ++
    if debug then "\n" ++ details name error ++ "\n" else ""

def name : Command → String
  | .init .. => "init"
  | .frontend => "frontend"
  | .inspect _ => "inspect"

variable {m : Type → Type} [Monad m] [FileAccess m]

/-- An error of the library as one of a command. -/
def attempt (action : ExceptT Error m α) : ExceptT CommandError m α :=
  ExceptT.mk do return (← action.run).mapError .failed

/-- Set up a project; the names default to those that the directory suggests. -/
def setUp (workdir : String) (model className codeNamespace : Option String) :
    ExceptT CommandError m String := do
  match model.or ((Project.suggestNames workdir).map (·.1)) with
  | none => throw (.noModelName workdir)
  | some model =>
    let className := className.getD (model ++ "ModelClass")
    let project ← attempt (Project.create workdir (.make model className (codeNamespace.getD "")))
    return "Initialized project " ++ model ++ " in " ++ project.workdir ++ "\n  " ++
      Project.settingsName ++ "\n  " ++ Project.environmentName ++
      "\nPlace the exported model sources and metadata.json under " ++
      Project.modelDirectoryName ++ "/\n"

def buildContext (workdir : String) (debug : Bool) : ExceptT CommandError m String := do
  let project ← attempt (Project.openAt workdir)
  let context ← attempt (project.build debug)
  return "Built IR for " ++ context.module.name ++ " (" ++
    toString context.module.types.length ++ " types, " ++ toString context.sources.length ++
    " sources)\n  " ++ project.path Project.contextName ++ "\n" ++
    if debug then "  " ++ project.path Project.debugContextName ++ "\n" else ""

/-- A context in a format. -/
def summary (context : Context) : SummaryFormat → Except Error String
  | .compact => context.compactSummary
  | .pretty => context.prettySummary
  | .json => .ok (context.dump .debug)

def showContext (workdir : String) (format : SummaryFormat) : ExceptT CommandError m String := do
  let project ← attempt (Project.openAt workdir)
  let context ← attempt project.loadContext
  return (← attempt (ExceptT.mk (pure (summary context format)))) ++ "\n"

/-- What a command writes if all goes well. -/
def output (command : Command) (workdir : String) (debug : Bool) :
    ExceptT CommandError m String :=
  match command with
  | .init model className codeNamespace => setUp workdir model className codeNamespace
  | .frontend => buildContext workdir debug
  | .inspect format => showContext workdir format

def run (command : Command) (workdir : String) (debug : Bool) : m Outcome := do
  match ← (command.output workdir debug).run with
  | .ok text => return ⟨0, text, ""⟩
  | .error error => return failure command.name debug error

end Command

namespace Invocation

def versionText : String := "slx-ir 0.1.0\n"

def usage : String :=
  "Usage: slx-ir [-C DIR] [--debug] <COMMAND>\n\n" ++
  "  init [--model NAME] [--class-name NAME] [--namespace NAME]\n" ++
  "      Create model.toml and env.toml in an empty directory\n" ++
  "  frontend\n" ++
  "      Build the IR from the project documents and write project.json\n" ++
  "  inspect [--format compact|pretty|json]\n" ++
  "      Summarize the IR of the last frontend run\n"

variable {m : Type → Type} [Monad m] [FileAccess m]

def perform : Invocation → m Outcome
  | .run workdir debug command => command.run workdir debug
  | .version => return ⟨0, versionText, ""⟩
  | .help => return ⟨0, usage, ""⟩

/-- The outcome of a command line; one that cannot be read has exit code 2. -/
def runArguments (arguments : List String) : m Outcome :=
  match Arguments.parse? arguments with
  | some invocation => invocation.perform
  | none => return ⟨2, "", usage⟩

end Invocation

end ModelBinding
