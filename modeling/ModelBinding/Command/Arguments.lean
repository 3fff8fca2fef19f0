/-!
# Command line arguments

Options come before the command or after it, the working directory and the debug switch in either
place. The arguments are read from left to right and the first thing that is wrong ends the
reading, but so does a request for the version or for help. In one place an option is given at
most once; of the two places the later one counts.
-/
namespace ModelBinding

/-- How a context is shown. -/
inductive SummaryFormat where
  | compact
  | pretty
  | json
deriving DecidableEq

namespace SummaryFormat

def names : List (String × SummaryFormat) :=
  [("compact", .compact), ("pretty", .pretty), ("json", .json)]

def ofName? (name : String) : Option SummaryFormat := names.lookup name

end SummaryFormat

inductive Command where
  /-- Set up a project; names that are not given follow from the directory. -/
  | init (model className codeNamespace : Option String)
  /-- Build the context of a project. -/
  | frontend
  /-- Show the context of the last build. -/
  | inspect (format : SummaryFormat)
deriving DecidableEq

/-- What a command line asks for. -/
inductive Invocation where
  | run (workdir : String) (debug : Bool) (command : Command)
  | version
  | help
deriving DecidableEq

namespace Arguments

/-- Where an argument stands: before the command, or after it. -/
inductive Scope where
  | top
  | init
  | frontend
  | inspect
deriving DecidableEq

/-- The options that take a value. -/
inductive ValueOption where
  | workdir
  | model
  | className
  | codeNamespace
  | format
deriving DecidableEq

inductive OptionKey where
  | value (option : ValueOption)
  | debug
  | version
  | help
deriving DecidableEq

def longOptions : Scope → List (String × OptionKey)
  | .top => [("workdir", .value .workdir), ("debug", .debug), ("help", .help),
      ("version", .version)]
  | .init => [("model", .value .model), ("class-name", .value .className),
      ("namespace", .value .codeNamespace), ("workdir", .value .workdir), ("debug", .debug),
      ("help", .help)]
  | .frontend => [("workdir", .value .workdir), ("debug", .debug), ("help", .help)]
  | .inspect => [("format", .value .format), ("workdir", .value .workdir), ("debug", .debug),
      ("help", .help)]

def shortOptions : Scope → List (Char × OptionKey)
  | .top => [('C', .value .workdir), ('h', .help), ('V', .version)]
  | _ => [('C', .value .workdir), ('h', .help)]

def commands : List (String × Scope) :=
  [("init", .init), ("frontend", .frontend), ("inspect", .inspect)]

/-- One argument by its form. -/
inductive Argument where
  /-- Two hyphens: what follows is no option. -/
  | separator
  | long (name : String) (value : Option String)
  /-- One hyphen, a letter and what is written next to it. -/
  | short (letter : Char) (attached : List Char)
  | word (text : String)

/-- An option at its first equals sign. -/
def longForm (s : List Char) : Argument :=
  match s.dropWhile (· != '=') with
  | '=' :: value => .long (.ofList (s.takeWhile (· != '='))) (some (.ofList value))
  | _ => .long (.ofList s) none

def classify (argument : String) : Argument :=
  match argument.toList with
  | ['-', '-'] => .separator
  | '-' :: '-' :: s => longForm s
  | '-' :: letter :: s => .short letter s
  | _ => .word argument

/-- Whether an argument cannot be the value of the option before it. -/
def isOption (argument : String) : Bool :=
  match classify argument with
  | .word _ => false
  | _ => true

/-- The options that have been read in one place. -/
structure Given where
  values : List (ValueOption × String)
  debug : Bool

namespace Given

def none : Given := ⟨[], false⟩

/-- Whether a text can be the value of an option. -/
def accepts : ValueOption → String → Bool
  | .workdir, value => !value.isEmpty
  | .format, value => (SummaryFormat.ofName? value).isSome
  | _, _ => true

def get? (given : Given) (option : ValueOption) : Option String := given.values.lookup option

def add? (given : Given) (option : ValueOption) (value : String) : Option Given :=
  if accepts option value && (given.get? option).isNone then
    some { given with values := (option, value) :: given.values }
  else Option.none

def switchDebug? (given : Given) : Option Given :=
  if given.debug then Option.none else some { given with debug := true }

end Given

/-- How the reading of one place ends. -/
inductive Reading where
  | done (given : Given)
  | command (given : Given) (name : String) (rest : List String)
  | version
  | help

/-- An option with its value, if it has one attached. -/
def option? (scope : Scope) : Argument → Option (OptionKey × Option String)
  | .long name value =>
    match (longOptions scope).lookup name with
    | some (.value option) => some (.value option, value)
    | some key => if value.isNone then some (key, none) else none
    | none => none
  | .short letter attached =>
    match (shortOptions scope).lookup letter, attached with
    | some (.value option), [] => some (.value option, none)
    | some (.value option), '=' :: value => some (.value option, some (.ofList value))
    | some (.value option), value => some (.value option, some (.ofList value))
    | some key, _ => some (key, none)
    | none, _ => none
  | _ => none

/-- Read the arguments of one place; none if they cannot be read. -/
def read? (scope : Scope) (given : Given) : List String → Option Reading
  | [] => some (.done given)
  | argument :: rest =>
    match classify argument with
    | .separator => if rest.isEmpty then some (.done given) else none
    | .word name => if scope = .top then some (.command given name rest) else none
    | form =>
      match option? scope form with
      | none => none
      | some (.version, _) => some .version
      | some (.help, _) => some .help
      | some (.debug, _) =>
        match given.switchDebug? with
        | some given => read? scope given rest
        | none => none
      | some (.value option, some value) =>
        match given.add? option value with
        | some given => read? scope given rest
        | none => none
      | some (.value option, none) =>
        match rest with
        | [] => none
        | value :: rest =>
          if isOption value then none
          else
            match given.add? option value with
            | some given => read? scope given rest
            | none => none

/-- The command of a scope with the options given to it; the top is none. -/
def command? (given : Given) : Scope → Option Command
  | .top => none
  | .init => some (.init (given.get? .model) (given.get? .className) (given.get? .codeNamespace))
  | .frontend => some .frontend
  | .inspect =>
    some (.inspect (((given.get? .format).bind SummaryFormat.ofName?).getD .pretty))

/-- Read what follows the name of a command, given the options before it. -/
def readCommand? (before : Given) (scope : Scope) (rest : List String) : Option Invocation :=
  match read? scope .none rest with
  | some (.done given) =>
    (command? given scope).map fun command =>
      .run (((given.get? .workdir).or (before.get? .workdir)).getD ".")
        (before.debug || given.debug) command
  | some .version => some .version
  | some .help => some .help
  | _ => none

/-- What can follow the word `help`: nothing, or what help is wanted on. -/
def isHelpTopic : List String → Bool
  | [] => true
  | [name] => name == "help" || (commands.lookup name).isSome
  | _ => false

/-- What a command line asks for; none if it cannot be read. -/
def parse? (arguments : List String) : Option Invocation :=
  match read? .top .none arguments with
  | some (.command before name rest) =>
    match commands.lookup name with
    | some scope => readCommand? before scope rest
    | none => if name = "help" && isHelpTopic rest then some .help else none
  | some .version => some .version
  | some .help => some .help
  | _ => none

end Arguments

end ModelBinding
