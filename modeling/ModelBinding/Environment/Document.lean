import ModelBinding.Document.Versioned
import ModelBinding.Environment.Config

/-!
# The environment document

An environment as the user writes it, in TOML.
-/
namespace ModelBinding.Environment

def ofToml (text : String) : Except Error Environment :=
  Toml.readVersioned .environment decode text

def toToml (env : Environment) : Except Error String :=
  Toml.writeVersioned env.toValue

/-- Whether some number is not one; such an environment differs even from itself. -/
def holdsNan (env : Environment) : Bool := env.scalars.any Scalar.isNan

/-- Whether two environments say the same, number by number. -/
def agrees (a b : Environment) : Bool := decide (a = b) && !a.holdsNan

end ModelBinding.Environment
