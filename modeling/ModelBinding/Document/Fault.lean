import ModelBinding.Document.Value
import ModelBinding.Number.Layout
import ModelBinding.Text.Quoted

/-!
# Why a value is not the record asked for

A fault is what is wrong and where: the keys that lead to it from the root.
-/
namespace ModelBinding

inductive Mismatch where
  | missingField (name : String)
  | unknownVariant (found : String) (expected : List String)
  /-- None of the alternatives of a union without a tag fits. -/
  | noAlternative (union : String)
  | wrongType (found : Value)
  /-- No text where one of a list of names is wanted. -/
  | notAName (found : Value)
  /-- An integer where one is wanted, or a table for a name, but not one that fits. -/
  | outOfRange (found : Value)
  /-- A complete record that breaks a rule of its own. -/
  | refused (reason : String)

structure Fault where
  path : List String
  mismatch : Mismatch

namespace Fault

def here (mismatch : Mismatch) : Fault := ⟨[], mismatch⟩

def under (key : String) (fault : Fault) : Fault := ⟨key :: fault.path, fault.mismatch⟩

/-- The fault seen from outside a value whose parts have no place and no rules of their own. -/
def atWhole (fault : Fault) : Fault :=
  match fault.mismatch with
  | .notAName found => here (.wrongType found)
  | mismatch => here mismatch

end Fault

namespace Mismatch

/-- How a message names a value of an unexpected kind. -/
def describe (numbers : NumberLayout) : Value → String
  | .null => "null"
  | .boolean b => "boolean `" ++ (if b then "true" else "false") ++ "`"
  | .integer i => "integer `" ++ toString i.toInt ++ "`"
  | .unsigned n => "integer `" ++ toString n.toNat ++ "`"
  | .float x => "floating point `" ++ x.text numbers ++ "`"
  | .text s => "string " ++ Text.quoted s
  | .sequence _ => "sequence"
  | .table _ => "map"

def expectation : List String → String
  | [a] => "`" ++ a ++ "`"
  | [a, b] => "`" ++ a ++ "` or `" ++ b ++ "`"
  | names => "one of " ++ ", ".intercalate (names.map fun a => "`" ++ a ++ "`")

def message (numbers : NumberLayout) : Mismatch → String
  | .missingField name => "missing field `" ++ name ++ "`"
  | .unknownVariant found expected =>
    "unknown variant `" ++ found ++ "`, expected " ++ expectation expected
  | .noAlternative union => "data did not match any variant of untagged enum " ++ union
  | .wrongType found | .notAName found => "invalid type: " ++ describe numbers found
  | .outOfRange found => "invalid value: " ++ describe numbers found
  | .refused reason => reason

end Mismatch

end ModelBinding
