/-!
# Roles

What the structs of a model are for. The code generator tells by the end of a struct's name: the
part after an underscore.
-/
namespace ModelBinding

structure Role where
  name : String
  suffix : String
  description : String
deriving DecidableEq

namespace Role

def externalInputs : String := "external_inputs"

def externalOutputs : String := "external_outputs"

def instanceParameters : String := "instance_parameters"

/-- The roles that are known. -/
def all : List Role := [
  ⟨"block_signals", "B", "Block signals of the system"⟩,
  ⟨externalInputs, "U", "Input data"⟩,
  ⟨"external_input_sizes", "USize", "Size of input data"⟩,
  ⟨externalOutputs, "Y", "Output data"⟩,
  ⟨"external_output_sizes", "YSize", "Size of output data"⟩,
  ⟨"parameters", "P", "Parameters for the system"⟩,
  ⟨"const_block_signals", "ConstB", "Block inputs and outputs that are constants"⟩,
  ⟨"machine_local_data", "MachLocal", "Used by ERT S-function targets"⟩,
  ⟨"const_parameters", "ConstP", "Constant parameters in the system"⟩,
  ⟨"const_parameters_with_init", "ConstInitP",
    "Initialization data for constant parameters in the system"⟩,
  ⟨"discrete_states", "DW", "Block states in the system"⟩,
  ⟨"mass_matrix", "MassMatrix", "Used for physical modeling blocks"⟩,
  ⟨"zero_crossing_states", "PrevZCX", "Previous zero-crossing signal state"⟩,
  ⟨"continuous_states", "X", "Continuous states"⟩,
  ⟨"disabled_states", "XDis", "Status of an enabled subsystem"⟩,
  ⟨"state_derivatives", "XDot", "Derivatives of continuous states at each time step"⟩,
  ⟨"zero_crossing_signals", "ZCV", "Zero-crossing signals"⟩,
  ⟨instanceParameters, "InstP", "Parameter arguments for the system"⟩]

def find? (name : String) : Option Role := all.find? (·.name = name)

/-- Whether a name ends in an underscore and the suffix of the role. -/
def marks (role : Role) (name : String) : Bool :=
  ('_' :: role.suffix.toList).isSuffixOf name.toList

/-- What a name that ends in a suffix of `roles` stands for. -/
def describeBy (roles : List Role) (name : String) : String :=
  match roles.find? (·.marks name) with
  | some role => role.description
  | none => "Unknown"

def describe (name : String) : String := describeBy all name

end Role

end ModelBinding
