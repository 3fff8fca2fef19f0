import ModelBinding.Document.Fault

/-!
# Reading records

A decoder reads one value. A record reads the fields of a table, and of everything that is wrong
with the table it reports one thing: the bad value with the least key, else the first missing
field in the order of declaration. Keys that no field names are ignored.
-/
namespace ModelBinding

abbrev Decoder (α : Type) := Value → Except Fault α

/-- What reading some fields of a table comes to. -/
inductive FieldResult (α : Type) where
  | found (value : α)
  | bad (key : String) (fault : Fault)
  | missing (name : String)

namespace FieldResult

def map (f : α → β) : FieldResult α → FieldResult β
  | .found a => .found (f a)
  | .bad key fault => .bad key fault
  | .missing name => .missing name

/-- A bad value goes before a missing field, the lesser key first. -/
def both : FieldResult α → FieldResult β → FieldResult (α × β)
  | .found a, .found b => .found (a, b)
  | .found _, .bad key fault => .bad key fault
  | .found _, .missing name => .missing name
  | .bad key fault, .bad key' fault' =>
    if key' < key then .bad key' fault' else .bad key fault
  | .bad key fault, _ => .bad key fault
  | .missing _, .bad key fault => .bad key fault
  | .missing name, _ => .missing name

end FieldResult

/-- Some fields of a table. -/
structure Record (α : Type) where
  read : List (String × Value) → FieldResult α

namespace Record

instance : Applicative Record where
  pure a := ⟨fun _ => .found a⟩
  seq f a := ⟨fun entries => ((f.read entries).both ((a ()).read entries)).map fun (f, a) => f a⟩

/-- A field that has to be there. -/
def required (name : String) (decode : Decoder α) : Record α where
  read entries :=
    match entries.lookup name with
    | none => .missing name
    | some v =>
      match decode v with
      | .ok a => .found a
      | .error fault => .bad name (fault.under name)

/-- A field that takes a value of its own when it is not there. -/
def withDefault (name : String) (decode : Decoder α) (absent : α) : Record α where
  read entries :=
    match entries.lookup name with
    | none => .found absent
    | some v =>
      match decode v with
      | .ok a => .found a
      | .error fault => .bad name (fault.under name)

end Record

namespace Decoder

def map (f : α → β) (decode : Decoder α) : Decoder β := fun v => (decode v).map f

/-- A value that has to pass a rule of its own. -/
def refine (decode : Decoder α) (rule : α → Except String β) : Decoder β := fun v =>
  match decode v with
  | .error fault => .error fault
  | .ok a => (rule a).mapError fun reason => .here (.refused reason)

/-- A value whose faults are all reported at its own place. -/
def whole (decode : Decoder α) : Decoder α := fun v => (decode v).mapError Fault.atWhole

def record (fields : Record α) : Decoder α
  | .table entries =>
    match fields.read entries with
    | .found a => .ok a
    | .bad _ fault => .error fault
    | .missing name => .error (.here (.missingField name))
  | v => .error (.here (.wrongType v))

def boolean : Decoder Bool
  | .boolean b => .ok b
  | v => .error (.here (.wrongType v))

def text : Decoder String
  | .text s => .ok s
  | v => .error (.here (.wrongType v))

def int64 : Decoder Int64
  | .integer i => .ok i
  | .unsigned n => .error (.here (.outOfRange (.unsigned n)))
  | v => .error (.here (.wrongType v))

def uint64 : Decoder UInt64
  | .integer i => if 0 ≤ i.toInt then .ok i.toUInt64 else .error (.here (.outOfRange (.integer i)))
  | .unsigned n => .ok n
  | v => .error (.here (.wrongType v))

def uint8 : Decoder UInt8
  | .integer i =>
    if 0 ≤ i.toInt ∧ i.toInt < 256 then .ok (.ofNat i.toInt.toNat)
    else .error (.here (.outOfRange (.integer i)))
  | .unsigned n => .error (.here (.outOfRange (.unsigned n)))
  | v => .error (.here (.wrongType v))

/-- A floating point number; an integer is converted. -/
def binary64 : Decoder Binary64
  | .float x => .ok x
  | .integer i => .ok (.ofInt i.toInt)
  | .unsigned n => .ok (.ofInt n.toNat)
  | v => .error (.here (.wrongType v))

/-- A value or null. -/
def optional (decode : Decoder α) : Decoder (Option α)
  | .null => .ok none
  | v => (decode v).map some

def sequence (decode : Decoder α) : Decoder (List α)
  | .sequence items => items.mapM decode
  | v => .error (.here (.wrongType v))

/-- A table with the same kind of value under every key. -/
def textMap (decode : Decoder α) : Decoder (TextMap α)
  | .table entries =>
    (entries.mapM fun (key, v) =>
      ((decode v).mapError (Fault.under key)).map fun a => (key, a)).map TextMap.ofList
  | v => .error (.here (.wrongType v))

/-- What a name of a fixed list stands for. -/
def listed (names : List (String × α)) (name : String) : Except Fault α :=
  match names.lookup name with
  | some a => .ok a
  | none => .error (.here (.unknownVariant name (names.map (·.1))))

/-- One of a fixed list of names, alone or as the only key of a table with nothing under it. -/
def oneOf (names : List (String × α)) : Decoder α
  | .text name => listed names name
  | .table [(name, v)] => do
    let a ← listed names name
    match v with
    | .null => return a
    | v => throw (.here (.wrongType v))
  | .table entries => .error (.here (.outOfRange (.table entries)))
  | v => .error (.here (.notAName v))

/-- The name of a variant. -/
def tag (names : List (String × α)) : Decoder α
  | .text name => listed names name
  | v => .error (.here (.wrongType v))

/--
A table whose field `type` names the variant that the table is read as. A fault of the tag has
its place under `type`, any other is one of the whole table.
-/
def tagged (variants : List (String × Decoder α)) : Decoder α
  | .table entries =>
    match entries.lookup "type" with
    | none => .error (.here (.missingField "type"))
    | some name =>
      match tag variants name with
      | .error fault => .error (fault.under "type")
      | .ok decode => whole decode (.table entries)
  | v => .error (.here (.wrongType v))

end Decoder

namespace Record

/-- A field that may be missing or null. -/
def optional (name : String) (decode : Decoder α) : Record (Option α) :=
  withDefault name decode.optional none

end Record

end ModelBinding
