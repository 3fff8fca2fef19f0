import Mathlib.Data.Fintype.EquivFin
import ModelBinding.Proofs.Environment.Roles

/-!
# The reset of a prepared module

Preparing a module does not look at its reset: the answer is the same for every reset, which is kept
as it is. So the ports of a reset need not exist.
-/
namespace ModelBinding

variable {reset : Reset}

namespace Environment

def withReset (env : Environment) (reset : Reset) : Environment := { env with reset := reset }

theorem check_withReset (env : Environment) (module : Module) :
    (env.withReset reset).check module = env.check module := rfl

theorem expand_withReset (env : Environment) (module : Module) :
    (env.withReset reset).expand module =
      ((env.expand module).1.withReset reset, (env.expand module).2) := by
  unfold expand withReset
  dsimp only
  split_ifs
  · cases module.roleType Role.externalInputs with
    | error e => rfl
    | ok inputs =>
      cases module.roleType Role.externalOutputs with
      | error e => rfl
      | ok outputs => rfl
  · rfl

end Environment

namespace Module

def withReset (module : Module) (reset : Reset) : Module :=
  { module with env := module.env.withReset reset }

/-- Setting the reset before preparing a module is the same as setting it afterwards. -/
theorem prepare_withReset (module : Module) :
    (module.withReset reset).prepare = module.prepare.map (·.withReset reset) := by
  have hcheck : (module.withReset reset).env.check (module.withReset reset) =
      module.env.check module := rfl
  have hexpand : (module.withReset reset).env.expand (module.withReset reset) =
      ((module.env.expand module).1.withReset reset, (module.env.expand module).2) :=
    Environment.expand_withReset module.env module
  unfold prepare
  rw [hcheck, hexpand]
  cases module.env.check module with
  | error e => rfl
  | ok u =>
    rcases module.env.expand module with ⟨env, result⟩
    cases result with
    | error e => rfl
    | ok u => rfl

/-- The types of a module have finitely many fields, so there is a name that is none of theirs. -/
theorem exists_stray_port (module : Module) :
    ∃ port, ∀ type ∈ module.types.types, type.definition.field? port = none := by
  obtain ⟨port, hport⟩ := Infinite.exists_notMem_finset
    (module.types.types.flatMap (·.definition.fieldNames)).toFinset
  refine ⟨port, fun type htype => ?_⟩
  rw [← Option.not_isSome_iff_eq_none, TypeDefinition.isSome_field?]
  exact fun hname => hport (List.mem_toFinset.2 (List.mem_flatMap.2 ⟨type, htype, hname⟩))

/--
Neither the check of an environment nor the preparation of a module depends on the reset, and there is
a name that is no field of the module: where any reset passes, one whose port does not exist passes.
-/
theorem prepare_ignores_reset (module : Module) :
    (∀ (env : Environment) reset, (env.withReset reset).check module = env.check module) ∧
    (∀ reset, (module.withReset reset).prepare = module.prepare.map (·.withReset reset)) ∧
    ∃ port, ∀ type ∈ module.types.types, type.definition.field? port = none :=
  ⟨fun env _ => env.check_withReset module, fun _ => module.prepare_withReset,
    module.exists_stray_port⟩

end Module

/-! ## A pendulum with a stray reset -/

namespace Pendulum

/-- The document of an environment that is reset by a port. -/
def resetDocument (firstStep : Bool) (side port : String) : Value := .table [
  ("reset", .table [("first_step", .boolean firstStep), (side, .text port)]),
  ("use_gym", .boolean false), ("use_raw", .boolean true), ("use_rng", .boolean false),
  ("use_vec", .boolean false), ("vec_parallel", .boolean false)]

def resetEnv (firstStep : Bool) (port : String) : Environment where
  useRaw := true
  useGym := false
  useRng := false
  useVec := false
  vecParallel := false
  gym := none
  reset := .make firstStep (some port) (some port)
  parameter := .empty

/-- A brake, which a pendulum does not have, passes the check on either side. -/
theorem check_stray_reset :
    Environment.decode (resetDocument true "input" "brake") = .ok (resetEnv true "brake") ∧
    (resetEnv true "brake").check (module drive watched) = .ok () ∧
    (resetEnv true "brake").reset.input = some "brake" ∧
    (module drive watched).roleType Role.externalInputs = .ok ⟨0, drive⟩ ∧
    drive.field? "brake" = none ∧
    Environment.decode (resetDocument false "output" "brake") = .ok (resetEnv false "brake") ∧
    (resetEnv false "brake").check (module drive watched) = .ok () ∧
    (resetEnv false "brake").reset.output = some "brake" ∧
    (module drive watched).roleType Role.externalOutputs = .ok ⟨1, motion⟩ ∧
    motion.field? "brake" = none :=
  ⟨rfl, rfl, rfl, rfl, rfl, rfl, rfl, rfl, rfl, rfl⟩

end Pendulum

end ModelBinding
