import ModelBinding.Proofs.Environment.Roles

/-!
# What becomes of an environment

An environment starts in a document that was accepted. It is filled in, prepared with a module, and
written and read again in either notation, alone or in a context, in any order. None of these steps
leaves the environments that reading gives.
-/
namespace ModelBinding

namespace Environment

/-- The environments that stand in a document that was accepted. -/
inductive Accepted : Environment → Prop where
  | toml {text : String} {env : Environment} (h : ofToml text = .ok env) : Accepted env
  | json {text : String} {env : Environment} (h : Json.readText decode text = .ok env) : Accepted env
  | context {text : String} {context : Context} (h : Context.ofJson text = .ok context) :
    Accepted context.module.env

/-- The text of an environment alone. -/
def toJson (env : Environment) : String := Json.compactText env.toValue

/-- What can happen to an environment. Filling it in can stop halfway and leave what was filled in. -/
inductive Step : Environment → Environment → Prop where
  | expand (env : Environment) (module : Module) : Step env (env.expand module).1
  | prepare {module prepared : Module} (h : module.prepare = .ok prepared) :
    Step module.env prepared.env
  | toml {env reread : Environment} {text : String} (hwrite : env.toToml = .ok text)
    (hread : ofToml text = .ok reread) : Step env reread
  | json {env reread : Environment} (hread : Json.readText decode env.toJson = .ok reread) :
    Step env reread
  | context {context reread : Context} {mode : DumpMode}
    (hread : Context.ofJson (context.dump mode) = .ok reread) :
    Step context.module.env reread.module.env
  | refresh {context reread : Context} (hread : context.refresh = .ok reread) :
    Step context.module.env reread.module.env

/-- What can become of an environment that was accepted. -/
def Reachable (env : Environment) : Prop :=
  ∃ start, Accepted start ∧ Relation.ReflTransGen Step start env

variable {env next : Environment} {text : String}

theorem valid_of_readText (h : Json.readText decode text = .ok env) : env.Valid := by
  obtain ⟨_, -, hdecode⟩ := bind_eq_ok.1 h
  exact (of_decode (mapError_eq_ok.1 hdecode)).1

theorem valid_of_refresh {context reread : Context} (h : context.refresh = .ok reread) :
    reread.module.env.Valid := by
  obtain ⟨_, -, _, -, hmodule⟩ := Context.module_of_decode (mapError_eq_ok.1 h)
  obtain ⟨_, -, -, -, _, -, henv⟩ := Module.parts_of_decode hmodule
  exact (of_decode henv).1

theorem Accepted.valid (h : Accepted env) : env.Valid := by
  cases h with
  | toml h => exact valid_of_ofToml h
  | json h => exact valid_of_readText h
  | context h => exact (Context.of_ofJson h).1.env

/-- Filling in and preparing keep what reading establishes, and every trip ends with a reading. -/
theorem Step.valid (h : Step env next) (hvalid : env.Valid) : next.Valid := by
  cases h with
  | expand _ module => exact (expand_keeps module hvalid).1
  | prepare h =>
    obtain ⟨-, -, rfl⟩ := Module.prepare_eq_ok.1 h
    exact (expand_keeps _ hvalid).1
  | toml hwrite hread => exact valid_of_ofToml hread
  | json hread => exact valid_of_readText hread
  | context hread => exact (Context.of_ofJson hread).1.env
  | refresh hread => exact valid_of_refresh hread

theorem Reachable.valid (h : env.Reachable) : env.Valid := by
  obtain ⟨start, haccepted, hsteps⟩ := h
  induction hsteps with
  | refl => exact haccepted.valid
  | tail _ hstep ih => exact hstep.valid ih

theorem Reachable.step (h : env.Reachable) (hstep : Step env next) : next.Reachable := by
  obtain ⟨start, haccepted, hsteps⟩ := h
  exact ⟨start, haccepted, hsteps.tail hstep⟩

end Environment

namespace Scalar

/-- What is signed holds every integer that fits, and an infinity has a form of its own. -/
theorem canonical_iff {s : Scalar} : s.Canonical ↔
    (∀ n, s = .uint n → Int64.maxValue.toInt < n.toNat) ∧ ∀ negative, s ≠ .float (.infinite negative) := by
  have hmax : Int64.maxValue.toInt = 0x7fffffffffffffff := by decide
  cases s with
  | int i => simp [Canonical]
  | uint n =>
    simp only [Canonical, hmax, uint.injEq, forall_eq', ne_eq, reduceCtorEq, not_false_eq_true,
      implies_true, and_true]
    omega
  | float x => simp [Canonical]
  | infinity negative => simp [Canonical]

end Scalar

namespace Environment

variable {env : Environment}

/--
Whatever becomes of an environment, the gym view is there exactly if it is wanted, the reset has only
the port that matters, no bound of the reward is an integer and every scalar has the form that reading
gives it.
-/
theorem reachable_wellFormed (h : env.Reachable) :
    (env.gym.isSome = true ↔ env.useGym = true) ∧
    (env.reset.firstStep = true → env.reset.output = none) ∧
    (env.reset.firstStep = false → env.reset.input = none) ∧
    (∀ gym, env.gym = some gym →
      gym.rewardRange.low.isInteger = false ∧ gym.rewardRange.high.isInteger = false) ∧
    ∀ s ∈ env.scalars, (∀ n, s = .uint n → Int64.maxValue.toInt < n.toNat) ∧
      ∀ negative, s ≠ .float (.infinite negative) := by
  have hvalid := h.valid
  obtain ⟨houtput, hinput⟩ := env.reset.ports
  refine ⟨?gym, houtput, hinput, hvalid.range, fun s hs => ?scalar⟩
  case gym => rw [hvalid.gym]
  case scalar => exact Scalar.canonical_iff.1 (hvalid.scalars s hs)

end Environment

namespace Pendulum

/-- The environment in which the energy is observed, accepted and prepared. -/
theorem reachable_watched : (module drive (watched.withKeys watchedKeys)).env.Reachable := by
  have hlegible : (document .null (.text "energy")).Legible Json.maxDepth := by
    simp only [document, Value.Legible, Value.LegibleEntries, Json.maxDepth]
    decide
  have hread : Json.readText Environment.decode (Json.spreadText (document .null (.text "energy"))) =
      .ok (module drive watched).env := by
    rw [Json.readText, Json.parse, Json.parse?_spreadText hlegible]
    rfl
  exact ⟨_, .json hread, .single (.prepare prepare_watched)⟩

theorem watched_wellFormed :
    (module drive (watched.withKeys watchedKeys)).env.Reachable ∧
    (∀ s ∈ (module drive (watched.withKeys watchedKeys)).env.scalars,
      (∀ n, s = .uint n → Int64.maxValue.toInt < n.toNat) ∧
        ∀ negative, s ≠ .float (.infinite negative)) := by
  obtain ⟨-, -, -, -, hscalars⟩ := Environment.reachable_wellFormed reachable_watched
  exact ⟨reachable_watched, hscalars⟩

end Pendulum

end ModelBinding
