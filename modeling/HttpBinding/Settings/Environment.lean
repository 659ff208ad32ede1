import HttpBinding.Settings
import HttpBinding.Text.Numeral

/-!
# HttpBinding.Settings.Environment

Settings from environment variables.

Each setting has a variable. A variable counts if its value is an unsigned numeral in the range
of the setting; otherwise it is passed over and not recorded.
-/

namespace HttpBinding.Settings

/-- The environment variable of a setting. -/
def Key.variableName : Key → String
  | .inactivityTimeout => "BOSH_INACTIVITY_TIMEOUT"
  | .maxRequests => "BOSH_MAX_REQUESTS"
  | .pollingInterval => "BOSH_POLLING_INTERVAL"

/-- An environment: the value of each variable that is set. -/
abbrev Environment := String → Option String

/-- The value that an environment gives to a setting. -/
def Environment.value? (env : Environment) (key : Key) : Option Nat :=
  (env key.variableName).bind (Text.unsigned? key.bits)

/-- The settings with what the environment gives put over them. -/
def override (s : Settings) (env : Environment) : Settings :=
  Key.all.foldl (fun s key => ((env.value? key).map (s.set key)).getD s) s

/-- The variables that take effect, in the order of the settings. -/
def overrides (env : Environment) : List String :=
  (Key.all.filter fun key => (env.value? key).isSome).map Key.variableName

/-- A setting is what the environment says, or else what it was. -/
@[simp] theorem get_override (s : Settings) (env : Environment) (key : Key) :
    (s.override env).get key = (env.value? key).getD (s.get key) := by
  simp only [override, Key.all, List.foldl_cons, List.foldl_nil]
  cases key <;> cases env.value? .inactivityTimeout <;> cases env.value? .maxRequests <;>
    cases env.value? .pollingInterval <;> rfl

end HttpBinding.Settings
