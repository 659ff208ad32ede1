/-!
# HttpBinding.Settings

What an operator may set about the binding.

The settings are read once, before the first session begins. `render` writes them as a settings
file; a general TOML writer (`encode?`) refuses numbers that TOML's integers cannot hold.
-/

namespace HttpBinding

/-- The settings of the binding. -/
structure Settings where
  /-- Seconds of silence after which a session is ended. -/
  inactivityTimeout : Nat := 1800
  /-- How many requests a client may have open at once. -/
  maxRequests : Nat := 2
  /-- Seconds to keep between two polls; zero allows any. -/
  pollingInterval : Nat := 5
deriving DecidableEq, Repr, Inhabited

namespace Settings

/-- The three settings. -/
inductive Key where
  | inactivityTimeout
  | maxRequests
  | pollingInterval
deriving DecidableEq, Repr

namespace Key

/-- The settings in the order in which they are read and written. -/
def all : List Key := [.inactivityTimeout, .maxRequests, .pollingInterval]

theorem mem_all (key : Key) : key ∈ all := by cases key <;> decide

theorem nodup_all : all.Nodup := by decide

/-- The name in a settings file. -/
def name : Key → String
  | .inactivityTimeout => "inactivity_timeout"
  | .maxRequests => "max_requests"
  | .pollingInterval => "polling_interval"

/-- How many bits a value may have. -/
def bits : Key → Nat
  | .inactivityTimeout | .pollingInterval => 64
  | .maxRequests => 32

end Key

/-- The section of a settings file that holds the settings. -/
def sectionName : String := "httpbind"

/-- The value of a setting. -/
def get (s : Settings) : Key → Nat
  | .inactivityTimeout => s.inactivityTimeout
  | .maxRequests => s.maxRequests
  | .pollingInterval => s.pollingInterval

/-- The settings with one of them changed. -/
def set (s : Settings) (key : Key) (n : Nat) : Settings :=
  match key with
  | .inactivityTimeout => { s with inactivityTimeout := n }
  | .maxRequests => { s with maxRequests := n }
  | .pollingInterval => { s with pollingInterval := n }

/-- The time of silence allowed, in milliseconds. -/
def inactivityMillis (s : Settings) : Nat := s.inactivityTimeout * 1000

/-- The time to keep between two polls, in milliseconds. -/
def pollingMillis (s : Settings) : Nat := s.pollingInterval * 1000

/-! ### Writing -/

/-- The line of one setting. -/
def renderKey (s : Settings) (key : Key) : String :=
  key.name ++ " = " ++ toString (s.get key) ++ "\n"

/-- The section with all settings. -/
def renderSection (s : Settings) : String :=
  "[" ++ sectionName ++ "]\n" ++ s.renderKey .inactivityTimeout ++ s.renderKey .maxRequests ++
    s.renderKey .pollingInterval

/-- The settings as a settings file. -/
def render (s : Settings) : String := "# bosh configuration\n\n" ++ s.renderSection

/-- All settings fit into TOML's integers of 64 bits with a sign. -/
def isEncodable (s : Settings) : Bool := Key.all.all fun key => s.get key < 1 <<< 63

/-- The settings as TOML, if it can hold them. -/
def encode? (s : Settings) : Option String :=
  if s.isEncodable then some s.renderSection else none

/-! ### Views -/

@[simp] theorem get_set_self (s : Settings) (key : Key) (n : Nat) : (s.set key n).get key = n := by
  cases key <;> rfl

theorem get_set_of_ne (s : Settings) {key other : Key} (h : other ≠ key) (n : Nat) :
    (s.set key n).get other = s.get other := by
  cases key <;> cases other <;> first | rfl | exact absurd rfl h

end Settings

end HttpBinding
