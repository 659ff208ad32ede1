import HttpBinding.Proofs.Settings.Layers
import HttpBinding.Proofs.Text.Numeral
import HttpBinding.Request

/-!
# HttpBinding.Proofs.Unsigned

The numbers that requests and the environment give, as long as they must not be negative.

The request number, the counts and durations in attributes, and the variables of the settings are
all read by one reader, which differs only in its number of bits. So it is said once what it takes
(`Yields`, `bind_unsigned?_eq_some_iff`), and then what follows from it where each number is used:
a request has no number, an attribute has its default, and a variable counts as not set, unless the
text is a numeral of a number in range (`numerals_in_range_are_read`).
-/

namespace HttpBinding

namespace Text

/-- There is a text, and it is a numeral of `n`, which has at most so many bits. -/
def Yields (bits : Nat) (text : Option String) (n : Nat) : Prop :=
  ∃ v, text = some v ∧ Counts v n ∧ n < 1 <<< bits

theorem bind_unsigned?_eq_some_iff {bits : Nat} {text : Option String} {n : Nat} :
    text.bind (unsigned? bits) = some n ↔ Yields bits text n := by
  simp only [Option.bind_eq_some_iff, unsigned?_eq_some_iff, Yields]

theorem bind_unsigned?_eq_none_iff {bits : Nat} {text : Option String} :
    text.bind (unsigned? bits) = none ↔ ∀ n, ¬Yields bits text n := by
  simp only [Option.eq_none_iff_forall_ne_some, ne_eq, bind_unsigned?_eq_some_iff]

/-- Printed numbers in range are read back. -/
theorem yields_printed {bits n : Nat} (hn : n < 1 <<< bits) {before after sign : String}
    (hsign : sign = "" ∨ sign = "+")
    (hblank : ∀ c ∈ before.toList ++ after.toList, isBlank c = true) (zeros : Nat) :
    Yields bits
      (some (before ++ sign ++ String.ofList (List.replicate zeros '0') ++ toString n ++ after))
      n :=
  ⟨_, rfl, counts_printed hsign hblank zeros n, hn⟩

end Text

open Text (Counts Yields)

/-! ### Attributes -/

namespace Request

theorem rid_eq_some_iff {r : Request} {n : Nat} : r.rid = some n ↔ Yields 64 (r.get? "rid") n :=
  Text.bind_unsigned?_eq_some_iff

theorem count_of_yields {r : Request} {name : String} {n : Nat}
    (h : Yields 32 (r.get? name) n) (default : Nat) : r.count name default = n := by
  rw [count, Text.bind_unsigned?_eq_some_iff.mpr h, Option.getD_some]

theorem count_of_not_yields {r : Request} {name : String}
    (h : ∀ n, ¬Yields 32 (r.get? name) n) (default : Nat) : r.count name default = default := by
  rw [count, Text.bind_unsigned?_eq_none_iff.mpr h, Option.getD_none]

/-- An attribute has a number whatever the default only if it has it by itself. -/
theorem count_eq_iff {r : Request} {name : String} {n : Nat} :
    (∀ default, r.count name default = n) ↔ Yields 32 (r.get? name) n := by
  refine ⟨fun hcount => ?_, count_of_yields⟩
  by_contra hnot
  have hnone : ∀ m, ¬Yields 32 (r.get? name) m := by
    intro m hm
    have hmn : m = n := (count_of_yields hm 0).symm.trans (hcount 0)
    exact hnot (hmn ▸ hm)
  have hdefault : n + 1 = n := (count_of_not_yields hnone (n + 1)).symm.trans (hcount (n + 1))
  omega

end Request

/-! ### Variables -/

namespace Settings

/-- The variables of the settings, each with the number of bits that its numbers may have. -/
def allVariables : List (Key × String × Nat) :=
  [(.inactivityTimeout, "BOSH_INACTIVITY_TIMEOUT", 64), (.maxRequests, "BOSH_MAX_REQUESTS", 32),
    (.pollingInterval, "BOSH_POLLING_INTERVAL", 64)]

theorem mem_allVariables {key : Key} {name : String} {bits : Nat} :
    (key, name, bits) ∈ allVariables ↔ name = key.variableName ∧ bits = key.bits := by
  cases key <;> simp [allVariables, Key.variableName, Key.bits]

theorem variableName_injective {key other : Key} (h : key.variableName = other.variableName) :
    key = other := by
  cases key <;> cases other <;> first | rfl | exact absurd h (by decide)

theorem value?_eq_some_iff {env : Environment} {key : Key} {n : Nat} :
    env.value? key = some n ↔ Yields key.bits (env key.variableName) n :=
  Text.bind_unsigned?_eq_some_iff

theorem variableName_mem_overrides_iff {env : Environment} {key : Key} :
    key.variableName ∈ overrides env ↔ ∃ n, env.value? key = some n := by
  rw [mem_overrides]
  constructor
  · rintro ⟨other, n, hname, hn⟩
    exact ⟨n, variableName_injective hname ▸ hn⟩
  · rintro ⟨n, hn⟩
    exact ⟨key, n, rfl, hn⟩

/-- A variable with a number in range is applied and recorded. -/
theorem override_of_yields {env : Environment} {key : Key} {n : Nat}
    (h : Yields key.bits (env key.variableName) n) (s : Settings) :
    (s.override env).get key = n ∧ key.variableName ∈ overrides env := by
  have hvalue := value?_eq_some_iff.mpr h
  exact ⟨by rw [get_override, hvalue, Option.getD_some],
    variableName_mem_overrides_iff.mpr ⟨n, hvalue⟩⟩

/-- Any other variable is neither applied nor recorded. -/
theorem override_of_not_yields {env : Environment} {key : Key}
    (h : ∀ n, ¬Yields key.bits (env key.variableName) n) (s : Settings) :
    (s.override env).get key = s.get key ∧ key.variableName ∉ overrides env := by
  have hvalue : env.value? key = none := Text.bind_unsigned?_eq_none_iff.mpr h
  refine ⟨by rw [get_override, hvalue, Option.getD_none], fun hmem => ?_⟩
  obtain ⟨n, hn⟩ := variableName_mem_overrides_iff.mp hmem
  rw [hvalue] at hn
  cases hn

end Settings

/-! ### All of them -/

/-- **Exactly the numerals in range are read, and everywhere the same ones.** A numeral is a run of
ASCII digits, possibly after a `+`, with blanks around it, and it is one of one number only.

* A request has the number that its attribute yields, with 64 bits, and otherwise none.
* An attribute has the number that it yields, with 32 bits, and otherwise the default.
* A variable that yields a number, with the bits of its setting, is applied and recorded; any other
  one is neither.
* A number in range that is printed, with any zeros in front and any blanks around it, is what the
  text yields. -/
theorem numerals_in_range_are_read :
    (∀ text n m, Counts text n → Counts text m → n = m) ∧
    (∀ (r : Request) n, r.rid = some n ↔ Yields 64 (r.get? "rid") n) ∧
    (∀ (r : Request) name,
      (∀ n, (∀ default, r.count name default = n) ↔ Yields 32 (r.get? name) n) ∧
      ((∀ n, ¬Yields 32 (r.get? name) n) → ∀ default, r.count name default = default)) ∧
    (∀ (s : Settings) (env : Settings.Environment) key name bits,
      (key, name, bits) ∈ Settings.allVariables →
      (∀ n, Yields bits (env name) n →
        (s.override env).get key = n ∧ name ∈ Settings.overrides env) ∧
      ((∀ n, ¬Yields bits (env name) n) →
        (s.override env).get key = s.get key ∧ name ∉ Settings.overrides env)) ∧
    ∀ bits n zeros before after sign, n < 1 <<< bits → sign = "" ∨ sign = "+" →
      (∀ c ∈ before.toList ++ after.toList, Text.isBlank c = true) →
      Yields bits
        (some (before ++ sign ++ String.ofList (List.replicate zeros '0') ++ toString n ++ after))
        n := by
  refine ⟨fun _ _ _ h h' => h.unique h', fun _ _ => Request.rid_eq_some_iff,
    fun _ _ => ⟨fun _ => Request.count_eq_iff, Request.count_of_not_yields⟩,
    fun s env key name bits hmem => ?_,
    fun _ _ zeros _ _ _ hn hsign hblank => Text.yields_printed hn hsign hblank zeros⟩
  obtain ⟨rfl, rfl⟩ := Settings.mem_allVariables.mp hmem
  exact ⟨fun _ h => Settings.override_of_yields h s,
    fun h => Settings.override_of_not_yields h s⟩

/-- Zero must not have a minus either, and zeros in front do not make a number larger. -/
example :
    (Request.of [("rid", "-0")]).rid = none ∧
    (Request.of [("rid", "\u00A0+0018446744073709551615 ")]).rid = some 18446744073709551615 ∧
    (Request.of [("rid", "18446744073709551616")]).rid = none := by
  decide

end HttpBinding
