import HttpBinding.Hub.Service
import HttpBinding.Proofs.Text.Numeral

/-!
# HttpBinding.Proofs.Request

What a client asks for with the number in its `hold` attribute.

The rule goes by the sign and the size of the number (`boundFor`). It is followed for every numeral
of a number of 64 bits, whatever blanks, sign and zeros it is written with. A numeral of a number
beyond that is taken for no number at all, so that a client which asks for more than all others is
given the default (`hold_by_number`).
-/

namespace HttpBinding

namespace Request

/-- The attribute is a numeral of the integer `n`. -/
def States (r : Request) (name : String) (n : Int) : Prop :=
  ∃ text, r.get? name = some text ∧ Text.Writes text n

/-- The bound that a number asks for. -/
def boundFor (n : Int) : Option Nat := if n ≤ 0 then none else some (min n.toNat 4294967295)

/-- The number has 64 bits, with its sign. -/
def Fits (n : Int) : Prop := -9223372036854775808 ≤ n ∧ n ≤ 9223372036854775807

instance (n : Int) : Decidable (Fits n) := inferInstanceAs (Decidable (_ ∧ _))

variable {r : Request} {n : Int}

theorem signed?_hold_eq_some_iff :
    (r.get? "hold").bind (Text.signed? 64) = some n ↔ r.States "hold" n ∧ Fits n := by
  have hfits : Fits n ↔
      -((1 <<< (64 - 1) : Nat) : Int) ≤ n ∧ n < (1 <<< (64 - 1) : Nat) := by
    show -9223372036854775808 ≤ n ∧ n ≤ 9223372036854775807 ↔
      -9223372036854775808 ≤ n ∧ n < 9223372036854775808
    omega
  simp only [Option.bind_eq_some_iff, Text.signed?_eq_some_iff, States, hfits]
  constructor
  · rintro ⟨text, htext, hwrites, hfit⟩
    exact ⟨⟨text, htext, hwrites⟩, hfit⟩
  · rintro ⟨⟨text, htext, hwrites⟩, hfit⟩
    exact ⟨text, htext, hwrites, hfit⟩

theorem States.unique {name : String} {m : Int} (h : r.States name n) (h' : r.States name m) :
    n = m := by
  obtain ⟨text, htext, hwrites⟩ := h
  obtain ⟨text', htext', hwrites'⟩ := h'
  rw [htext] at htext'
  obtain rfl := Option.some.inj htext'
  exact hwrites.unique hwrites'

theorem hold_of_fits (h : r.States "hold" n) (hfits : Fits n) (default : Nat) :
    r.hold default = boundFor n := by
  have hread := signed?_hold_eq_some_iff.mpr ⟨h, hfits⟩
  simp only [hold, hread]
  rfl

/-- Without a number of 64 bits the default is left. -/
theorem hold_of_none (h : ∀ n, r.States "hold" n → ¬Fits n) (default : Nat) :
    r.hold default = some default := by
  have hread : (r.get? "hold").bind (Text.signed? 64) = none := by
    rw [Option.eq_none_iff_forall_ne_some]
    intro n hn
    obtain ⟨hstates, hfits⟩ := signed?_hold_eq_some_iff.mp hn
    exact h n hstates hfits
  simp only [hold, hread]

theorem hold_of_not_fits (h : r.States "hold" n) (hfits : ¬Fits n) (default : Nat) :
    r.hold default = some default :=
  hold_of_none (fun m hm => by rwa [hm.unique h]) default

/-- For a number of more than 64 bits, the default is what the number asks for only if it is the
largest bound. -/
theorem default_eq_boundFor_iff (hfits : ¬Fits n) (default : Nat) :
    some default = boundFor n ↔ 0 < n ∧ default = 4294967295 := by
  unfold boundFor
  split
  · simp
    omega
  · have hlarge : min n.toNat 4294967295 = 4294967295 := by
      unfold Fits at hfits
      omega
    rw [hlarge, Option.some.injEq]
    omega

theorem boundFor_of_pos (hn : 0 < n) : boundFor n = some (min n.toNat 4294967295) := by
  rw [boundFor, if_neg (by omega)]

/-- The bound that a session keeps is the one that was read, since no bound of zero is read. -/
theorem bound_termsFor (h : Hub) (secure : Bool) (hstates : r.States "hold" n) (hfits : Fits n) :
    (h.termsFor r secure).bound = boundFor n := by
  have hhold : (h.termsFor r secure).hold = boundFor n := hold_of_fits hstates hfits _
  rw [Terms.bound, hhold, boundFor]
  split
  · rfl
  · simp
    omega

/-- **The bound goes by the sign and the size of the number, as long as that has 64 bits.**

* If the attribute is a numeral of `n`, the bound that `n` asks for is given exactly if `n` has 64
  bits, or asks for the largest bound and that is the default. Otherwise the default is given.
* If it is no numeral, or missing, the default is given.
* Of two numbers of 64 bits, the larger one never gets its session a smaller bound. -/
theorem hold_by_number (r : Request) (default : Nat) :
    (∀ n, r.States "hold" n →
      r.hold default = (if Fits n then boundFor n else some default) ∧
      (r.hold default = boundFor n ↔ Fits n ∨ 0 < n ∧ default = 4294967295)) ∧
    ((∀ n, ¬r.States "hold" n) → r.hold default = some default) ∧
    ∀ (h : Hub) (secure : Bool) (r' : Request) (n m : Int), r.States "hold" n →
      r'.States "hold" m → 0 < n → n ≤ m → Fits m →
      ∃ a b, (h.termsFor r secure).bound = some a ∧ (h.termsFor r' secure).bound = some b ∧
        a ≤ b := by
  refine ⟨fun n hn => ?_, fun hnone => ?_, fun h secure r' n m hn hm hpos hle hfits => ?_⟩
  · by_cases hfits : Fits n
    · have hhold := hold_of_fits hn hfits default
      exact ⟨by rw [hhold, if_pos hfits], iff_of_true hhold (.inl hfits)⟩
    · have hhold := hold_of_not_fits hn hfits default
      refine ⟨by rw [hhold, if_neg hfits], ?_⟩
      rw [hhold, default_eq_boundFor_iff hfits, or_iff_right hfits]
  · exact hold_of_none (fun n hn => absurd hn (hnone n)) default
  · have hfits' : Fits n := by
      unfold Fits at hfits ⊢
      omega
    refine ⟨_, _, (bound_termsFor h secure hn hfits').trans (boundFor_of_pos hpos),
      (bound_termsFor h secure hm hfits).trans (boundFor_of_pos (by omega)), ?_⟩
    omega

/-- The largest number of 64 bits gets the largest bound. One more gets the default, and so does a
negative number that is as large. -/
theorem larger_number_gets_default :
    (Request.of [("hold", "9223372036854775807")]).hold 1 = some 4294967295 ∧
    (let r := Request.of [("hold", "9223372036854775808")]
     r.States "hold" 9223372036854775808 ∧ r.hold 1 = some 1 ∧
       boundFor 9223372036854775808 = some 4294967295) ∧
    (let r := Request.of [("hold", "-9223372036854775809")]
     r.States "hold" (-9223372036854775809) ∧ r.hold 1 = some 1 ∧
       boundFor (-9223372036854775809) = none) := by
  have hstates : ∀ {text : String} {n : Int}, Text.integer? (Text.trim text.toList) = some n →
      (Request.of [("hold", text)]).States "hold" n := fun h =>
    ⟨_, rfl, Text.integer?_trim_eq_some_iff.mp h⟩
  exact ⟨by decide, ⟨hstates (by decide), by decide, by decide⟩,
    ⟨hstates (by decide), by decide, by decide⟩⟩

end Request

end HttpBinding
