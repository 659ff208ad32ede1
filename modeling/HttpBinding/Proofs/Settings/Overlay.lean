import Mathlib.Data.List.Basic
import HttpBinding.Settings.Overlay
import HttpBinding.Proofs.Toml.Range
import HttpBinding.Proofs.Toml.Untagged

/-!
# HttpBinding.Proofs.Settings.Overlay

What one document does to the settings it is put over, also if it cannot be used.

A document counts only by what its section says about the three settings: `overlay` is the loop
over these (`overlay_eq_applyKeys`), and the loop asks nothing else of the section
(`applyKeys_congr`). The loop is followed setting by setting (`applyKeys_cases`). If one of them is
wrong, those before it have been applied and those behind it have not (`Failure`). A document's
integers have 64 bits with a sign, so that of the three only the number of requests can be too large
(`admits_iff_gives`).
-/

namespace HttpBinding.Settings

/-! ### Documents -/

/-- The document that a text writes, with moments in the place of the tables that stand for them. A
text that is no TOML writes none, and neither does one in which a tag does not fit. -/
def document? (text : String) : Option Toml.Table := (Toml.read? text).bind Toml.Table.untag?

/-- The section of a document is a table, if there is one. -/
def SectionIsTable (document : Toml.Table) : Prop :=
  ∀ v, document.get? sectionName = some v → ∃ table, v = .table table

/-- What the section of a document holds; nothing if there is none. -/
def sectionOf (document : Toml.Table) : Toml.Table :=
  match document.get? sectionName with
  | some (.table table) => table
  | _ => []

theorem sectionIsTable_of_none {document : Toml.Table} (h : document.get? sectionName = none) :
    SectionIsTable document := by
  simp [SectionIsTable, h]

theorem sectionIsTable_iff {document : Toml.Table} {v : Toml.Value}
    (h : document.get? sectionName = some v) :
    SectionIsTable document ↔ ∃ table, v = .table table := by
  simp [SectionIsTable, h]

theorem document?_of_untagged {text : String} {t : Toml.Table} (hread : Toml.read? text = some t)
    (h : t.Untagged) : document? text = some t := by
  rw [document?, hread, Option.bind_some, Toml.Table.untag?_of_untagged h]

theorem inRange_document? {text : String} {document : Toml.Table}
    (h : document? text = some document) : (Toml.Value.table document).InRange := by
  obtain ⟨t, hread, huntag⟩ := Option.bind_eq_some_iff.1 h
  exact Toml.Table.inRange_untag? (Toml.inRange_read? hread) huntag

theorem inRange_sectionOf {document : Toml.Table} (h : (Toml.Value.table document).InRange) :
    (Toml.Value.table (sectionOf document)).InRange := by
  unfold sectionOf
  split
  · rename_i table hsection
    exact h.get? hsection
  · exact .table (by simp)

/-- A document counts by what its section holds, unless that is no table. -/
theorem overlay_eq_applyKeys {text : String} {document : Toml.Table}
    (hdoc : document? text = some document) (htable : SectionIsTable document) (s : Settings)
    (path : String) :
    s.overlay path text = applyKeys path (sectionOf document) Key.all s := by
  rw [document?] at hdoc
  cases hsection : document.get? sectionName with
  | none =>
      simp only [overlay, hdoc, sectionOf, hsection]
      rfl
  | some v =>
      obtain ⟨table, rfl⟩ := htable v hsection
      simp only [overlay, hdoc, sectionOf, hsection]

theorem overlay_of_not_sectionIsTable {text : String} {document : Toml.Table}
    (hdoc : document? text = some document) (h : ¬SectionIsTable document) (s : Settings)
    (path : String) : s.overlay path text = (.error (.invalid path "httpbind" .notTable), s) := by
  rw [document?] at hdoc
  cases hsection : document.get? sectionName with
  | none => exact absurd (sectionIsTable_of_none hsection) h
  | some v =>
      rw [sectionIsTable_iff hsection] at h
      cases v with
      | table table => exact absurd ⟨table, rfl⟩ h
      | _ =>
          simp only [overlay, hdoc, hsection]
          rfl

/-! ### Values -/

/-- A file gives the number `n` to a setting. -/
def Gives (key : Key) (v : Toml.Value) (n : Nat) : Prop := v = .integer n ∧ n < 1 <<< key.bits

/-- What is wrong with a value that a file gives to a setting. -/
inductive Blemish (key : Key) : Toml.Value → Flaw → Prop where
  | notInteger {v : Toml.Value} (h : ∀ n, v ≠ .integer n) : Blemish key v (.notInteger v.kind)
  | negative {n : Int} (h : n < 0) : Blemish key (.integer n) (.negative n)
  | tooLarge {n : Nat} (h : 1 <<< key.bits ≤ n) : Blemish key (.integer n) (.tooLarge n)

theorem Blemish.not_gives {key : Key} {v : Toml.Value} {flaw : Flaw} (h : Blemish key v flaw)
    (n : Nat) : ¬ Gives key v n := by
  rintro ⟨rfl, hn⟩
  cases h with
  | notInteger h => exact h n rfl
  | negative h => omega
  | tooLarge h => omega

/-- A value serves, or it is said what is wrong with it. -/
theorem readValue_cases (key : Key) (v : Toml.Value) :
    (∃ n, Gives key v n ∧ readValue key v = .ok n) ∨
      ∃ flaw, Blemish key v flaw ∧ readValue key v = .error flaw := by
  cases v with
  | integer n =>
      by_cases hneg : n < 0
      · exact .inr ⟨.negative n, .negative hneg, by simp [readValue, hneg]⟩
      · obtain ⟨m, rfl⟩ := Int.eq_ofNat_of_zero_le (Int.not_lt.1 hneg)
        rcases Nat.lt_or_ge m (1 <<< key.bits) with hm | hm
        · exact .inl ⟨m, ⟨rfl, hm⟩, by simp [readValue, hm]⟩
        · refine .inr ⟨.tooLarge m, .tooLarge hm, ?_⟩
          simp [readValue, Nat.not_lt.2 hm]
  | _ => exact .inr ⟨_, .notInteger (by simp), rfl⟩

/-! ### Numbers -/

/-- A section gives the setting no value, or an integer that it can have. -/
def Admits (table : Toml.Table) (key : Key) : Prop :=
  ∀ v, table.get? key.name = some v →
    ∃ n : Int, v = .integer n ∧ 0 ≤ n ∧ (key = .maxRequests → n ≤ 4294967295)

/-- Only for the number of requests are there integers that are too large. -/
theorem lt_bits_iff {n : Nat} (h : (Toml.Value.integer n).InRange) (key : Key) :
    n < 1 <<< key.bits ↔ (key = .maxRequests → (n : Int) ≤ 4294967295) := by
  have hlt := h.lt
  have hfile : 1 <<< 63 = 9223372036854775808 := rfl
  have hlong : 1 <<< 64 = 18446744073709551616 := rfl
  have hshort : 1 <<< 32 = 4294967296 := rfl
  cases key <;> simp only [Key.bits, reduceCtorEq, false_implies, true_implies, iff_true] <;>
    omega

/-- What a section of a document admits is what it gives to the setting. -/
theorem admits_iff_gives {table : Toml.Table} (h : (Toml.Value.table table).InRange) (key : Key) :
    Admits table key ↔ ∀ v, table.get? key.name = some v → ∃ n, Gives key v n := by
  refine forall_congr' fun v => forall_congr' fun hv => ?_
  have hrange := h.get? hv
  constructor
  · rintro ⟨n, rfl, hnonneg, hn⟩
    obtain ⟨m, rfl⟩ := Int.eq_ofNat_of_zero_le hnonneg
    exact ⟨m, rfl, (lt_bits_iff hrange key).2 hn⟩
  · rintro ⟨n, rfl, hn⟩
    exact ⟨n, rfl, by omega, (lt_bits_iff hrange key).1 hn⟩

/-- The number that a section gives to a setting. -/
def number? (table : Toml.Table) (key : Key) : Option Nat :=
  match table.get? key.name with
  | some (.integer n) => some n.toNat
  | _ => none

/-! ### Sections -/

/-- Settings that a section was put over, as far as some of the keys go. -/
structure Overlaid (table : Toml.Table) (keys : List Key) (s s' : Settings) : Prop where
  /-- What the section mentions has the value given there. -/
  given : ∀ key ∈ keys, ∀ v, table.get? key.name = some v → Gives key v (s'.get key)
  /-- All else is as it was. -/
  kept : ∀ key, key ∉ keys ∨ table.get? key.name = none → s'.get key = s.get key

section
variable {table : Toml.Table} {keys : List Key} {key : Key} {s s₁ s' : Settings}

theorem Overlaid.nil : Overlaid table [] s s :=
  ⟨fun _ hkey => by simp at hkey, fun _ _ => rfl⟩

/-- One setting after the other. -/
theorem Overlaid.cons (hnew : key ∉ keys) (hfirst : Overlaid table [key] s s₁)
    (hrest : Overlaid table keys s₁ s') : Overlaid table (key :: keys) s s' where
  given := by
    intro other hother v hv
    rcases List.mem_cons.1 hother with rfl | hother
    · rw [hrest.kept other (.inl hnew)]
      exact hfirst.given other (by simp) v hv
    · exact hrest.given other hother v hv
  kept := by
    intro other hother
    rw [List.mem_cons, not_or] at hother
    rw [hrest.kept other (hother.imp_left And.right),
      hfirst.kept other (hother.imp_left fun h => by simpa using h.1)]

/-- The next setting of a section is taken over, or it is wrong and ends the work. -/
theorem applyKeys_cons_cases (path : String) (table : Toml.Table) (key : Key) (keys : List Key)
    (s : Settings) :
    (∃ s₁, Overlaid table [key] s s₁ ∧
        applyKeys path table (key :: keys) s = applyKeys path table keys s₁) ∨
      ∃ v flaw, table.get? key.name = some v ∧ Blemish key v flaw ∧
        applyKeys path table (key :: keys) s =
          (.error (.invalid path key.fullName flaw), s) := by
  cases hv : table.get? key.name with
  | none =>
      refine .inl ⟨s, ⟨fun other hother v h => ?_, fun _ _ => rfl⟩,
        applyKeys_cons_of_none hv keys s⟩
      rw [List.mem_singleton.1 hother, hv] at h
      exact absurd h (by simp)
  | some v =>
      rcases readValue_cases key v with ⟨n, hgives, hread⟩ | ⟨flaw, hflaw, hread⟩
      · refine .inl ⟨s.set key n, ⟨fun other hother w hw => ?_, fun other hother => ?_⟩, by
          simp [applyKeys, hv, hread]⟩
        · rw [List.mem_singleton.1 hother, hv, Option.some.injEq] at hw
          rw [List.mem_singleton.1 hother, get_set_self]
          exact hw ▸ hgives
        · have hne : other ≠ key := by
            rintro rfl
            simp [hv] at hother
          exact get_set_of_ne s hne n
      · exact .inr ⟨v, flaw, rfl, hflaw, by simp [applyKeys, hv, hread]⟩

/-- **The settings of a section.** They are taken over one after the other, unless one of them is
wrong; then those before it were all right and are taken over. -/
theorem applyKeys_cases (path : String) (table : Toml.Table) (hkeys : keys.Nodup) (s : Settings) :
    (∃ s', Overlaid table keys s s' ∧ applyKeys path table keys s = (.ok (), s')) ∨
      ∃ pre key post v flaw s', keys = pre ++ key :: post ∧ Overlaid table pre s s' ∧
        table.get? key.name = some v ∧ Blemish key v flaw ∧
        applyKeys path table keys s = (.error (.invalid path key.fullName flaw), s') := by
  induction keys generalizing s with
  | nil => exact .inl ⟨s, .nil, rfl⟩
  | cons key keys ih =>
      obtain ⟨hnew, hkeys⟩ := List.nodup_cons.1 hkeys
      rcases applyKeys_cons_cases path table key keys s with
        ⟨s₁, hfirst, hstep⟩ | ⟨v, flaw, hv, hflaw, hstep⟩
      · rcases ih hkeys s₁ with ⟨s', hrest, hok⟩ |
          ⟨pre, bad, post, v, flaw, s', hsplit, hpre, hv, hflaw, hfault⟩
        · exact .inl ⟨s', .cons hnew hfirst hrest, hstep.trans hok⟩
        · have hbefore : key ∉ pre := fun hmem => hnew (by simp [hsplit, hmem])
          exact .inr ⟨key :: pre, bad, post, v, flaw, s', by rw [hsplit]; rfl,
            .cons hbefore hfirst hpre, hv, hflaw, hstep.trans hfault⟩
      · exact .inr ⟨[], key, keys, v, flaw, s, rfl, .nil, hv, hflaw, hstep⟩

/-- What was put over is admitted. -/
theorem Overlaid.admits (h : Overlaid table keys s s') (hrange : (Toml.Value.table table).InRange)
    (hkey : key ∈ keys) : Admits table key :=
  (admits_iff_gives hrange key).2 fun v hv => ⟨s'.get key, h.given key hkey v hv⟩

/-- The section was put over `s` as far as these settings go, and changed nothing else. -/
def Applied (table : Toml.Table) (keys : List Key) (s s' : Settings) : Prop :=
  ∀ key, s'.get key =
    if key ∈ keys then (number? table key).getD (s.get key) else s.get key

theorem Overlaid.applied (h : Overlaid table keys s s') : Applied table keys s s' := by
  intro key
  split
  · rename_i hkey
    cases hv : table.get? key.name with
    | none =>
        rw [number?, hv, Option.getD_none]
        exact h.kept key (.inr hv)
    | some v =>
        obtain ⟨heq, -⟩ := h.given key hkey v hv
        rw [number?, hv, heq, Option.getD_some, Int.toNat_natCast]
  · rename_i hkey
    exact h.kept key (.inl hkey)

end

/-- Of a section, only what it says about the settings counts. -/
theorem applyKeys_congr (path : String) {table table' : Toml.Table}
    (h : ∀ key : Key, table.get? key.name = table'.get? key.name) (keys : List Key)
    (s : Settings) : applyKeys path table keys s = applyKeys path table' keys s := by
  induction keys generalizing s with
  | nil => rfl
  | cons key keys ih => simp only [applyKeys, h, ih]

/-! ### Outcomes -/

/-- Why a text cannot be put over the settings `s`, and what they are afterwards. -/
inductive Failure (s : Settings) (path text : String) : Fault → Settings → Prop where
  | malformed (h : document? text = none) : Failure s path text (.malformed path) s
  | notTable {document : Toml.Table} (hdoc : document? text = some document)
      (h : ¬SectionIsTable document) : Failure s path text (.invalid path "httpbind" .notTable) s
  /-- The first setting that is wrong ends the work. -/
  | setting {document : Toml.Table} {pre post : List Key} {key : Key} {v : Toml.Value}
      {flaw : Flaw} {s' : Settings} (hdoc : document? text = some document)
      (htable : SectionIsTable document)
      (horder : [.inactivityTimeout, .maxRequests, .pollingInterval] = pre ++ key :: post)
      (hpre : ∀ earlier ∈ pre, Admits (sectionOf document) earlier)
      (hv : (sectionOf document).get? key.name = some v) (hflaw : Blemish key v flaw)
      (happlied : Applied (sectionOf document) pre s s') :
      Failure s path text (.invalid path ("httpbind." ++ key.name) flaw) s'

/-- The text writes a document that serves: it has no section, or one that is a table and admits
every setting. -/
def IsFit (text : String) : Prop :=
  ∃ document, document? text = some document ∧ SectionIsTable document ∧
    ∀ key, Admits (sectionOf document) key

theorem Failure.not_isFit {s s' : Settings} {path text : String} {fault : Fault}
    (h : Failure s path text fault s') : ¬IsFit text := by
  rintro ⟨document, hdoc, htable, hadmits⟩
  cases h with
  | malformed h => simp [h] at hdoc
  | notTable hdoc' h =>
      obtain rfl := Option.some.inj (hdoc'.symm.trans hdoc)
      exact h htable
  | setting hdoc' _ _ _ hv hflaw _ =>
      obtain rfl := Option.some.inj (hdoc'.symm.trans hdoc)
      have hrange := inRange_sectionOf (inRange_document? hdoc)
      obtain ⟨n, hn⟩ := (admits_iff_gives hrange _).1 (hadmits _) _ hv
      exact hflaw.not_gives n hn

/-- **One document.** If it serves, what its section says is taken over; otherwise it is said what is
wrong with it. -/
theorem overlay_cases (s : Settings) (path text : String) :
    (∃ document s', document? text = some document ∧ IsFit text ∧
        Overlaid (sectionOf document) Key.all s s' ∧ s.overlay path text = (.ok (), s')) ∨
      ∃ fault s', Failure s path text fault s' ∧ s.overlay path text = (.error fault, s') := by
  cases hdoc : document? text with
  | none =>
      refine .inr ⟨_, s, .malformed hdoc, ?_⟩
      rw [document?] at hdoc
      simp only [overlay, hdoc]
  | some document =>
      by_cases htable : SectionIsTable document
      · have hoverlay := overlay_eq_applyKeys hdoc htable s path
        have hrange := inRange_sectionOf (inRange_document? hdoc)
        rcases applyKeys_cases path (sectionOf document) Key.nodup_all s with
          ⟨s', hover, hok⟩ | ⟨pre, key, post, v, flaw, s', horder, hpre, hv, hflaw, hfault⟩
        · have hadmits : ∀ key, Admits (sectionOf document) key :=
            fun key => hover.admits hrange key.mem_all
          exact .inl ⟨document, s', rfl, ⟨document, hdoc, htable, hadmits⟩, hover,
            hoverlay.trans hok⟩
        · have hadmits : ∀ earlier ∈ pre, Admits (sectionOf document) earlier :=
            fun _ => hpre.admits hrange
          exact .inr ⟨_, s', .setting hdoc htable horder hadmits hv hflaw hpre.applied,
            hoverlay.trans hfault⟩
      · exact .inr ⟨_, s, .notTable hdoc htable,
          overlay_of_not_sectionIsTable hdoc htable s path⟩

/-- **A document is put over settings exactly if it serves.**

* It serves if its section, should it have one, is a table in which each of the three settings is
  missing or an integer in range. Then each setting is the number given there, or what it was.
* If it does not serve, it is said why. Settings are changed only if one of them is at fault, and
  then exactly those before it, in their order.
* Two documents whose sections agree on the three settings do the same, whatever else they hold.
* Every text without a tag that marks a table as a moment writes the document that is read. -/
theorem overlay_decided_by_document (s : Settings) (path text : String) :
    ((s.overlay path text).1 = .ok () ↔ IsFit text) ∧
    (match s.overlay path text with
      | (.ok _, s') => ∃ document, document? text = some document ∧
        ∀ key, s'.get key = (number? (sectionOf document) key).getD (s.get key)
      | (.error fault, s') => Failure s path text fault s') ∧
    (∀ text' document document', document? text = some document →
      document? text' = some document' → SectionIsTable document → SectionIsTable document' →
      (∀ key : Key,
        (sectionOf document).get? key.name = (sectionOf document').get? key.name) →
      s.overlay path text = s.overlay path text') ∧
    ∀ t, Toml.read? text = some t → t.Untagged → document? text = some t := by
  refine ⟨?_, ?_, fun text' document document' hdoc hdoc' htable htable' hagree => ?_,
    fun t hread huntagged => document?_of_untagged hread huntagged⟩
  · rcases overlay_cases s path text with ⟨_, _, -, hfit, -, hok⟩ | ⟨_, _, hfailure, hfault⟩
    · exact iff_of_true (by rw [hok]) hfit
    · exact iff_of_false (by simp [hfault]) hfailure.not_isFit
  · rcases overlay_cases s path text with ⟨document, s', hdoc, -, hover, hok⟩ |
      ⟨fault, s', hfailure, hfault⟩
    · rw [hok]
      exact ⟨document, hdoc, fun key => (hover.applied key).trans (if_pos key.mem_all)⟩
    · rw [hfault]
      exact hfailure
  · rw [overlay_eq_applyKeys hdoc htable, overlay_eq_applyKeys hdoc' htable']
    exact applyKeys_congr path hagree Key.all s

end HttpBinding.Settings
