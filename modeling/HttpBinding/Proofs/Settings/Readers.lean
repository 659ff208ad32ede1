import HttpBinding.Proofs.Settings.Overlay
import HttpBinding.Settings.Decode

/-!
# HttpBinding.Proofs.Settings.Readers

How far the two readers of settings files agree.

One reader makes settings of a whole document (`decode?`), the other puts a document over settings
and is asked here with the defaults (`overlay`). Over a table they are the same loop
(`applyKeys_eq_ok_iff`), and it makes no difference that one of them resolves moments first
(`decodeKeys?_untag?`). So they agree on every document whose section, should it have one, is a
table. They differ where there is a section of another kind: the one reader asks for a table, while
the other also takes an array, value by value, and a moment. And they differ over the tag of a
moment, which is a key like any other for the one reader and not for the other.
-/

namespace HttpBinding.Settings

/-! ### One table -/

theorem decodeValue?_eq_some_iff {key : Key} {v : Toml.Value} {n : Nat} :
    decodeValue? key v = some n ↔ Gives key v n := by
  cases v with
  | integer m =>
      simp only [decodeValue?, Option.ite_none_right_eq_some, Option.some.injEq, Gives,
        Toml.Value.integer.injEq]
      constructor
      · rintro ⟨⟨hnonneg, hlt⟩, rfl⟩
        exact ⟨(Int.toNat_of_nonneg hnonneg).symm, hlt⟩
      · rintro ⟨rfl, hlt⟩
        exact ⟨⟨by omega, by simpa using hlt⟩, by simp⟩
  | _ => simp [decodeValue?, Gives]

/-- Both readers take the same settings from a table. -/
theorem applyKeys_eq_ok_iff {path : String} {table : Toml.Table} {keys : List Key}
    {s s' : Settings} :
    applyKeys path table keys s = (.ok (), s') ↔
      decodeKeys? (fun key => table.get? key.name) keys s = some s' := by
  induction keys generalizing s with
  | nil => simp [decodeKeys?]
  | cons key keys ih =>
      cases hv : table.get? key.name with
      | none => rw [applyKeys_cons_of_none hv, ih, decodeKeys?, hv]
      | some v =>
          rcases readValue_cases key v with ⟨n, hgives, hread⟩ | ⟨flaw, hflaw, hread⟩
          · simp only [applyKeys, decodeKeys?, hv, hread, decodeValue?_eq_some_iff.2 hgives,
              Option.bind_some, ih]
          · have hnone : decodeValue? key v = none :=
              Option.eq_none_iff_forall_ne_some.2 fun n hn =>
                hflaw.not_gives n (decodeValue?_eq_some_iff.1 hn)
            simp [applyKeys, decodeKeys?, hv, hread, hnone]

/-! ### Moments -/

/-- For a setting it makes no difference whether moments are resolved first. -/
theorem decodeValue?_untag? {key : Key} {v v' : Toml.Value} (h : v.untag? = some v') :
    decodeValue? key v' = decodeValue? key v := by
  have hinteger (n : Int) : v' = .integer n ↔ v = .integer n := by
    rw [← Toml.Value.untag?_eq_integer_iff (v := v), h, Option.some.injEq]
  refine Option.ext fun n => ?_
  simp only [decodeValue?_eq_some_iff, Gives, hinteger]

theorem decodeKeys?_untag? {t u : Toml.Table} (h : Toml.Table.untag? t = some u)
    (keys : List Key) (s : Settings) :
    decodeKeys? (fun key => u.get? key.name) keys s =
      decodeKeys? (fun key => t.get? key.name) keys s := by
  induction keys generalizing s with
  | nil => rfl
  | cons key keys ih =>
      cases hu : u.get? key.name with
      | none =>
          have ht := (Toml.Table.get?_eq_none_iff_of_untag? h key.name).1 hu
          simp only [decodeKeys?, ht, hu, ih]
      | some w =>
          obtain ⟨v, ht, hv⟩ := (Toml.Table.get?_eq_some_iff_of_untag? h key.name w).1 hu
          simp only [decodeKeys?, ht, hu, decodeValue?_untag? hv, ih]

/-! ### Documents -/

/-- The text writes a document for both readers, and its section is a table, if it has one. -/
def IsLaidOut (text : String) : Prop :=
  ∃ document, document? text = some document ∧ SectionIsTable document

/-- Over a section that is a table, or missing, both readers go the same way. -/
theorem decode?_eq_decodeKeys? {text : String} {document : Toml.Table}
    (hdoc : document? text = some document) (htable : SectionIsTable document) :
    decode? text = decodeKeys? (fun key => (sectionOf document).get? key.name) Key.all {} := by
  obtain ⟨t, hread, huntag⟩ := Option.bind_eq_some_iff.1 hdoc
  rw [decode?, hread, Option.bind_some]
  cases hsection : document.get? sectionName with
  | none =>
      have ht := (Toml.Table.get?_eq_none_iff_of_untag? huntag sectionName).1 hsection
      simp only [ht, sectionOf, hsection]
      rfl
  | some w =>
      obtain ⟨table, rfl⟩ := htable w hsection
      obtain ⟨v, ht, hv⟩ := (Toml.Table.get?_eq_some_iff_of_untag? huntag sectionName _).1 hsection
      obtain ⟨entries, rfl, hentries⟩ := Toml.Value.eq_table_of_untag? hv
      simp only [ht, sectionOf, hsection, decodeSection?]
      exact (decodeKeys?_untag? hentries Key.all {}).symm

theorem overlay_eq_ok_iff {path text : String} {s : Settings} :
    overlay {} path text = (.ok (), s) ↔ decode? text = some s ∧ IsLaidOut text := by
  constructor
  · intro h
    rcases overlay_cases {} path text with
      ⟨_, _, -, ⟨document, hdoc, htable, -⟩, -, -⟩ | ⟨_, _, -, hfault⟩
    · rw [overlay_eq_applyKeys hdoc htable, applyKeys_eq_ok_iff] at h
      exact ⟨(decode?_eq_decodeKeys? hdoc htable).trans h, document, hdoc, htable⟩
    · rw [hfault] at h
      cases h
  · rintro ⟨hdecode, document, hdoc, htable⟩
    rw [overlay_eq_applyKeys hdoc htable, applyKeys_eq_ok_iff]
    exact (decode?_eq_decodeKeys? hdoc htable).symm.trans hdecode

/-- A section that one reader takes and that is no table for the other is an array or a moment. -/
theorem kind_of_decodeSection? {v w : Toml.Value} {s : Settings} (h : decodeSection? v = some s)
    (huntag : v.untag? = some w) (hnot : ¬∃ table, w = .table table) :
    w.kind = .array ∨ w.kind = .datetime := by
  cases v with
  | table entries =>
      rcases Toml.Value.untag?_table_cases huntag with ⟨t, -, rfl⟩ | ⟨text, rfl⟩
      · exact absurd ⟨t, rfl⟩ hnot
      · exact .inr rfl
  | array items =>
      obtain ⟨vs, -, rfl⟩ : ∃ vs, Toml.untagItems? items = some vs ∧ .array vs = w := by
        simpa [Toml.Value.untag?, Option.map_eq_some_iff] using huntag
      exact .inl rfl
  | datetime text =>
      obtain rfl : .datetime text = w := by simpa [Toml.Value.untag?] using huntag
      exact .inr rfl
  | _ => cases h

/-- What one reader takes and the other does not, it refuses for one of two reasons. -/
theorem overlay_of_decode? {text : String} {s : Settings} (h : decode? text = some s)
    (hnot : ¬IsLaidOut text) (path : String) :
    (∃ t, Toml.read? text = some t ∧ Toml.Table.untag? t = none ∧
      overlay {} path text = (.error (.malformed path), {})) ∨
    ∃ document v, document? text = some document ∧ document.get? sectionName = some v ∧
      (v.kind = .array ∨ v.kind = .datetime) ∧
      overlay {} path text = (.error (.invalid path "httpbind" .notTable), {}) := by
  obtain ⟨t, hread, hdecode⟩ := Option.bind_eq_some_iff.1 h
  cases huntag : Toml.Table.untag? t with
  | none => exact .inl ⟨t, hread, huntag, by simp only [overlay, hread, Option.bind_some, huntag]⟩
  | some document =>
      have hdoc : document? text = some document := by
        rw [document?, hread, Option.bind_some, huntag]
      have htable : ¬SectionIsTable document := fun htable => hnot ⟨document, hdoc, htable⟩
      cases hsection : document.get? sectionName with
      | none => exact absurd (sectionIsTable_of_none hsection) htable
      | some w =>
          obtain ⟨v, ht, hv⟩ :=
            (Toml.Table.get?_eq_some_iff_of_untag? huntag sectionName w).1 hsection
          have hkind : w.kind = .array ∨ w.kind = .datetime :=
            kind_of_decodeSection? (by simpa only [ht] using hdecode) hv
              ((sectionIsTable_iff hsection).not.1 htable)
          exact .inr ⟨document, w, hdoc, hsection, hkind,
            overlay_of_not_sectionIsTable hdoc htable {} path⟩

/-- **Both readers agree on every document whose section is a table.**

* One reader takes a text for some settings exactly if the other one does and the text has no
  section, or one that is a table, once moments have been resolved.
* So they agree on every text without tags in which the section is missing or a table, and on every
  text that is no TOML.
* Whatever else the second reader takes, the first refuses: as malformed if a tag does not fit, and
  otherwise since the section is an array or a moment. -/
theorem readers_agree_on_tables (path text : String) :
    (∀ s, overlay {} path text = (.ok (), s) ↔ decode? text = some s ∧ IsLaidOut text) ∧
    ((∀ t, Toml.read? text = some t → t.Untagged ∧ SectionIsTable t) →
      ∀ s, overlay {} path text = (.ok (), s) ↔ decode? text = some s) ∧
    ∀ s, decode? text = some s → ¬IsLaidOut text →
      (∃ t, Toml.read? text = some t ∧ Toml.Table.untag? t = none ∧
        overlay {} path text = (.error (.malformed path), {})) ∨
      ∃ document v, document? text = some document ∧ document.get? sectionName = some v ∧
        (v.kind = .array ∨ v.kind = .datetime) ∧
        overlay {} path text = (.error (.invalid path "httpbind" .notTable), {}) := by
  refine ⟨fun s => overlay_eq_ok_iff, fun hplain s => ?_,
    fun s hdecode hnot => overlay_of_decode? hdecode hnot path⟩
  rw [overlay_eq_ok_iff]
  refine and_iff_left_of_imp fun hdecode => ?_
  obtain ⟨t, hread, -⟩ := Option.bind_eq_some_iff.1 hdecode
  obtain ⟨huntagged, htable⟩ := hplain t hread
  exact ⟨t, document?_of_untagged hread huntagged, htable⟩

/-- An array in the place of the section is taken by one reader only. -/
theorem empty_array_divides_readers :
    ¬∀ (path text : String) (s : Settings),
      overlay {} path text = (.ok (), s) ↔ decode? text = some s := by
  intro h
  have hdecode : decode? "httpbind = []\n" = some {} := by decide +kernel
  have hoverlay : overlay {} "bosh.toml" "httpbind = []\n" =
      (.error (.invalid "bosh.toml" "httpbind" .notTable), {}) := by decide +kernel
  rw [← h "bosh.toml", hoverlay] at hdecode
  cases hdecode

end HttpBinding.Settings
