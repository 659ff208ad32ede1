import HttpBinding.Toml.Tagged

/-!
# HttpBinding.Proofs.Toml.Untagged

What is left of a document when moments are put into the place of the tables that stand for them.

Only tables with a tag are touched. A document without any such table stays as it is
(`Table.untag?_of_untagged`). In every document each key stays and its value is resolved on its own
(`Table.get?_untag?`). Integers are what they were (`Value.untag?_eq_integer_iff`), and
what is a table afterwards was one before (`Value.eq_table_of_untag?`).
-/

namespace HttpBinding.Toml

/-- No table in the value has the tag of a moment in front. -/
inductive Value.Untagged : Value → Prop where
  | word {v : Value} (harray : v.kind ≠ .array) (htable : v.kind ≠ .table) : Untagged v
  | array {items : List Value} (h : ∀ v ∈ items, Untagged v) : Untagged (.array items)
  | table {entries : List (String × Value)} (hfirst : ∀ e ∈ entries.head?, e.1 ≠ momentTag)
      (h : ∀ e ∈ entries, Untagged e.2) : Untagged (.table entries)

/-- No table below the document has the tag of a moment in front. -/
def Table.Untagged (t : Table) : Prop := ∀ e ∈ t, e.2.Untagged

theorem Table.tagged?_eq_none {entries : Table} (h : ∀ e ∈ entries.head?, e.1 ≠ momentTag) :
    Table.tagged? entries = none := by
  cases entries with
  | nil => rfl
  | cons e rest => simpa [Table.tagged?] using h e

/-! ### Nothing to resolve -/

theorem untagItems?_eq_self {items : List Value} (h : ∀ v ∈ items, v.untag? = some v) :
    untagItems? items = some items := by
  induction items with
  | nil => simp [untagItems?]
  | cons item items ih =>
      simp [untagItems?, h item (by simp), ih fun v hv => h v (by simp [hv])]

theorem Table.untag?_eq_self {entries : Table} (h : ∀ e ∈ entries, e.2.untag? = some e.2) :
    Table.untag? entries = some entries := by
  induction entries with
  | nil => simp
  | cons entry entries ih =>
      simp [Table.untag?, h entry (by simp), ih fun e he => h e (by simp [he])]

theorem Value.Untagged.untag? {v : Value} (h : v.Untagged) : v.untag? = some v := by
  induction h with
  | @word v harray htable =>
      cases v with
      | array items => exact absurd rfl harray
      | table entries => exact absurd rfl htable
      | _ => simp [Value.untag?]
  | array h ih => simp [Value.untag?, untagItems?_eq_self ih]
  | table hfirst h ih =>
      simp [Value.untag?, Table.tagged?_eq_none hfirst, Table.untag?_eq_self ih]

/-- A document without tags stays as it is. -/
theorem Table.untag?_of_untagged {t : Table} (h : t.Untagged) : Table.untag? t = some t :=
  Table.untag?_eq_self fun e he => (h e he).untag?

/-! ### Key by key -/

/-- Each key has its value resolved, and none is lost or added. -/
theorem Table.get?_untag? {t u : Table} (h : Table.untag? t = some u) (key : String) :
    (t.get? key).map Value.untag? = (u.get? key).map some := by
  induction t generalizing u with
  | nil =>
      simp only [Table.untag?_nil, Option.some.injEq] at h
      simp [← h, Table.get?]
  | cons entry t ih =>
      obtain ⟨name, v⟩ := entry
      simp only [Table.untag?, Option.bind_eq_some_iff, Option.map_eq_some_iff] at h
      obtain ⟨v', hv, rest, hrest, rfl⟩ := h
      have hlater := ih hrest
      unfold Table.get? at hlater ⊢
      rw [List.lookup_cons, List.lookup_cons]
      cases key == name with
      | true => rw [Option.map_some, Option.map_some, hv]
      | false => exact hlater

theorem Table.get?_eq_none_iff_of_untag? {t u : Table} (h : Table.untag? t = some u)
    (key : String) : u.get? key = none ↔ t.get? key = none := by
  rw [← Option.map_eq_none_iff (f := some), ← Table.get?_untag? h, Option.map_eq_none_iff]

theorem Table.get?_eq_some_iff_of_untag? {t u : Table} (h : Table.untag? t = some u)
    (key : String) (w : Value) :
    u.get? key = some w ↔ ∃ v, t.get? key = some v ∧ v.untag? = some w := by
  have hsome : u.get? key = some w ↔ (u.get? key).map some = some (some w) := by simp
  rw [hsome, ← Table.get?_untag? h, Option.map_eq_some_iff]

/-- A table stands for a table with its entries resolved, or for a moment. -/
theorem Value.untag?_table_cases {entries : Table} {v : Value}
    (h : (Value.table entries).untag? = some v) :
    (∃ t, Table.untag? entries = some t ∧ v = .table t) ∨ ∃ text, v = .datetime text := by
  rw [Value.untag?] at h
  cases htagged : Table.tagged? entries with
  | none =>
      rw [htagged] at h
      obtain ⟨t, ht, rfl⟩ := Option.map_eq_some_iff.1 h
      exact .inl ⟨t, ht, rfl⟩
  | some w =>
      rw [htagged] at h
      cases w with
      | string text =>
          simp only [taggedMoment?, Option.ite_none_right_eq_some, Option.some.injEq] at h
          exact .inr ⟨text, h.2.symm⟩
      | _ => cases h

/-- Only an integer stands for an integer, and for itself. -/
theorem Value.untag?_eq_integer_iff {v : Value} {n : Int} :
    v.untag? = some (.integer n) ↔ v = .integer n := by
  cases v with
  | table entries =>
      refine iff_of_false (fun h => ?_) (by simp)
      rcases Value.untag?_table_cases h with ⟨t, -, heq⟩ | ⟨text, heq⟩ <;> cases heq
  | _ => simp [Value.untag?]

/-- Only a table stands for a table. -/
theorem Value.eq_table_of_untag? {v : Value} {t : Table} (h : v.untag? = some (.table t)) :
    ∃ entries, v = .table entries ∧ Table.untag? entries = some t := by
  cases v with
  | table entries =>
      rcases Value.untag?_table_cases h with ⟨t', ht', heq⟩ | ⟨text, heq⟩
      · cases heq
        exact ⟨entries, rfl, ht'⟩
      · cases heq
  | _ => simp [Value.untag?] at h

end HttpBinding.Toml
