import HttpBinding.Toml.Document
import HttpBinding.Toml.Tagged

/-!
# HttpBinding.Proofs.Toml.Range

The integers of a document have 64 bits, wherever they stand in it.

A number is only checked where its word is read (`int64?`). From there it goes into arrays and
inline tables, into the entries of a document that is being read, and into the tables that these
stand for at the end; moments may be put into the place of tables after that. `InRange` says that
every integer in a value, or under a node, is in range, and each of these steps keeps it.
-/

namespace HttpBinding.Toml

/-! ### Values and nodes -/

/-- Every integer in the value has 64 bits. -/
inductive Value.InRange : Value → Prop where
  | string (text : String) : InRange (.string text)
  | integer {n : Int} (hmin : Int64.minValue.toInt ≤ n) (hmax : n ≤ Int64.maxValue.toInt) :
      InRange (.integer n)
  | float (text : String) : InRange (.float text)
  | boolean (b : Bool) : InRange (.boolean b)
  | datetime (text : String) : InRange (.datetime text)
  | array {items : List Value} (h : ∀ v ∈ items, InRange v) : InRange (.array items)
  | table {entries : List (String × Value)} (h : ∀ e ∈ entries, InRange e.2) :
      InRange (.table entries)

/-- Every integer under the node has 64 bits. -/
inductive Node.InRange : Node → Prop where
  | leaf {v : Value} (h : v.InRange) : InRange (.leaf v)
  | table {origin : Origin} {entries : List (String × Node)} (h : ∀ e ∈ entries, InRange e.2) :
      InRange (.table origin entries)
  | tables {last : List (String × Node)} {earlier : List (List (String × Node))}
      (hlast : ∀ e ∈ last, InRange e.2)
      (hearlier : ∀ entries ∈ earlier, ∀ e ∈ entries, InRange e.2) :
      InRange (.tables last earlier)

/-- Every integer in the entries has 64 bits. -/
def Entries.InRange (entries : Entries) : Prop := ∀ e ∈ entries, e.2.InRange

/-- What stands in a table in range is in range. -/
theorem Value.InRange.get? {t : Table} (h : (Value.table t).InRange) {key : String} {v : Value}
    (hv : t.get? key = some v) : v.InRange := by
  cases h with
  | table h =>
      obtain ⟨before, after, rfl, -⟩ := List.lookup_eq_some_iff.1 hv
      exact h (key, v) (by simp)

theorem Value.InRange.lt {n : Nat} (h : (Value.integer n).InRange) : n < 1 <<< 63 := by
  cases h with
  | integer _ hmax =>
      have hend : Int64.maxValue.toInt = 9223372036854775807 := rfl
      have hshift : 1 <<< 63 = 9223372036854775808 := rfl
      omega

/-! ### Entries -/

namespace Entries

theorem InRange.nil : Entries.InRange [] := fun _ he => nomatch he

theorem InRange.append {entries more : Entries} (h : entries.InRange) (hmore : more.InRange) :
    Entries.InRange (entries ++ more) :=
  fun e he => (List.mem_append.1 he).elim (h e) (hmore e)

theorem InRange.singleton {key : String} {node : Node} (h : node.InRange) :
    Entries.InRange [(key, node)] := by
  intro e he
  rw [List.mem_singleton.1 he]
  exact h

theorem InRange.lookup {entries : Entries} (h : entries.InRange) {key : String} {node : Node}
    (hnode : entries.lookup key = some node) : node.InRange := by
  obtain ⟨before, after, rfl, -⟩ := List.lookup_eq_some_iff.1 hnode
  exact h (key, node) (by simp)

theorem InRange.set {entries : Entries} (h : entries.InRange) (key : String) {node : Node}
    (hnode : node.InRange) : (entries.set key node).InRange := by
  intro e he
  obtain ⟨f, hf, rfl⟩ := List.mem_map.1 he
  split
  · exact hnode
  · exact h f hf

theorem InRange.erase {entries : Entries} (h : entries.InRange) (key : String) :
    (entries.erase key).InRange :=
  fun e he => h e (List.mem_filter.1 he).1

/-- A change to the table at the end of a path may only bring in what is in range. -/
theorem InRange.descend {viaKey : Bool} {change : Origin → Entries → Option Entries}
    (hchange : ∀ origin (entries entries' : Entries), entries.InRange →
      change origin entries = some entries' → entries'.InRange)
    {path : List String} {origin : Origin} {entries entries' : Entries} (h : entries.InRange)
    (hdescend : Toml.descend viaKey change path origin entries = some entries') :
    entries'.InRange := by
  induction path generalizing origin entries entries' with
  | nil => exact hchange origin entries entries' h hdescend
  | cons key path ih =>
      unfold Toml.descend at hdescend
      split at hdescend
      · obtain ⟨sub, hsub, rfl⟩ := Option.map_eq_some_iff.1 hdescend
        exact h.append (.singleton (.table (ih .nil hsub)))
      · cases hdescend
      · rename_i under sub hlookup
        cases h.lookup hlookup with
        | table hsub =>
            split at hdescend
            · cases hdescend
            · obtain ⟨sub', hsub', rfl⟩ := Option.map_eq_some_iff.1 hdescend
              exact h.set key (.table (ih hsub hsub'))
      · rename_i last earlier hlookup
        cases h.lookup hlookup with
        | tables hlast hearlier =>
            obtain ⟨last', hlast', rfl⟩ := Option.map_eq_some_iff.1 hdescend
            exact h.set key (.tables (ih hlast hlast') hearlier)

theorem InRange.insert {path : List String} {key : String} {v : Value} (hv : v.InRange)
    {origin : Origin} {entries entries' : Entries} (h : entries.InRange)
    (hinsert : Toml.insert path key v origin entries = some entries') : entries'.InRange := by
  refine h.descend (fun origin entries entries' h hhere => ?_) hinsert
  simp only [insertHere, Option.ite_none_left_eq_some, Option.some.injEq] at hhere
  rw [← hhere.2.2]
  exact h.append (.singleton (.leaf hv))

theorem InRange.defineHere {key : String} {origin : Origin} {entries entries' : Entries}
    (h : entries.InRange) (hdefine : Toml.defineHere key origin entries = some entries') :
    entries'.InRange := by
  unfold Toml.defineHere at hdefine
  split at hdefine
  · cases hdefine
    exact h.append (.singleton (.table (by simp)))
  · rename_i sub hlookup
    cases hdefine
    cases h.lookup hlookup with
    | table hsub => exact (h.erase key).append (.singleton (.table hsub))
  · cases hdefine

theorem InRange.extendHere {key : String} {origin : Origin} {entries entries' : Entries}
    (h : entries.InRange) (hextend : Toml.extendHere key origin entries = some entries') :
    entries'.InRange := by
  unfold Toml.extendHere at hextend
  split at hextend
  · cases hextend
    exact h.append (.singleton (.tables (by simp) (by simp)))
  · rename_i last earlier hlookup
    cases hextend
    cases h.lookup hlookup with
    | tables hlast hearlier =>
        exact h.set key (.tables (by simp) (List.forall_mem_cons.2 ⟨hlast, hearlier⟩))
  · cases hextend

end Entries

/-! ### Finished tables -/

theorem tableOf_eq_map (entries : Entries) :
    tableOf entries = entries.map fun e => (e.1, e.2.value) := by
  induction entries with
  | nil => simp [tableOf]
  | cons e rest ih =>
      obtain ⟨key, node⟩ := e
      simp [tableOf, ih]

theorem mem_elementsOf {earlier : List (List (String × Node))} {elements : List Value} {v : Value} :
    v ∈ elementsOf earlier elements ↔
      v ∈ elements ∨ ∃ entries ∈ earlier, v = .table (tableOf entries) := by
  induction earlier generalizing elements with
  | nil => simp [elementsOf]
  | cons entries earlier ih =>
      simp [elementsOf, ih]
      grind

/-- The table that entries in range stand for, each of which stands for a value in range. -/
theorem inRange_table_tableOf {entries : Entries} (h : ∀ e ∈ entries, e.2.value.InRange) :
    (Value.table (tableOf entries)).InRange := by
  rw [tableOf_eq_map]
  refine .table fun e he => ?_
  obtain ⟨f, hf, rfl⟩ := List.mem_map.1 he
  exact h f hf

/-- What stands for a node in range is in range. -/
theorem Node.InRange.value {node : Node} (h : node.InRange) : node.value.InRange := by
  induction h with
  | leaf h => simpa [Node.value] using h
  | table h ih =>
      rw [Node.value]
      exact inRange_table_tableOf ih
  | tables hlast hearlier ihlast ihearlier =>
      rw [Node.value]
      refine .array fun v hv => ?_
      rcases mem_elementsOf.1 hv with hv | ⟨entries, hentries, rfl⟩
      · rw [List.mem_singleton.1 hv]
        exact inRange_table_tableOf ihlast
      · exact inRange_table_tableOf (ihearlier entries hentries)

/-! ### Readers -/

theorem bounds_of_int64? {n m : Int} (h : int64? n = some m) :
    Int64.minValue.toInt ≤ m ∧ m ≤ Int64.maxValue.toInt := by
  simp only [int64?, Option.ite_none_right_eq_some, Option.some.injEq] at h
  rw [← h.2]
  exact h.1

theorem bounds_of_integer? {word : List Char} {n : Int} (h : integer? word = some n) :
    Int64.minValue.toInt ≤ n ∧ n ≤ Int64.maxValue.toInt := by
  unfold integer? at h
  split at h
  case h_4 =>
    simp only [Option.bind_eq_bind, Option.bind_eq_some_iff] at h
    obtain ⟨_, _, h⟩ := h
    exact bounds_of_int64? h
  all_goals
    simp only [radixInteger?, Option.bind_eq_bind, Option.bind_eq_some_iff] at h
    obtain ⟨_, _, h⟩ := h
    exact bounds_of_int64? h

theorem inRange_wordValue? {word : List Char} {v : Value} (h : wordValue? word = some v) :
    v.InRange := by
  unfold wordValue? at h
  split at h
  · cases h; exact .boolean true
  · split at h
    · cases h; exact .boolean false
    · split at h
      · cases h; exact .datetime _
      · split at h
        · cases h; exact .float _
        · obtain ⟨n, hn, rfl⟩ := Option.map_eq_some_iff.1 h
          obtain ⟨hmin, hmax⟩ := bounds_of_integer? hn
          exact .integer hmin hmax

theorem inRange_word? {cs rest : List Char} {v : Value} (h : word? cs = some (v, rest)) :
    v.InRange := by
  have hword {word more : List Char}
      (hmap : (wordValue? word).map (fun v => (v, more)) = some (v, rest)) : v.InRange := by
    obtain ⟨w, hw, heq⟩ := Option.map_eq_some_iff.1 hmap
    cases heq
    exact inRange_wordValue? hw
  unfold word? at h
  dsimp only at h
  split at h
  · split at h
    · cases h; exact .datetime _
    · exact hword h
  · exact hword h

/-- The reader only reads values in range. -/
def ReadsInRange (read : List Char → Option (Value × List Char)) : Prop :=
  ∀ cs v rest, read cs = some (v, rest) → v.InRange

theorem ReadsInRange.items? {element? : List Char → Option (Value × List Char)}
    (h : ReadsInRange element?) {fuel : Nat} {cs rest : List Char} {vs : List Value}
    (hread : Toml.items? element? fuel cs = some (vs, rest)) : ∀ v ∈ vs, v.InRange := by
  induction fuel generalizing cs vs rest with
  | zero => cases hread
  | succ fuel ih =>
      unfold Toml.items? at hread
      split at hread
      · cases hread; simp
      · simp only [Option.bind_eq_bind, Option.bind_eq_some_iff] at hread
        obtain ⟨⟨v, cs'⟩, hv, hread⟩ := hread
        have hfirst := h _ _ _ hv
        dsimp only at hread
        split at hread
        · simp only [Option.bind_eq_some_iff] at hread
          obtain ⟨⟨more, cs''⟩, hmore, hread⟩ := hread
          cases hread
          exact List.forall_mem_cons.2 ⟨hfirst, ih hmore⟩
        · cases hread
          exact List.forall_mem_cons.2 ⟨hfirst, by simp⟩
        · cases hread

theorem ReadsInRange.fields? {element? : List Char → Option (Value × List Char)}
    (h : ReadsInRange element?) {fuel : Nat} {entries entries' : Entries} {cs rest : List Char}
    (hentries : entries.InRange)
    (hread : Toml.fields? element? fuel entries cs = some (entries', rest)) :
    entries'.InRange := by
  induction fuel generalizing entries cs with
  | zero => cases hread
  | succ fuel ih =>
      unfold Toml.fields? at hread
      simp only [Option.bind_eq_bind, Option.bind_eq_some_iff] at hread
      obtain ⟨⟨⟨path, last⟩, cs₁⟩, -, cs₂, -, ⟨v, cs₃⟩, hv, more, hinsert, hread⟩ := hread
      have hmore := hentries.insert (h _ _ _ hv) hinsert
      split at hread
      · exact ih hmore hread
      · cases hread
        exact hmore
      · cases hread

/-- If the values inside of it are in range, so is a value. -/
theorem readsInRange_value?_of_inner {depth : Nat}
    (inner : ∀ below, depth = below + 1 → ReadsInRange (value? below)) :
    ReadsInRange (value? depth) := by
  intro cs v rest h
  rw [value?.eq_def] at h
  dsimp only at h
  split at h
  · cases h
  · split at h
    · -- a quoted text
      obtain ⟨_, _, heq⟩ := Option.map_eq_some_iff.1 h
      cases heq
      exact .string _
    · split at h
      · -- an array
        split at h
        · cases h
        · rename_i below
          obtain ⟨⟨vs, _⟩, hvs, heq⟩ := Option.map_eq_some_iff.1 h
          cases heq
          exact .array ((inner below rfl).items? hvs)
      · split at h
        · -- an inline table
          split at h
          · cases h
          · rename_i below
            split at h
            · cases h
              exact .table (by simp)
            · obtain ⟨⟨entries, _⟩, hentries, heq⟩ := Option.map_eq_some_iff.1 h
              cases heq
              have hrange := (inner below rfl).fields? .nil hentries
              exact inRange_table_tableOf fun e he => (hrange e he).value
        · split at h
          · cases h
          · exact inRange_word? h

theorem readsInRange_value? (depth : Nat) : ReadsInRange (value? depth) := by
  induction depth with
  | zero => exact readsInRange_value?_of_inner fun below h => by omega
  | succ depth ih =>
      refine readsInRange_value?_of_inner fun below h => ?_
      obtain rfl : depth = below := by omega
      exact ih

/-! ### Documents -/

theorem Document.inRange_line? {d d' : Document} {cs rest : List Char} (h : d.entries.InRange)
    (hline : d.line? cs = some (d', rest)) : d'.entries.InRange := by
  have hheader {change : String → Origin → Entries → Option Entries}
      (hchange : ∀ key origin (entries entries' : Entries), entries.InRange →
        change key origin entries = some entries' → entries'.InRange)
      {path : List String} {key : String} {d' : Document}
      (hat : d.atHeader path key change = some d') : d'.entries.InRange := by
    obtain ⟨entries, hentries, rfl⟩ := Option.map_eq_some_iff.1 hat
    exact h.descend (hchange key) hentries
  unfold line? at hline
  split at hline
  · simp only [Option.bind_eq_bind, Option.bind_eq_some_iff] at hline
    obtain ⟨_, _, _, _, _, _, d₁, hat, heq⟩ := hline
    cases heq
    exact hheader (fun _ _ _ _ h hchange => h.extendHere hchange) hat
  · simp only [Option.bind_eq_bind, Option.bind_eq_some_iff] at hline
    obtain ⟨_, _, _, _, _, _, d₁, hat, heq⟩ := hline
    cases heq
    exact hheader (fun _ _ _ _ h hchange => h.defineHere hchange) hat
  · simp only [Option.bind_eq_bind, Option.bind_eq_some_iff] at hline
    obtain ⟨_, _, _, _, ⟨v, _⟩, hv, _, _, d₁, hput, heq⟩ := hline
    cases heq
    obtain ⟨entries, hentries, rfl⟩ := Option.map_eq_some_iff.1 hput
    have hrange : v.InRange := readsInRange_value? depthLimit _ _ _ hv
    exact h.descend (fun _ _ _ h hinsert => h.insert hrange hinsert) hentries

theorem Document.inRange_lines? {fuel : Nat} {d d' : Document} {cs : List Char}
    (h : d.entries.InRange) (hlines : lines? fuel d cs = some d') : d'.entries.InRange := by
  induction fuel generalizing d cs with
  | zero => cases hlines
  | succ fuel ih =>
      unfold lines? at hlines
      split at hlines
      · cases hlines
        exact h
      · split at hlines
        · obtain ⟨rest, _, hlines⟩ := Option.bind_eq_some_iff.1 hlines
          exact ih h hlines
        · obtain ⟨⟨d₁, rest⟩, hline, hlines⟩ := Option.bind_eq_some_iff.1 hlines
          exact ih (inRange_line? h hline) hlines

/-- **Integers of a document have 64 bits**, wherever they stand. -/
theorem inRange_read? {text : String} {t : Table} (h : read? text = some t) :
    (Value.table t).InRange := by
  obtain ⟨d, hd, rfl⟩ := Option.map_eq_some_iff.1 h
  have hrange : d.entries.InRange := Document.inRange_lines? .nil hd
  exact inRange_table_tableOf fun e he => (hrange e he).value

/-! ### Moments in the place of tables -/

theorem inRange_untagItems? {items vs : List Value}
    (h : ∀ v ∈ items, ∀ v', v.untag? = some v' → v'.InRange)
    (huntag : untagItems? items = some vs) : ∀ v ∈ vs, v.InRange := by
  induction items generalizing vs with
  | nil =>
      simp only [untagItems?, Option.some.injEq] at huntag
      simp [← huntag]
  | cons item items ih =>
      simp only [untagItems?, Option.bind_eq_some_iff, Option.map_eq_some_iff] at huntag
      obtain ⟨v, hv, rest, hrest, rfl⟩ := huntag
      exact List.forall_mem_cons.2 ⟨h item (by simp) v hv,
        ih (fun w hw => h w (by simp [hw])) hrest⟩

theorem inRange_untagTable? {entries t : Table}
    (h : ∀ e ∈ entries, ∀ v', e.2.untag? = some v' → v'.InRange)
    (huntag : Table.untag? entries = some t) : ∀ e ∈ t, e.2.InRange := by
  induction entries generalizing t with
  | nil =>
      simp only [Table.untag?, Option.some.injEq] at huntag
      simp [← huntag]
  | cons entry entries ih =>
      obtain ⟨key, item⟩ := entry
      simp only [Table.untag?, Option.bind_eq_some_iff, Option.map_eq_some_iff] at huntag
      obtain ⟨v, hv, rest, hrest, rfl⟩ := huntag
      exact List.forall_mem_cons.2 ⟨h (key, item) (by simp) v hv,
        ih (fun e he => h e (by simp [he])) hrest⟩

/-- To put moments into the place of tables changes no integer. -/
theorem Value.InRange.untag? {v v' : Value} (h : v.InRange) (huntag : v.untag? = some v') :
    v'.InRange := by
  induction h generalizing v' with
  | array h ih =>
      simp only [Value.untag?, Option.map_eq_some_iff] at huntag
      obtain ⟨vs, hvs, rfl⟩ := huntag
      exact .array (inRange_untagItems? (fun v hv v' => ih v hv) hvs)
  | table h ih =>
      unfold Value.untag? at huntag
      split at huntag
      · unfold taggedMoment? at huntag
        split at huntag
        · simp only [Option.ite_none_right_eq_some, Option.some.injEq] at huntag
          rw [← huntag.2]
          exact .datetime _
        · cases huntag
      · obtain ⟨t, ht, rfl⟩ := Option.map_eq_some_iff.1 huntag
        exact .table (inRange_untagTable? (fun e he v' => ih e he) ht)
  | integer hmin hmax =>
      simp only [Value.untag?, Option.some.injEq] at huntag
      rw [← huntag]
      exact .integer hmin hmax
  | _ =>
      simp only [Value.untag?, Option.some.injEq] at huntag
      rw [← huntag]
      constructor

theorem Table.inRange_untag? {t t' : Table} (h : (Value.table t).InRange)
    (huntag : Table.untag? t = some t') : (Value.table t').InRange := by
  cases h with
  | table h => exact .table (inRange_untagTable? (fun e he v hv => (h e he).untag? hv) huntag)

end HttpBinding.Toml
