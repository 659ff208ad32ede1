import HttpBinding.Proofs.Settings.Layers
import HttpBinding.Proofs.Settings.Readers
import HttpBinding.Proofs.Toml.Plain

/-!
# HttpBinding.Proofs.Settings.ReadBack

When settings that were loaded can be read back from the settings file that `render` writes.

There are two readers, one that makes settings of a whole document (`decode?`) and one that puts a
document over settings (`overlay`). Both get back what was written as long as every value fits an
integer of 64 bits with a sign (`decode?_render`, `overlay_render`). A variable of the environment
may hold a number that does not fit, and then neither reader takes the file. A settings file cannot
hold such a number in the first place, so the environment alone decides
(`isEncodable_iff_of_load`).
-/

namespace HttpBinding.Settings

/-! ### What is written -/

/-- The line of one setting. -/
def line (s : Settings) (key : Key) : Toml.Line := .number key.name (s.get key)

/-- The lines of a settings file as it is rendered. -/
def lines (s : Settings) : List Toml.Line :=
  [.comment " bosh configuration", .blank, .header sectionName] ++ Key.all.map s.line

theorem toList_renderKey (s : Settings) (key : Key) :
    (s.renderKey key).toList = (s.line key).write := by
  unfold renderKey line Toml.Line.write
  simp

theorem render_eq_lines (s : Settings) :
    s.render = String.ofList (s.lines.flatMap Toml.Line.write) := by
  rw [← String.toList_inj, String.toList_ofList]
  unfold render renderSection lines Key.all
  simp [toList_renderKey]
  simp [Toml.Line.write]

theorem isBareKey_sectionName : Toml.IsBareKey sectionName :=
  ⟨by decide, List.all_eq_true.mp (by decide)⟩

theorem isBareKey_name (key : Key) : Toml.IsBareKey key.name := by
  cases key <;> exact ⟨by decide, List.all_eq_true.mp (by decide)⟩

theorem isPlain_lines (s : Settings) : ∀ line ∈ s.lines, line.IsPlain := by
  have hcomment : ∀ c ∈ " bosh configuration".toList, Toml.isPlain c = true :=
    List.all_eq_true.mp (by decide)
  intro line hline
  simp only [lines, List.cons_append, List.nil_append, List.mem_cons, List.mem_map] at hline
  rcases hline with rfl | rfl | rfl | ⟨key, -, rfl⟩
  · exact hcomment
  · trivial
  · exact isBareKey_sectionName
  · exact isBareKey_name key

/-! ### What is read of it -/

/-- The entry of one setting. -/
def entry (s : Settings) (key : Key) : String × Toml.Node :=
  (key.name, .leaf (.integer (s.get key)))

/-- A document that has the section and nothing else. -/
def sectionDocument (entries : Toml.Entries) : Toml.Document :=
  ⟨[(sectionName, .table .defined entries)], [sectionName]⟩

/-- A value is put behind those that the section has already. -/
theorem put_sectionDocument {entries : Toml.Entries} {name : String}
    (hnew : entries.lookup name = none) (v : Toml.Value) :
    (sectionDocument entries).put [] name v =
      some (sectionDocument (entries ++ [(name, .leaf v)])) := by
  simp [sectionDocument, Toml.Document.put, Toml.descend, Toml.insert, Toml.insertHere, hnew,
    Toml.Entries.set]

theorem name_injective {key other : Key} (h : key.name = other.name) : key = other := by
  cases key <;> cases other <;> first | rfl | exact absurd h (by decide)

/-- The lines of settings put them into the section, unless one of them does not fit. -/
theorem foldlM_line (s : Settings) {keys : List Key} (hkeys : keys.Nodup)
    {entries : Toml.Entries} (hnew : ∀ key ∈ keys, entries.lookup key.name = none) :
    (keys.map s.line).foldlM Toml.Line.effect? (sectionDocument entries) =
      if keys.all fun key => s.get key < 1 <<< 63 then
        some (sectionDocument (entries ++ keys.map s.entry))
      else none := by
  induction keys generalizing entries with
  | nil => simp
  | cons key keys ih =>
      obtain ⟨hkey, hkeys⟩ := List.nodup_cons.1 hkeys
      have hrest : ∀ other ∈ keys, (entries ++ [s.entry key]).lookup other.name = none := by
        intro other hother
        have hne : other.name ≠ key.name := fun heq => hkey (name_injective heq ▸ hother)
        simp [List.lookup_append, hnew other (by simp [hother]), entry, hne]
      rw [List.map_cons, List.foldlM_cons, line, Toml.Line.effect?, Toml.int64?_natCast,
        List.all_cons]
      by_cases hfits : s.get key < 1 <<< 63
      · have happly : (some (s.get key : Int)).bind (fun n =>
            (sectionDocument entries).put [] key.name (.integer n)) =
              some (sectionDocument (entries ++ [s.entry key])) :=
          put_sectionDocument (hnew key (by simp)) _
        rw [if_pos hfits, happly, Option.bind_eq_bind, Option.bind_some, ih hkeys hrest,
          decide_eq_true hfits, Bool.true_and, List.append_assoc]
        rfl
      · rw [if_neg hfits, decide_eq_false hfits, Bool.false_and]
        rfl

theorem foldlM_lines (s : Settings) :
    s.lines.foldlM Toml.Line.effect? {} =
      if s.isEncodable then some (sectionDocument (Key.all.map s.entry)) else none := by
  have hheader : [Toml.Line.comment " bosh configuration", .blank, .header sectionName].foldlM
      Toml.Line.effect? {} = some (sectionDocument []) := rfl
  have hsettings : (Key.all.map s.line).foldlM Toml.Line.effect? (sectionDocument []) =
      if s.isEncodable then some (sectionDocument (Key.all.map s.entry)) else none :=
    s.foldlM_line (by decide) (by simp)
  rw [lines, List.foldlM_append, hheader, Option.bind_eq_bind, Option.bind_some, hsettings]

/-- The section of a settings file as it is read. -/
def table (s : Settings) : Toml.Table := Key.all.map fun key => (key.name, .integer (s.get key))

theorem get?_table (s : Settings) (key : Key) :
    s.table.get? key.name = some (.integer (s.get key)) := by
  cases key <;> rfl

/-- A rendered file is read as the section with the settings, if they fit; otherwise it is no
document at all. -/
theorem read?_render (s : Settings) :
    Toml.read? s.render =
      if s.isEncodable then some [(sectionName, .table s.table)] else none := by
  rw [render_eq_lines, Toml.read?_plain s.isPlain_lines, foldlM_lines]
  split <;> rfl

/-! ### The two readers -/

/-- Every setting is in its range. -/
def InRange (s : Settings) : Prop := ∀ key, s.get key < 1 <<< key.bits

theorem decodeKeys?_of_find {s : Settings} (h : s.InRange) {find : Key → Option Toml.Value}
    (hfind : ∀ key, find key = some (.integer (s.get key))) (keys : List Key)
    (start : Settings) :
    decodeKeys? find keys start =
      some (keys.foldl (fun t key => t.set key (s.get key)) start) := by
  induction keys generalizing start with
  | nil => rfl
  | cons key keys ih =>
      have hvalue := decodeValue?_eq_some_iff.2 ⟨rfl, h key⟩
      simp only [decodeKeys?, hfind, hvalue, Option.bind_some, List.foldl_cons]
      exact ih _

theorem applyKeys_table {s : Settings} (h : s.InRange) (path : String) (keys : List Key)
    (start : Settings) :
    applyKeys path s.table keys start =
      (.ok (), keys.foldl (fun t key => t.set key (s.get key)) start) :=
  applyKeys_eq_ok_iff.2 (decodeKeys?_of_find h s.get?_table keys start)

theorem decode?_render {s : Settings} (h : s.InRange) :
    decode? s.render = if s.isEncodable then some s else none := by
  rw [decode?, read?_render]
  split
  · have hsection : decodeSection? (.table s.table) = some s :=
      decodeKeys?_of_find h s.get?_table Key.all {}
    simpa [Toml.Table.get?] using hsection
  · rfl

/-- The section has no tag that would make it a moment. -/
theorem untag?_table (s : Settings) :
    Toml.Table.untag? [(sectionName, .table s.table)] = some [(sectionName, .table s.table)] := by
  simp [Toml.Table.untag?, Toml.Value.untag?, Toml.Table.tagged?, Toml.momentTag, table, Key.all,
    Key.name]

theorem overlay_render {s : Settings} (h : s.InRange) (start : Settings) (path : String) :
    start.overlay path s.render =
      if s.isEncodable then (.ok (), s) else (.error (.malformed path), start) := by
  have hsection : applyKeys path s.table Key.all start = (.ok (), s) :=
    applyKeys_table h path Key.all start
  cases hfits : s.isEncodable with
  | true => simpa [overlay, read?_render, hfits, untag?_table, Toml.Table.get?] using hsection
  | false => simp [overlay, read?_render, hfits]

/-! ### What can be loaded -/

/-- No integer of a file is above the range of its integers. -/
theorem lt_of_mention? {content : Content} {key : Key} {n : Nat}
    (h : content.mention? key = some (.integer n)) : n < 1 <<< 63 := by
  obtain ⟨document, hdoc, hmention⟩ := Option.bind_eq_some_iff.1 h
  obtain ⟨text, -, hparse⟩ := Option.bind_eq_some_iff.1 hdoc
  exact ((inRange_sectionOf (inRange_document? hparse)).get? hmention).lt

/-- The value that some file gives to a setting. -/
theorem lt_of_lastMention? {files : List (String × Content)} {key : Key} {n : Nat}
    (h : lastMention? files key = some (.integer n)) : n < 1 <<< 63 := by
  obtain ⟨file, -, hmention⟩ := List.mem_filterMap.1 (List.mem_of_getLast? h)
  exact lt_of_mention? hmention

/-- Where the value of a loaded setting comes from. -/
theorem get_of_load {fs : Files} {asked : Option String} {env : Environment} {loaded : Loaded}
    (h : load fs asked env = .ok loaded) (key : Key) :
    env.value? key = some (loaded.settings.get key) ∨
      env.value? key = none ∧ loaded.settings.get key < 1 <<< key.bits ∧
        loaded.settings.get key < 1 <<< 63 := by
  rcases overlayFiles_cases (layers fs asked) {} with
    ⟨s, -, hupdates, hok⟩ | ⟨_, _, _, fault, -, -, -, hfault⟩
  · have hsettings : loaded.settings = s.override env := by
      simp only [load, sources_eq_layers, hok] at h
      cases h
      rfl
    rw [hsettings, get_override]
    cases hvalue : env.value? key with
    | some n => exact .inl rfl
    | none =>
        refine .inr ⟨rfl, ?_⟩
        have hfile := hupdates key
        cases hlast : lastMention? (layers fs asked) key with
        | none =>
            rw [hlast] at hfile
            simp only [Option.getD_none, hfile]
            cases key <;> decide
        | some v =>
            rw [hlast] at hfile
            obtain ⟨rfl, hrange⟩ := hfile
            exact ⟨hrange, lt_of_lastMention? hlast⟩
  · simp only [load, sources_eq_layers, hfault] at h
    cases h

theorem inRange_of_load {fs : Files} {asked : Option String} {env : Environment}
    {loaded : Loaded} (h : load fs asked env = .ok loaded) : loaded.settings.InRange := by
  intro key
  rcases get_of_load h key with hvalue | ⟨-, hrange, -⟩
  · obtain ⟨_, -, hread⟩ := Option.bind_eq_some_iff.1 hvalue
    exact Text.unsigned?_lt hread
  · exact hrange

/-- Only the environment can give a setting a number that does not fit. -/
theorem isEncodable_iff_of_load {fs : Files} {asked : Option String} {env : Environment}
    {loaded : Loaded} (h : load fs asked env = .ok loaded) :
    loaded.settings.isEncodable = true ↔
      ∀ key n, env.value? key = some n → n < 1 <<< 63 := by
  have hall : loaded.settings.isEncodable = true ↔ ∀ key, loaded.settings.get key < 1 <<< 63 := by
    simp only [isEncodable, List.all_eq_true, decide_eq_true_eq]
    exact ⟨fun h key => h key key.mem_all, fun h key _ => h key⟩
  rw [hall]
  refine forall_congr' fun key => ?_
  rcases get_of_load h key with hvalue | ⟨hvalue, -, hfits⟩
  · simp [hvalue]
  · simpa [hvalue] using hfits

/-- A text from which both readers get exactly these settings, whatever was set before. -/
def ReadsBack (s : Settings) (text : String) : Prop :=
  decode? text = some s ∧ ∀ start path, overlay start path text = (.ok (), s)

/-- A text of which neither reader makes anything. -/
def IsRefused (text : String) : Prop :=
  decode? text = none ∧ ∀ start path, overlay start path text = (.error (.malformed path), start)

theorem readsBack_render_iff {s : Settings} (h : s.InRange) :
    s.ReadsBack s.render ↔ s.isEncodable = true := by
  cases hfits : s.isEncodable <;> simp [ReadsBack, decode?_render h, overlay_render h, hfits]

theorem isRefused_render {s : Settings} (h : s.InRange) (hfits : s.isEncodable = false) :
    IsRefused s.render := by
  simp [IsRefused, decode?_render h, overlay_render h, hfits]

/-- **Loaded settings are read back as they are, unless a variable is out of the range of files.**
Both readers get back from the rendered file exactly the settings that were loaded, the one from
nothing and the other on top of any settings, if no variable that took effect holds a number beyond
64 bits with a sign. If one does, neither reader takes the file at all. -/
theorem loaded_read_back_iff {fs : Files} {asked : Option String} {env : Environment}
    {loaded : Loaded} (h : load fs asked env = .ok loaded) :
    (loaded.settings.ReadsBack loaded.settings.render ↔
      ∀ key n, env.value? key = some n → n < 1 <<< 63) ∧
    (¬ loaded.settings.ReadsBack loaded.settings.render → IsRefused loaded.settings.render) := by
  have hrange := inRange_of_load h
  rw [readsBack_render_iff hrange]
  refine ⟨isEncodable_iff_of_load h, fun hnot => isRefused_render hrange ?_⟩
  simpa using hnot

/-! ### The ends of the range -/

theorem find?_localPath_of_no_files : ({} : Files).find? localPath = none := by
  have hsteps : Files.splitPath localPath = ["bosh.toml"] := by
    simp +decide [Files.splitPath, localPath, String.splitOn, String.splitOnAux]
  have hstart : Files.start localPath = .here := by simp [Files.start, localPath]
  rw [Files.find?, hsteps, hstart]
  rfl

/-- Without files only the environment counts. -/
theorem load_of_no_files (env : Environment) :
    load {} none env = .ok ⟨({} : Settings).override env, [], overrides env⟩ := by
  have hsources : sources {} none = [] := by
    simp [sources, find?_localPath_of_no_files]
  simp [load, discover, hsources]

/-- An environment in which the variable of the inactivity timeout is set. -/
def timeoutSet (value : String) : Environment :=
  fun name => if name = Key.inactivityTimeout.variableName then some value else none

/-- The largest number that a file can hold is read back. -/
theorem largest_timeout_read_back :
    load {} none (timeoutSet "9223372036854775807") =
      .ok ⟨⟨9223372036854775807, 2, 5⟩, [], ["BOSH_INACTIVITY_TIMEOUT"]⟩ ∧
    ReadsBack ⟨9223372036854775807, 2, 5⟩ (render ⟨9223372036854775807, 2, 5⟩) := by
  have hload : load {} none (timeoutSet "9223372036854775807") =
      .ok ⟨⟨9223372036854775807, 2, 5⟩, [], ["BOSH_INACTIVITY_TIMEOUT"]⟩ :=
    load_of_no_files _
  refine ⟨hload, (loaded_read_back_iff hload).1.2 fun key n hvalue => ?_⟩
  cases key with
  | inactivityTimeout =>
      obtain rfl : 9223372036854775807 = n := Option.some.inj hvalue
      decide
  | maxRequests | pollingInterval => cases hvalue

/-- A number that is larger by one is loaded from the environment and not read back. -/
theorem larger_timeout_not_read_back :
    ¬ ∀ (fs : Files) (asked : Option String) (env : Environment) (loaded : Loaded),
      load fs asked env = .ok loaded → loaded.settings.ReadsBack loaded.settings.render := by
  intro h
  have hload : load {} none (timeoutSet "9223372036854775808") =
      .ok ⟨⟨9223372036854775808, 2, 5⟩, [], ["BOSH_INACTIVITY_TIMEOUT"]⟩ :=
    load_of_no_files _
  have hreads := h _ _ _ _ hload
  rw [readsBack_render_iff (inRange_of_load hload)] at hreads
  exact absurd hreads (by decide)

end HttpBinding.Settings
