import HttpBinding.Proofs.Settings.Overlay
import HttpBinding.Settings.Load

/-!
# HttpBinding.Proofs.Settings.Layers

Where each setting comes from when the settings are loaded.

`load` goes through the files one after the other and changes the settings as it goes. Here the
outcome is said without any such state. Loading serves if every file can be used
(`Content.IsUsable`), and then each setting is on its own: its variable decides, or else the last
file that mentions it, or else its default. If loading fails, the fault is what is wrong with the
first file that cannot be used (`Offence`).

A file does what the document in it does (`overlay_cases`), if it can be read. From there the proof
goes to one file among others (`overlayFiles_cons_cases`), and to all files (`overlayFiles_cases`).
-/

namespace HttpBinding.Settings

/-! ### Files -/

/-- The document that sits in a file. -/
def Content.document? (content : Content) : Option Toml.Table :=
  content.read?.bind Settings.document?

/-- A file that serves: it can be read, and what it writes serves. -/
def Content.IsUsable (content : Content) : Prop := ∃ text, content.read? = some text ∧ IsFit text

/-- The value that a file gives to a setting, if it mentions it. -/
def Content.mention? (content : Content) (key : Key) : Option Toml.Value :=
  content.document?.bind fun document => (sectionOf document).get? key.name

/-- What is wrong with a file: it cannot be read, or what it writes cannot be put over settings. -/
inductive Offence (path : String) (content : Content) : Fault → Prop where
  | unreadable (h : content.read? = none) : Offence path content (.unreadable path)
  | unfit {text : String} {s s' : Settings} {fault : Fault} (hread : content.read? = some text)
      (h : Failure s path text fault s') : Offence path content fault

/-- Settings that a file was put over. -/
def Content.Updates (content : Content) (s s' : Settings) : Prop :=
  ∀ key, match content.mention? key with
    | some v => Gives key v (s'.get key)
    | none => s'.get key = s.get key

/-- A file changes settings as its section says. -/
theorem Overlaid.updates {content : Content} {document : Toml.Table} {s s' : Settings}
    (h : Overlaid (sectionOf document) Key.all s s') (hdoc : content.document? = some document) :
    content.Updates s s' := by
  intro key
  rw [Content.mention?, hdoc, Option.bind_some]
  cases hv : (sectionOf document).get? key.name with
  | none => exact h.kept key (.inr hv)
  | some v => exact h.given key key.mem_all v hv

/-- **One file.** If it serves, its settings are taken over and the work goes on; otherwise the work
ends with what is wrong with it. -/
theorem overlayFiles_cons_cases (path : String) (content : Content)
    (rest : List (String × Content)) (s : Settings) :
    (∃ s₁, content.IsUsable ∧ content.Updates s s₁ ∧
        overlayFiles ((path, content) :: rest) s = overlayFiles rest s₁) ∨
      ∃ fault, Offence path content fault ∧
        overlayFiles ((path, content) :: rest) s = .error fault := by
  cases hread : content.read? with
  | none => exact .inr ⟨_, .unreadable hread, by simp only [overlayFiles, hread]⟩
  | some text =>
      rcases overlay_cases s path text with
        ⟨document, s₁, hdoc, hfit, hover, hok⟩ | ⟨fault, s₁, hfailure, hfault⟩
      · have hhere : content.document? = some document := by
          rw [Content.document?, hread, Option.bind_some, hdoc]
        exact .inl ⟨s₁, ⟨text, hread, hfit⟩, hover.updates hhere, by
          simp only [overlayFiles, hread, hok]⟩
      · exact .inr ⟨fault, .unfit hread hfailure, by simp only [overlayFiles, hread, hfault]⟩

/-- What the last file that mentions a setting says about it. -/
def lastMention? (files : List (String × Content)) (key : Key) : Option Toml.Value :=
  (files.filterMap fun file => file.2.mention? key).getLast?

theorem lastMention?_cons (file : String × Content) (files : List (String × Content)) (key : Key) :
    lastMention? (file :: files) key = (lastMention? files key).or (file.2.mention? key) := by
  unfold lastMention?
  cases hmention : file.2.mention? key with
  | none => simp [hmention]
  | some v => simp [hmention, List.getLast?_cons, Option.or_some]

/-- Settings that files were put over. -/
def Updates (files : List (String × Content)) (s s' : Settings) : Prop :=
  ∀ key, match lastMention? files key with
    | some v => Gives key v (s'.get key)
    | none => s'.get key = s.get key

theorem Updates.cons {file : String × Content} {files : List (String × Content)}
    {s s₁ s' : Settings} (hfirst : file.2.Updates s s₁) (hrest : Updates files s₁ s') :
    Updates (file :: files) s s' := by
  intro key
  have hlater := hrest key
  have hearlier := hfirst key
  rw [lastMention?_cons]
  cases hlast : lastMention? files key with
  | some v => simpa [hlast] using hlater
  | none =>
      have hsame : s'.get key = s₁.get key := by simpa [hlast] using hlater
      rw [hsame]
      simpa using hearlier

/-- **All files.** They are put over the settings one after the other, unless one of them does not
serve; then those before it did. -/
theorem overlayFiles_cases (files : List (String × Content)) (s : Settings) :
    (∃ s', (∀ file ∈ files, file.2.IsUsable) ∧ Updates files s s' ∧
        overlayFiles files s = .ok s') ∨
      ∃ pre file post fault, files = pre ++ file :: post ∧
        (∀ earlier ∈ pre, earlier.2.IsUsable) ∧ Offence file.1 file.2 fault ∧
        overlayFiles files s = .error fault := by
  induction files generalizing s with
  | nil => exact .inl ⟨s, by simp, fun key => rfl, rfl⟩
  | cons file files ih =>
      rcases overlayFiles_cons_cases file.1 file.2 files s with
        ⟨s₁, husable, hupdates, hstep⟩ | ⟨fault, hoffence, hstep⟩
      · rcases ih s₁ with ⟨s', hall, hrest, hok⟩ |
          ⟨pre, bad, post, fault, hsplit, hpre, hbad, hfault⟩
        · exact .inl ⟨s', List.forall_mem_cons.2 ⟨husable, hall⟩, .cons hupdates hrest,
            hstep.trans hok⟩
        · exact .inr ⟨file :: pre, bad, post, fault, by rw [hsplit]; rfl,
            List.forall_mem_cons.2 ⟨husable, hpre⟩, hbad, hstep.trans hfault⟩
      · exact .inr ⟨[], file, files, fault, rfl, by simp, hoffence, hstep⟩

/-! ### Loading -/

/-- The files that are loaded: the user's own one if there is one, and then the one that was asked
for, or else the one in the working directory. -/
def layers (fs : Files) (asked : Option String) : List (String × Content) :=
  let user := (fs.user.map fun content => ("~/.config/bosh/config.toml", content)).toList
  let here := ((fs.find? "bosh.toml").map fun content => ("bosh.toml", content)).toList
  match asked with
  | none => user ++ here
  | some path =>
    match fs.find? path with
    | some content => user ++ [(path, content)]
    | none => user ++ here

theorem sources_eq_layers (fs : Files) (asked : Option String) :
    sources fs asked = layers fs asked := by
  have huser (path : String) : (fs.user.toList.map fun content => (path, content)) =
      (fs.user.map fun content => (path, content)).toList := by
    cases fs.user <;> rfl
  cases asked with
  | none => simp [sources, layers, huser, userPath, localPath]
  | some path =>
      cases hfind : fs.find? path <;>
        simp [sources, layers, huser, userPath, localPath, hfind]

theorem mem_overrides {env : Environment} {name : String} :
    name ∈ overrides env ↔ ∃ key n, key.variableName = name ∧ env.value? key = some n := by
  simp only [overrides, List.mem_map, List.mem_filter, Key.mem_all, true_and, Option.isSome_iff_exists]
  constructor
  · rintro ⟨key, ⟨n, hn⟩, hname⟩
    exact ⟨key, n, hname, hn⟩
  · rintro ⟨key, n, hname, hn⟩
    exact ⟨key, ⟨n, hn⟩, hname⟩

end HttpBinding.Settings
