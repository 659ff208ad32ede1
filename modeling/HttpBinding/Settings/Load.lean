import HttpBinding.Settings.Environment
import HttpBinding.Settings.Files
import HttpBinding.Settings.Overlay

/-!
# HttpBinding.Settings.Load

Loading the settings from files and the environment.

Files are put one over the other in the order in which they are found: the user's own file, and
then the file that was asked for or else `bosh.toml` in the working directory. A file that was
asked for and does not exist counts as not asked for. The environment comes last.
-/

namespace HttpBinding.Settings

/-- How the user's own settings file is called. -/
def userPath : String := "~/.config/bosh/config.toml"

/-- The settings file in the working directory. -/
def localPath : String := "bosh.toml"

/-- The files to be loaded: the path of each as it is shown, and what sits there. -/
def sources (fs : Files) (asked : Option String) : List (String × Content) :=
  let user := fs.user.toList.map fun content => (userPath, content)
  let at? (path : String) := (fs.find? path).map fun content => (path, content)
  user ++ ((asked.bind at?).or (at? localPath)).toList

/-- The paths of the files to be loaded, in order. -/
def discover (fs : Files) (asked : Option String) : List String :=
  (sources fs asked).map Prod.fst

/-- Puts files over settings, in order, until one cannot be used. -/
def overlayFiles : List (String × Content) → Settings → Except Fault Settings
  | [], s => .ok s
  | (path, content) :: rest, s =>
    match content.read? with
    | none => .error (.unreadable path)
    | some text =>
      match s.overlay path text with
      | (.ok _, s) => overlayFiles rest s
      | (.error fault, _) => .error fault

/-- Settings together with where they came from. -/
structure Loaded where
  settings : Settings
  /-- The files that were loaded, in order. -/
  files : List String
  /-- The environment variables that took effect. -/
  overrides : List String
deriving DecidableEq, Repr

/-- The settings from all sources. -/
def load (fs : Files) (asked : Option String) (env : Environment) : Except Fault Loaded :=
  match overlayFiles (sources fs asked) {} with
  | .ok s => .ok {
      settings := s.override env
      files := discover fs asked
      overrides := overrides env }
  | .error fault => .error fault

/-! ### Views -/

@[simp] theorem overlayFiles_nil (s : Settings) : overlayFiles [] s = .ok s := rfl

end HttpBinding.Settings
