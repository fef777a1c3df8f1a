import Linkage.Files.Tree
import Linkage.Format
import Linkage.Log

/-!
# Loading scene files

A scene lies in a directory under a fixed name in one of the formats, or at a
path whose extension tells the format. Two formats side by side are an error
even if one of them could not be read. Only a scene that was loaded is reported.

## Main results

* `load_log_of_error`: nothing is reported unless a scene is loaded.
-/

namespace Linkage

/-- Why data cannot be loaded. -/
inductive LoadError
  | missingRequired (file dir : String)
  | unsupportedFormat (file : String)
  | conflictingFormats (a b : String)
  | unreadable (file : String)
  | io (cause : FileError)
  deriving DecidableEq, Repr

/-- The message that reports the cause; for a file that is not well formed, its
label. -/
def LoadError.message : LoadError → String
  | .missingRequired file dir => s!"required file '{file}' not found in {dir}"
  | .unsupportedFormat file => s!"unsupported format for file: {file}"
  | .conflictingFormats a b => s!"conflicting formats: {a} and {b}"
  | .unreadable file => file
  | .io cause => cause.name

/-- The format that the extension of a path tells. -/
def detectFormat (path : String) : Except LoadError Format :=
  match (Path.extension? path).bind Format.ofExtension? with
  | some f => .ok f
  | none => .error (.unsupportedFormat path)

/-- Read a text that has a label for errors. -/
def parseText {α : Type} (schema : Schema α) (f : Format)
    (text label : String) :
    Except LoadError α :=
  match f.read? schema text with
  | some a => .ok a
  | none => .error (.unreadable label)

namespace FileTree

/-- The path of a base name with the extension of a format. -/
def candidate (dir base : String) (f : Format) : String :=
  Path.join dir (base ++ "." ++ f.extension)

/-- The only one of the formats under which a base name exists in a directory,
given the one found so far. -/
def findAmong (t : FileTree) (dir base : String) (found : Option String) :
    List Format → Except LoadError (Option String)
  | [] => .ok found
  | f :: rest =>
      let path := candidate dir base f
      if t.contains path then
        match found with
        | some earlier => .error (.conflictingFormats earlier path)
        | none => t.findAmong dir base (some path) rest
      else t.findAmong dir base found rest

/-- The file of a base name in a directory, in any format. -/
def find (t : FileTree) (dir base : String) :
    Except LoadError (Option String) :=
  t.findAmong dir base none Format.all

/-- The file of a base name in a directory, which has to be there. -/
def require (t : FileTree) (dir base : String) : Except LoadError String :=
  match t.find dir base with
  | .error e => .error e
  | .ok (some path) => .ok path
  | .ok none => .error (.missingRequired base dir)

/-- Read a file in the format that its extension tells. -/
def read {α : Type} (t : FileTree) (schema : Schema α) (path : String) :
    Except LoadError α :=
  match detectFormat path with
  | .error e => .error e
  | .ok f =>
      match t.readText path with
      | .error e => .error (.io e)
      | .ok text => parseText schema f text path

/-- Load a scene from a path, with what is reported. -/
def loadScene (t : FileTree) (path : String) : Except LoadError Scene × Log :=
  match t.read Schema.scene path with
  | .error e => (.error e, [])
  | .ok scene =>
      (.ok scene,
        [⟨.info, s!"loaded scene {path} with {scene.models.length} model(s)"⟩])

/-- The base name of scene files. -/
def sceneFile : String := "scene"

/-- Load the scene of a directory, with what is reported. -/
def loadSceneDir (t : FileTree) (dir : String) : Except LoadError Scene × Log :=
  match t.require dir sceneFile with
  | .error e => (.error e, [])
  | .ok path => t.loadScene path

theorem load_log_of_error {t : FileTree} {dir : String} {e : LoadError}
    (h : (t.loadSceneDir dir).1 = .error e) : (t.loadSceneDir dir).2 = [] := by
  unfold loadSceneDir at h ⊢
  split
  · rfl
  · next path hp =>
    rw [hp] at h
    dsimp only at h
    unfold loadScene at h ⊢
    split
    · rfl
    · next scene hs => rw [hs] at h; cases h

end FileTree

end Linkage
