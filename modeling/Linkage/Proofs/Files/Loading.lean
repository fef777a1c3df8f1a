import Linkage.Files.Load
import Linkage.Proofs.Files.Joining

/-!
# The scene of a directory

A directory may hold a scene under three names, one for each format. Which of
them it holds decides everything: with none there is nothing to load, with two
or more the first two are in conflict whatever is in them, and an only one is
loaded from its path. The format of a path is told by its extension, and the
extension of a joined path is that of the name it was joined with, so an only
one is read in the very format it was found under.

## Main results

* `FileTree.findAmong_filter`: only the formats that are there matter to a
  search.
* `FileTree.loads_of_held?`: what loading an entry of a directory comes to.
* `FileTree.loadsFrom_of_loadSceneDir`: what loading the scene of a directory
  comes to.
-/

namespace Linkage

namespace FileTree

/-- The name that a scene has in a directory. -/
def sceneName : Format → String
  | .ron => "scene.ron"
  | .toml => "scene.toml"
  | .json => "scene.json"

/-- The formats in which a directory holds a scene, in the order in which they
are looked for. -/
def sceneFormats (t : FileTree) (dir : String) : List Format :=
  [.ron, .toml, .json].filter fun f => (t.held? dir (sceneName f)).isSome

/-- The path of the scene of a directory in a format. -/
def scenePath (dir : String) (f : Format) : String :=
  Path.join dir (sceneName f)

/-- What it comes to, result and report, to load a scene in a format from an
entry at a path. -/
inductive Loads (path : String) (f : Format) :
    FileEntry → Except LoadError Scene × Log → Prop
  | directory : Loads path f .directory (.error (.io .isADirectory), [])
  | notText {content : ByteArray} (hcontent : String.fromUTF8? content = none) :
      Loads path f (.file content) (.error (.io .invalidData), [])
  | malformed {content : ByteArray} {text : String}
      (hcontent : String.fromUTF8? content = some text)
      (htext : f.read? Schema.scene text = none) :
      Loads path f (.file content) (.error (.unreadable path), [])
  | scene {content : ByteArray} {text : String} {scene : Scene}
      (hcontent : String.fromUTF8? content = some text)
      (htext : f.read? Schema.scene text = some scene) :
      Loads path f (.file content)
        (.ok scene,
          [⟨.info,
            s!"loaded scene {path} with {scene.models.length} model(s)"⟩])

/-- What it comes to, result and report, to load the scene of a directory. -/
structure LoadsFrom (t : FileTree) (dir : String)
    (r : Except LoadError Scene × Log) : Prop where
  missing : t.sceneFormats dir = [] →
    r = (.error (.missingRequired "scene" dir), [])
  conflicting : ∀ f g rest, t.sceneFormats dir = f :: g :: rest →
    r = (.error (.conflictingFormats (scenePath dir f) (scenePath dir g)), [])
  only : ∀ f, t.sceneFormats dir = [f] → r = t.loadScene (scenePath dir f) ∧
    ∃ e, t.held? dir (sceneName f) = some e ∧ Loads (scenePath dir f) f e r
  supported : ∀ path, r.1 ≠ .error (.unsupportedFormat path)
  silent : ∀ e, r.1 = .error e → r.2 = []

theorem Loads.supported {path : String} {f : Format} {e : FileEntry}
    {r : Except LoadError Scene × Log} (h : Loads path f e r) (other : String) :
    r.1 ≠ .error (.unsupportedFormat other) := by
  cases h <;> simp

/-- What is loaded from an entry is determined by it. -/
theorem Loads.unique {path : String} {f : Format} {e : FileEntry}
    {r s : Except LoadError Scene × Log} (hr : Loads path f e r)
    (hs : Loads path f e s) :
    r = s := by
  cases hr <;> cases hs <;> simp_all

/-! ## Searching -/

theorem isFileName_sceneName (f : Format) : Path.IsFileName (sceneName f) := by
  cases f <;> decide

theorem candidate_sceneFile (dir : String) (f : Format) :
    candidate dir sceneFile f = scenePath dir f := by
  cases f <;> rfl

theorem resolve_scenePath (t : FileTree) (dir : String) (f : Format) :
    (t.resolve (scenePath dir f)).toOption = t.held? dir (sceneName f) := by
  refine resolve_join (isFileName_sceneName f) ?_ t dir ?_
  · cases f <;> decide
  · cases f <;> decide

theorem contains_scenePath (t : FileTree) (dir : String) (f : Format) :
    t.contains (scenePath dir f) = (t.held? dir (sceneName f)).isSome := by
  rw [← resolve_scenePath]
  unfold contains
  cases t.resolve (scenePath dir f) <;> rfl

/-- A search is not affected by formats that are not there. -/
theorem findAmong_filter (t : FileTree) (dir base : String)
    (found : Option String) (formats : List Format) :
    t.findAmong dir base found
      (formats.filter fun f => t.contains (candidate dir base f)) =
      t.findAmong dir base found formats := by
  induction formats generalizing found with
  | nil => rfl
  | cons f rest ih =>
      by_cases hf : t.contains (candidate dir base f) = true
      · rw [List.filter_cons_of_pos (by simpa using hf)]
        cases found <;> simp [findAmong, hf, ih]
      · rw [List.filter_cons_of_neg (by simpa using hf)]
        simp [findAmong, hf, ih]

theorem find_sceneFile (t : FileTree) (dir : String) :
    t.find dir sceneFile =
      t.findAmong dir sceneFile none (t.sceneFormats dir) := by
  unfold find
  rw [← findAmong_filter]
  have hfilter :
      (Format.all.filter fun f => t.contains (candidate dir sceneFile f)) =
      t.sceneFormats dir := by
    unfold sceneFormats
    refine List.filter_congr fun f _ => ?_
    rw [candidate_sceneFile, contains_scenePath]
  rw [hfilter]

section Found

variable {t : FileTree} {dir : String}

theorem exists_held?_of_mem_sceneFormats {f : Format}
    (h : f ∈ t.sceneFormats dir) :
    ∃ e, t.held? dir (sceneName f) = some e :=
  Option.isSome_iff_exists.1 (List.mem_filter.1 h).2

theorem contains_of_mem_sceneFormats {f : Format} (h : f ∈ t.sceneFormats dir) :
    t.contains (scenePath dir f) = true := by
  rw [contains_scenePath]
  exact (List.mem_filter.1 h).2

theorem loadSceneDir_of_none (h : t.sceneFormats dir = []) :
    t.loadSceneDir dir = (.error (.missingRequired "scene" dir), []) := by
  have hfind : t.find dir sceneFile = .ok none := by
    rw [find_sceneFile, h]
    rfl
  unfold loadSceneDir require
  rw [hfind]
  rfl

theorem loadSceneDir_of_only {f : Format} (h : t.sceneFormats dir = [f]) :
    t.loadSceneDir dir = t.loadScene (scenePath dir f) := by
  have hf : t.contains (scenePath dir f) = true :=
    contains_of_mem_sceneFormats (h ▸ List.mem_singleton_self f)
  have hfind : t.find dir sceneFile = .ok (some (scenePath dir f)) := by
    rw [find_sceneFile, h]
    simp [findAmong, candidate_sceneFile, hf]
  unfold loadSceneDir require
  rw [hfind]

theorem loadSceneDir_of_conflict {f g : Format} {rest : List Format}
    (h : t.sceneFormats dir = f :: g :: rest) :
    t.loadSceneDir dir =
      (.error (.conflictingFormats (scenePath dir f) (scenePath dir g)),
        []) := by
  have hf : t.contains (scenePath dir f) = true :=
    contains_of_mem_sceneFormats (h ▸ List.mem_cons_self)
  have hg : t.contains (scenePath dir g) = true :=
    contains_of_mem_sceneFormats (h ▸ List.mem_cons_of_mem f List.mem_cons_self)
  have hfind : t.find dir sceneFile =
      .error (.conflictingFormats (scenePath dir f) (scenePath dir g)) := by
    rw [find_sceneFile, h]
    simp [findAmong, candidate_sceneFile, hf, hg]
  unfold loadSceneDir require
  rw [hfind]

end Found

/-! ## Loading -/

theorem detectFormat_scenePath (dir : String) (f : Format) :
    detectFormat (scenePath dir f) = .ok f := by
  have hextension : (Path.extensionOf? (sceneName f).toList).map String.ofList =
      some f.extension := by
    cases f <;> decide
  unfold detectFormat scenePath
  rw [Path.extension?_join (isFileName_sceneName f), hextension,
    Option.bind_some, Format.ofExtension?_extension]

theorem resolve_of_held? {t : FileTree} {dir : String} {f : Format}
    {e : FileEntry} (h : t.held? dir (sceneName f) = some e) :
    t.resolve (scenePath dir f) = .ok e := by
  rw [← resolve_scenePath] at h
  cases hresolve : t.resolve (scenePath dir f) with
  | error cause => simp [hresolve, Except.toOption] at h
  | ok found => simpa [hresolve, Except.toOption] using h

theorem loads_of_held? {t : FileTree} {dir : String} {f : Format}
    {e : FileEntry} (h : t.held? dir (sceneName f) = some e) :
    Loads (scenePath dir f) f e (t.loadScene (scenePath dir f)) := by
  have hresolve := resolve_of_held? h
  cases e with
  | directory =>
      have hload : t.loadScene (scenePath dir f) =
          (.error (.io .isADirectory), []) := by
        simp [loadScene, read, readText, detectFormat_scenePath, hresolve]
      exact hload ▸ .directory
  | file content =>
      cases hcontent : String.fromUTF8? content with
      | none =>
          have hload : t.loadScene (scenePath dir f) =
              (.error (.io .invalidData), []) := by
            simp [loadScene, read, readText, detectFormat_scenePath,
              hresolve, hcontent]
          exact hload ▸ .notText hcontent
      | some text =>
          have hread : t.read Schema.scene (scenePath dir f) =
              parseText Schema.scene f text (scenePath dir f) := by
            simp [read, readText, detectFormat_scenePath, hresolve, hcontent]
          unfold loadScene
          rw [hread]
          unfold parseText
          cases htext : f.read? Schema.scene text with
          | none => exact .malformed hcontent htext
          | some scene => exact .scene hcontent htext

/-- Loading the scene of a directory comes to what its entries under the names
of scenes decide, for every tree and every way to write the path of the
directory. -/
theorem loadsFrom_of_loadSceneDir (t : FileTree) (dir : String) :
    t.LoadsFrom dir (t.loadSceneDir dir) where
  missing := loadSceneDir_of_none
  conflicting _ _ _ := loadSceneDir_of_conflict
  only f hf := by
    have hmem : f ∈ t.sceneFormats dir := hf ▸ List.mem_singleton_self f
    obtain ⟨e, he⟩ := exists_held?_of_mem_sceneFormats hmem
    have hload := loadSceneDir_of_only hf
    exact ⟨hload, e, he, hload ▸ loads_of_held? he⟩
  supported path := by
    cases hformats : t.sceneFormats dir with
    | nil => simp [loadSceneDir_of_none hformats]
    | cons f rest =>
        cases rest with
        | nil =>
            have hmem : f ∈ t.sceneFormats dir :=
              hformats ▸ List.mem_singleton_self f
            obtain ⟨e, he⟩ := exists_held?_of_mem_sceneFormats hmem
            rw [loadSceneDir_of_only hformats]
            exact (loads_of_held? he).supported path
        | cons g rest => simp [loadSceneDir_of_conflict hformats]
  silent _ := load_log_of_error

/-- A place without a scene, a directory with two that cannot be read, one with
a directory under the name of a scene, and one with a scene, reached in a
roundabout way. -/
theorem loadsFrom_of_four_directories :
    let text := "\x7b\"models\":[\x7b\"name\":\"cart\"\x7d]\x7d"
    let t :=
      (((({} : FileTree).add "lab/scene.json" (.file text.toUTF8)).add
        "den/scene.json" .directory).add
        "den/scene.ron" (.file ⟨#[255]⟩)).add
        "hall/scene.toml" .directory
    (t.sceneFormats "lab/scene.json" = [] ∧ t.loadSceneDir "lab/scene.json" =
      (.error (.missingRequired "scene" "lab/scene.json"), [])) ∧
    (t.sceneFormats "den/" = [.ron, .json] ∧ t.loadSceneDir "den/" =
      (.error (.conflictingFormats "den/scene.ron" "den/scene.json"), [])) ∧
    (t.sceneFormats "hall" = [.toml] ∧
      t.loadSceneDir "hall" = (.error (.io .isADirectory), [])) ∧
    (t.sceneFormats "hall/../lab" = [.json] ∧ t.loadSceneDir "hall/../lab" =
      (.ok ⟨[{ name := "cart" }]⟩,
        [⟨.info, "loaded scene hall/../lab/scene.json with 1 model(s)"⟩])) := by
  intro text t
  have hmissing : t.sceneFormats "lab/scene.json" = [] := by decide +kernel
  have hconflict : t.sceneFormats "den/" = [.ron, .json] := by decide +kernel
  have hdirectory : t.sceneFormats "hall" = [.toml] := by decide +kernel
  have hscene : t.sceneFormats "hall/../lab" = [.json] := by decide +kernel
  refine ⟨⟨hmissing,
    (t.loadsFrom_of_loadSceneDir "lab/scene.json").missing hmissing⟩,
    ⟨hconflict,
      (t.loadsFrom_of_loadSceneDir "den/").conflicting _ _ _ hconflict⟩,
    ⟨hdirectory, ?_⟩, ⟨hscene, ?_⟩⟩
  · obtain ⟨-, e, he, hloads⟩ :=
      (t.loadsFrom_of_loadSceneDir "hall").only _ hdirectory
    have hentry : t.held? "hall" "scene.toml" = some .directory := by rfl
    cases hentry.symm.trans he
    exact hloads.unique .directory
  · obtain ⟨-, e, he, hloads⟩ :=
      (t.loadsFrom_of_loadSceneDir "hall/../lab").only _ hscene
    have hentry : t.held? "hall/../lab" "scene.json" =
        some (.file text.toUTF8) := by rfl
    cases hentry.symm.trans he
    have hcontent : String.fromUTF8? text.toUTF8 = some text := by
      decide +kernel
    have htext : Format.json.read? Schema.scene text =
        some ⟨[{ name := "cart" }]⟩ := by
      decide +kernel
    exact hloads.unique (.scene hcontent htext)

end FileTree

end Linkage
