import Linkage.Files.Tree

/-!
# Names in a directory

A file in a directory is reached by the path of the directory, joined with the
name of the file. However the path of the directory is written, the name becomes
the last part of the joined path: it decides the extension, and following the
joined path is following the path of the directory and looking up the name
there. So what is found is what the directory holds under the name, unless the
path of the directory has a character that no path may have, or the joined path
is too long.

## Main results

* `Path.names_join`, `Path.extension?_join`: the name is the last part of the
  joined path.
* `FileTree.follow_join`: the joined path is followed by way of the directory.
* `FileTree.resolve_join`: it leads to what the directory holds under the name.
-/

namespace Linkage

namespace Path

/-! ## Parts -/

theorem parts_ne_nil (path : List Char) : parts path ≠ [] := by
  cases path with
  | nil => simp [parts]
  | cons c rest =>
      unfold parts
      split
      · simp
      · split <;> simp

theorem parts_of_undivided {name : List Char} (h : '/' ∉ name) :
    parts name = [name] := by
  induction name with
  | nil => rfl
  | cons c rest ih =>
      rw [List.mem_cons, not_or] at h
      simp [parts, Ne.symm h.1, ih h.2]

/-- A slash separates the parts before it from those after it. -/
theorem parts_append (front back : List Char) :
    parts (front ++ '/' :: back) = parts front ++ parts back := by
  induction front with
  | nil => rfl
  | cons c rest ih =>
      by_cases hc : c = '/'
      · simp [parts, hc, ih]
      · obtain ⟨p, ps, hparts⟩ := List.exists_cons_of_ne_nil (parts_ne_nil rest)
        simp [parts, hc, ih, hparts]

/-! ## Joined paths -/

/-- A text that names a file: one part of a path, which neither stays where it
is nor leads upwards. -/
structure IsFileName (name : String) : Prop where
  undivided : '/' ∉ name.toList
  not_empty : name.toList ≠ []
  not_here : name.toList ≠ ['.']
  not_up : name.toList ≠ ['.', '.']

instance (name : String) : Decidable (IsFileName name) :=
  decidable_of_iff
    ('/' ∉ name.toList ∧ name.toList ≠ [] ∧ name.toList ≠ ['.'] ∧
      name.toList ≠ ['.', '.'])
    ⟨fun ⟨h₁, h₂, h₃, h₄⟩ => ⟨h₁, h₂, h₃, h₄⟩, fun h => ⟨h.1, h.2, h.3, h.4⟩⟩

section Joined

variable {name : String} (h : IsFileName name) (dir : String)
include h

theorem IsFileName.not_isAbsolute : isAbsolute name = false := by
  unfold isAbsolute
  rw [decide_eq_false_iff_not]
  exact fun hhead => h.undivided (List.mem_of_mem_head? hhead)

/-- The name takes the place of an empty last part, or comes after the last
part. -/
theorem parts_join :
    (∃ front, parts dir.toList = front ++ [[]] ∧
      parts (join dir name).toList = front ++ [name.toList]) ∨
    parts (join dir name).toList = parts dir.toList ++ [name.toList] := by
  have hname := parts_of_undivided h.undivided
  unfold join
  rw [if_neg (by simp [h.not_isAbsolute])]
  split
  · -- An empty path and a path that ends in a slash have an empty last part.
    next hdir =>
    left
    rcases hdir with rfl | hlast
    · exact ⟨[], rfl, by simpa using hname⟩
    · obtain ⟨front, hfront⟩ := List.getLast?_eq_some_iff.1 hlast
      refine ⟨parts front, ?_, ?_⟩
      · rw [hfront, parts_append]
        rfl
      · rw [String.toList_append, hfront, List.append_assoc,
          List.singleton_append, parts_append, hname]
  · right
    rw [String.toList_append, String.toList_append, List.append_assoc]
    show parts (dir.toList ++ '/' :: name.toList) = _
    rw [parts_append, hname]

theorem mem_toList_join {c : Char} (hc : c ≠ '/') :
    c ∈ (join dir name).toList ↔ c ∈ dir.toList ∨ c ∈ name.toList := by
  unfold join
  rw [if_neg (by simp [h.not_isAbsolute])]
  split <;> simp [hc]

theorem isAbsolute_join : isAbsolute (join dir name) = isAbsolute dir := by
  have hname := h.not_isAbsolute
  by_cases hdir : dir = ""
  · subst hdir
    simpa [join, hname, isAbsolute] using hname
  · obtain ⟨c, rest, hcons⟩ :=
      List.exists_cons_of_ne_nil (l := dir.toList) (by simpa using hdir)
    unfold join
    rw [if_neg (by simp [hname])]
    split <;> simp [isAbsolute, hcons]

theorem names_join : names (join dir name) = names dir ++ [name.toList] := by
  unfold names
  rcases parts_join h dir with ⟨front, hdir, hjoin⟩ | hjoin
  · rw [hdir, hjoin]
    simp [h.not_empty, h.not_here]
  · rw [hjoin]
    simp [h.not_empty, h.not_here]

/-- A joined path has the extension of the name. -/
theorem extension?_join :
    extension? (join dir name) =
      (extensionOf? name.toList).map String.ofList := by
  have hlast : (some name.toList).filter (· ≠ ['.', '.']) =
      some name.toList := by
    simp [Option.filter, h.not_up]
  unfold extension? fileName?
  rw [names_join h dir, List.getLast?_concat, hlast]
  rfl

end Joined

end Path

/-! ## What a directory holds -/

/-- Whether an entry is a directory. -/
def FileEntry.isDirectory : FileEntry → Bool
  | .directory => true
  | .file _ => false

namespace FileTree

/-- The place that a path is followed from. -/
def start (path : String) : Place := if Path.isAbsolute path then beyond else []

/-- The place of the directory that a path leads to. The empty path leads to
where paths start. -/
def directory? (t : FileTree) (dir : String) : Option Place :=
  (t.follow (start dir) (Path.parts dir.toList)).toOption.filter fun place =>
    (t.at? place).any FileEntry.isDirectory

/-- What the directory that a path leads to holds under a name, as far as paths
can tell. -/
def held? (t : FileTree) (dir name : String) : Option FileEntry :=
  if '\x00' ∈ dir.toList ∨ longestPath < (Path.join dir name).utf8ByteSize
    then none
  else (t.directory? dir).bind fun place => t.at? (place ++ [name.toList])

/-- Staying in a directory makes no difference to what is entered next. -/
theorem enter_of_stay (t : FileTree) (place : Place) (part : List Char) :
    ((t.enter place []).bind fun next => t.enter next part) =
      t.enter place part := by
  unfold enter
  cases hat : t.at? place with
  | none => rfl
  | some e =>
      cases e with
      | file content => rfl
      | directory =>
          show (t.enter place part) = _
          unfold enter
          rw [hat]

theorem follow_join {name : String} (h : Path.IsFileName name) (t : FileTree)
    (place : Place) (dir : String) :
    t.follow place (Path.parts (Path.join dir name).toList) =
      (t.follow place (Path.parts dir.toList)).bind fun next =>
        t.enter next name.toList := by
  have hsingle : ∀ next part, t.follow next [part] = t.enter next part := by
    intro next part
    unfold follow
    cases t.enter next part <;> rfl
  rcases Path.parts_join h dir with ⟨front, hdir, hjoin⟩ | hjoin
  · rw [hdir, hjoin, follow_append, follow_append]
    cases t.follow place front with
    | error e => rfl
    | ok next =>
        show t.follow next [name.toList] = (t.follow next [[]]).bind _
        rw [hsingle, hsingle, enter_of_stay]
  · rw [hjoin, follow_append]
    cases t.follow place (Path.parts dir.toList) with
    | error e => rfl
    | ok next => exact hsingle next name.toList

/-- A path that has a usable form leads to what is at the place where following
it ends. -/
theorem toOption_resolve (t : FileTree) {path : String}
    (hended : '\x00' ∉ path.toList) (hne : path ≠ "")
    (hshort : path.utf8ByteSize ≤ longestPath) :
    (t.resolve path).toOption =
      (t.follow (start path) (Path.parts path.toList)).toOption.bind t.at? := by
  unfold resolve start
  rw [if_neg (by simpa using hended), if_neg hne, if_neg (Nat.not_lt.2 hshort)]
  cases t.follow (if Path.isAbsolute path then beyond else [])
      (Path.parts path.toList) with
  | error e => rfl
  | ok place =>
      cases hat : t.at? place <;> simp [hat, Except.toOption]

section Held

variable {name : String} (h : Path.IsFileName name)
  (hshort : name.utf8ByteSize ≤ longestName) (t : FileTree) (dir : String)
include h hshort

/-- Only what a directory holds is entered. -/
theorem at?_of_enter (place : Place) :
    (t.enter place name.toList).toOption.bind t.at? =
      if (t.at? place).any FileEntry.isDirectory then
          t.at? (place ++ [name.toList]) else none := by
  unfold enter
  cases t.at? place with
  | none => rfl
  | some e =>
      cases e with
      | file content => rfl
      | directory =>
          simp only [h.not_empty, h.not_here, h.not_up, String.ofList_toList,
            Nat.not_lt.2 hshort]
          cases hentry : t.at? (place ++ [name.toList]) with
          | none => rfl
          | some found => exact hentry

/-- A joined path leads to what the directory holds under the name, and to
nothing else. -/
theorem resolve_join (hended : '\x00' ∉ name.toList) :
    (t.resolve (Path.join dir name)).toOption = t.held? dir name := by
  have hnul : '\x00' ∈ (Path.join dir name).toList ↔ '\x00' ∈ dir.toList := by
    rw [Path.mem_toList_join h dir (by decide), or_iff_left hended]
  have hne : Path.join dir name ≠ "" := by
    intro hempty
    have hnames := Path.names_join h dir
    rw [hempty] at hnames
    simp [Path.names, Path.parts] at hnames
  have hstart : start (Path.join dir name) = start dir := by
    unfold start
    rw [Path.isAbsolute_join h]
  unfold held?
  split
  · -- Such a path is refused before the tree is looked at.
    next hunusable =>
    unfold resolve
    rcases hunusable with hd | hl
    · rw [if_pos (by simpa [hnul] using hd)]
      rfl
    · rw [if_neg hne, if_pos hl]
      split <;> rfl
  · next husable =>
    rw [not_or, Nat.not_lt] at husable
    rw [t.toOption_resolve (mt hnul.1 husable.1) hne husable.2, hstart,
      follow_join h, directory?]
    cases t.follow (start dir) (Path.parts dir.toList) with
    | error e => rfl
    | ok place =>
        show (t.enter place name.toList).toOption.bind t.at? = _
        rw [at?_of_enter h hshort]
        cases hdirectory : (t.at? place).any FileEntry.isDirectory <;>
          simp [Except.toOption, Option.filter, hdirectory]

end Held

end FileTree

end Linkage
