import Linkage.Format.Json
import Linkage.Format.Ron
import Linkage.Format.Schema
import Linkage.Format.Toml

/-!
# File formats

Scene files come in three formats, told apart by the extension of the file. A
text is read in one of them by a schema.

## Main results

* `Format.ofExtension?_extension`: every format is found under its own
  extension.
-/

namespace Linkage

/-- A format that scene files are written in. -/
inductive Format
  | ron
  | toml
  | json
  deriving DecidableEq, Repr, Inhabited

namespace Format

/-- All formats, in the order in which files are looked for. -/
def all : List Format := [.ron, .toml, .json]

/-- The extension of the files of a format. -/
def extension : Format → String
  | .ron => "ron"
  | .toml => "toml"
  | .json => "json"

/-- The format of an extension. -/
def ofExtension? (ext : String) : Option Format := all.find? (·.extension = ext)

theorem ofExtension?_extension (f : Format) :
    ofExtension? f.extension = some f := by
  cases f <;> decide

/-- Read a text in a format by a schema. -/
def read? {α : Type} (f : Format) (schema : Schema α) (text : String) :
    Option α :=
  match f with
  | .ron => (Ron.parse? text).bind (schema Ron.Value Ron.dialect Ron.budget)
  | .toml =>
      (Toml.parse? text).bind fun v =>
        schema Toml.Tree Toml.dialect (Toml.depth v + 1) v
  | .json =>
      (Json.parse? text).bind (schema Json.Value Json.dialect Json.budget)

end Format

end Linkage
