import Linkage.Format
import Linkage.Proofs.Format.Parameters
import Linkage.Proofs.Joint.SceneJoints
import Linkage.Proofs.Json.Completeness
import Linkage.Proofs.Number.WholeFractions

/-!
# Integers as parameters

A JSON document can give a parameter as any integer of 64 bits, signed or
unsigned. Signed ones are held as integers, kept by their decimal text and read
back. The others, from `2^63` on, are held as the nearest fraction, so what is
kept is the text of a multiple of a thousand nearby, and of a number that is no
such multiple nothing can be read back.

## Main results

* `Json.scalar_ofInteger`: an integer of 64 bits is read as a scalar.
* `Json.get?_of_parameterOf?`: where a scene has one as a parameter, it is
  declared.
* `Json.read?_loneParameter`: a scene with such a parameter is read, in every
  layout.
* `Element.get_of_decimalText`: what is read where the decimal text of an
  integer is kept.
* `integerParameter_of_range`: what becomes of an integer of 64 bits.
-/

namespace Linkage

/-! ## Reading -/

namespace Json

/-- A scene of one model, with one plugin, with one parameter. -/
def loneParameter (model plugin key : String) (node : Value) : Value :=
  .object [(some "models", .array [.object [(some "name", .text model),
    (some "plugins", .array [.object [(some "name", .text plugin),
      (some "params", .object [(some key, node)])]])]])]

/-- A text is read by looking at its document. -/
theorem read?_of_parse? {α : Type} {text : String} {v : Value}
    (h : parse? text = some v) (schema : Schema α) :
    Format.read? .json schema text = schema Value dialect budget v := by
  unfold Format.read?
  simp only [h, Option.bind_some]

theorem read?_loneParameter {model plugin key text : String}
    {node : Value} {x : Scalar}
    (h : Document (loneParameter model plugin key node) text)
    (hx : dialect.scalar node = some x) :
    Format.read? .json Schema.scene text =
      some ⟨[{ name := model,
               plugins := [⟨plugin, .ofList [(key, x)]⟩] }]⟩ := by
  rw [read?_of_parse? (parse?_of_document h)]
  simp [loneParameter, budget, Schema.scene, Schema.model, Schema.plugin,
    Schema.fields, Schema.required, Schema.optional, Schema.list, Schema.table,
    Schema.text, Schema.scalar,
    Fields.field?, Fields.wellFormed, hx]

theorem scalar_ofInteger {n : Int} (hlow : -(twoTo 63 : Nat) ≤ n)
    (hhigh : n < (twoTo 64 : Nat)) :
    dialect.scalar (.number (.ofInteger n)) = some (.ofInteger n) := by
  have hnumber := Literal.number?_ofInteger hlow hhigh
  have hscalar : dialect.scalar (.number (.ofInteger n)) =
      (Literal.ofInteger n).number?.map Number.scalar := rfl
  rw [hscalar, hnumber]
  rfl

/-- Wherever a scene has an integer as a parameter, it is declared for the
plugin. -/
theorem get?_of_parameterOf? {n : Int} (hlow : -(twoTo 63 : Nat) ≤ n)
    (hhigh : n < (twoTo 64 : Nat)) {text key : String} {v : Value}
    {scene : Scene} {i j : Nat} (hparse : parse? text = some v)
    (hnode : dialect.parameterOf? v i j key = some (.number (.ofInteger n)))
    (hread : Format.read? .json Schema.scene text = some scene) :
    ∃ m p, scene.models[i]? = some m ∧ m.plugins[j]? = some p ∧
      p.params.get? key = some (.ofInteger n) := by
  rw [read?_of_parse? hparse] at hread
  obtain ⟨m, p, x, hm, hp, hx, hget⟩ := Schema.parameter_of_scene hread hnode
  rw [scalar_ofInteger hlow hhigh] at hx
  cases hx
  exact ⟨m, p, hm, hp, hget⟩

end Json

/-! ## Keeping -/

namespace Element

/-- An integer is kept under a key: by its decimal text, from which it is read
back as each type that it fits. -/
structure Keeps (e : Element) (key : String) (n : Int) : Prop where
  text : e.text? key = some (String.ofList (decimalText n))
  read : ∀ t : IntegerType, t.lower ≤ n → n < t.bound →
    e.get key (.integer t) = .ok (some (.integer n))

/-- Another integer is kept in the place of a large one: a multiple of a
thousand nearby. -/
structure Rounds (e : Element) (key : String) (n : Int) (c : Nat) : Prop where
  text : e.text? key = some (String.ofList (decimalText c))
  thousands : 1000 ∣ c
  near : c ≤ n + 3072 ∧ n ≤ c + 2048

variable {e : Element} {key : String} {n : Int}

theorem get_of_decimalText
    (h : e.text? key = some (String.ofList (decimalText n))) (t : IntegerType) :
    e.get key (.integer t) =
      if t.fits n then .ok (some (.integer n))
      else .error ⟨e.name, key, String.ofList (decimalText n)⟩ :=
  get_integer_of_text? h (by rw [String.toList_ofList, trim_decimalText]) t

theorem keeps_of_text?
    (h : e.text? key = some (String.ofList (decimalText n))) :
    e.Keeps key n where
  text := h
  read t hlower hbound := by
    rw [get_of_decimalText h, if_pos ((t.fits_iff n).2 ⟨hlower, hbound⟩)]

/-- What is kept in the place of a number that is no multiple of a thousand is
not read as that number. -/
theorem Rounds.get_ne {c : Nat} (h : e.Rounds key n c) (hn : ¬ (1000 : Int) ∣ n)
    (t : IntegerType) : e.get key (.integer t) ≠ .ok (some (.integer n)) := by
  rw [get_of_decimalText h.text]
  intro hget
  split at hget
  · cases hget
    exact hn (Int.natCast_dvd_natCast.2 h.thousands)
  · cases hget

end Element

/-! ## What becomes of an integer -/

/-- What becomes of an integer that a JSON document gives a parameter as. -/
structure IntegerParameter (n : Int) : Prop where
  /-- The integer is written by its decimal text. -/
  written : Json.SpellsNumber (.ofInteger n) (decimalText n)
  /-- Wherever a scene that is read has it as a parameter, it is declared for
  the plugin. -/
  declared : ∀ text v scene i j key, Json.parse? text = some v →
    Json.dialect.parameterOf? v i j key = some (.number (.ofInteger n)) →
      Format.read? .json Schema.scene text = some scene →
        ∃ m p, scene.models[i]? = some m ∧ m.plugins[j]? = some p ∧
          p.params.get? key = some (.ofInteger n)
  /-- No scene is refused because of it: one that has just this parameter is
  read. -/
  read : ∀ text model plugin key,
    Json.Document (Json.loneParameter model plugin key
      (.number (.ofInteger n))) text →
      Format.read? .json Schema.scene text =
        some ⟨[{ name := model,
                 plugins := [⟨plugin, .ofList [(key, .ofInteger n)]⟩] }]⟩
  /-- A signed integer is kept. -/
  kept : n < (twoTo 63 : Nat) → ∀ (p : PluginDecl) key,
    p.params.get? key = some (.ofInteger n) → p.toElement.Keeps key n
  /-- Any other is rounded. -/
  rounded : (twoTo 63 : Nat) ≤ n → ∃ c, ∀ (p : PluginDecl) key,
    p.params.get? key = some (.ofInteger n) → p.toElement.Rounds key n c
  /-- So it is lost, unless it is a multiple of a thousand. -/
  lost : (twoTo 63 : Nat) ≤ n → ¬ (1000 : Int) ∣ n → ∀ (p : PluginDecl) key,
    p.params.get? key = some (.ofInteger n) →
      p.toElement.get key (.integer .u64) ≠ .ok (some (.integer n))

/-- The rounded integer depends on the number alone. -/
theorem exists_rounds {n : Int} (hlow : (twoTo 63 : Nat) ≤ n)
    (hhigh : n < (twoTo 64 : Nat)) :
    ∃ c, ∀ (p : PluginDecl) key, p.params.get? key = some (.ofInteger n) →
      p.toElement.Rounds key n c := by
  obtain ⟨m, rfl⟩ : ∃ m : Nat, n = m := ⟨n.toNat, by omega⟩
  obtain ⟨c, hc, hdvd, hupper, hlower⟩ :=
    Binary64.display_ofNat_upper (Int.ofNat_le.1 hlow) (Int.ofNat_lt.1 hhigh)
  refine ⟨c, fun p key hget => ⟨?_, hdvd, by omega, by omega⟩⟩
  have hdisplay : (Scalar.ofInteger m).display =
      String.ofList (decimalText c) := by
    have hheld : Scalar.ofInteger m = .fraction (Binary64.ofNat false m) :=
      if_neg (by omega)
    rw [hheld]
    exact hc
  rw [PluginDecl.text?_toElement_of_get? hget, hdisplay]

/-- Of the integers that a document can give a parameter as, every signed one of
64 bits is kept by its decimal text and read back; from `2^63` on a multiple of
a thousand nearby is kept instead. -/
theorem integerParameter_of_range {n : Int} (hlow : -(twoTo 63 : Nat) ≤ n)
    (hhigh : n < (twoTo 64 : Nat)) : IntegerParameter n where
  written := Json.spellsNumber_ofInteger n
  declared text v scene i j key hparse hnode hread :=
    Json.get?_of_parameterOf? hlow hhigh hparse hnode hread
  read text model plugin key h :=
    Json.read?_loneParameter h (Json.scalar_ofInteger hlow hhigh)
  kept hsigned p key hget := by
    refine Element.keeps_of_text? ?_
    have hheld : Scalar.ofInteger n = .integer n := if_pos hsigned
    rw [PluginDecl.text?_toElement_of_get? hget, hheld]
    rfl
  rounded hlarge := exists_rounds hlarge hhigh
  lost hlarge hn p key hget := by
    obtain ⟨c, hc⟩ := exists_rounds hlarge hhigh
    exact (hc p key hget).get_ne hn .u64

/-! ## The largest integers -/

/-- A scene that has the largest signed and the largest unsigned integer as
parameters. -/
def largestText : String :=
  "\x7b\"models\":[\x7b\"name\":\"cart\",\"plugins\":[\x7b\"name\":\"weld\",\"params\":" ++
    "\x7b\"signed\":9223372036854775807,\"unsigned\":18446744073709551615\x7d\x7d]\x7d]\x7d"

/-- The document that the scene is written as. -/
def largestDocument : Json.Value :=
  .object [(some "models", .array [.object [(some "name", .text "cart"),
    (some "plugins", .array [.object [(some "name", .text "weld"),
      (some "params", .object
        [(some "signed", .number (.ofInteger 9223372036854775807)),
        (some "unsigned", .number (.ofInteger 18446744073709551615))])]])]])]

theorem parse?_largestText :
    Json.parse? largestText = some largestDocument := by
  have hblank := Json.blank_nil
  have hbare : ∀ t : String, t.toList.all Json.isBare = true →
      Json.SpellsText (some t) (t.toList ++ ['"']) :=
    fun _ h => Json.spellsText_of_bare h
  have hparams := Json.Spells.object
    (.entry hblank (hbare "signed" (by decide)) hblank hblank
      (.number (Json.spellsNumber_ofInteger 9223372036854775807)) hblank
      (.lastEntry hblank (hbare "unsigned" (by decide)) hblank hblank
        (.number (Json.spellsNumber_ofInteger 18446744073709551615)) hblank))
  have hplugin := Json.Spells.object
    (.entry hblank (hbare "name" (by decide)) hblank hblank
      (.text (hbare "weld" (by decide))) hblank
      (.lastEntry hblank (hbare "params" (by decide)) hblank hblank
        hparams hblank))
  have hmodel := Json.Spells.object
    (.entry hblank (hbare "name" (by decide)) hblank hblank
      (.text (hbare "cart" (by decide))) hblank
      (.lastEntry hblank (hbare "plugins" (by decide)) hblank hblank
        (.array (.lastItem hblank hplugin hblank)) hblank))
  have hscene := Json.Spells.object
    (.lastEntry hblank (hbare "models" (by decide)) hblank hblank
      (.array (.lastItem hblank hmodel hblank)) hblank)
  exact Json.parse?_of_document ⟨[], _, [], hblank, hscene, hblank,
    by decide +kernel⟩

theorem exists_read?_largestText :
    ∃ scene, Format.read? .json Schema.scene largestText = some scene := by
  have hsome : (Format.read? .json Schema.scene largestText).isSome = true := by
    decide +kernel
  exact Option.isSome_iff_exists.1 hsome

theorem display_largest :
    (Scalar.ofInteger 18446744073709551615).display =
      "18446744073709552000" := by
  decide +kernel

/-- Of the largest integers of both kinds the signed one is kept and the
unsigned one is lost. -/
theorem integerParameter_of_largest :
    ∃ scene m p, Format.read? .json Schema.scene largestText = some scene ∧
      scene.models[0]? = some m ∧ m.plugins[0]? = some p ∧
      p.toElement.Keeps "signed" 9223372036854775807 ∧
      p.toElement.text? "unsigned" = some "18446744073709552000" ∧
      p.toElement.get "unsigned" (.integer .u64) ≠
        .ok (some (.integer 18446744073709551615)) := by
  obtain ⟨scene, hread⟩ := exists_read?_largestText
  have hsigned := integerParameter_of_range (n := 9223372036854775807)
    (by decide) (by decide)
  have hunsigned := integerParameter_of_range (n := 18446744073709551615)
    (by decide) (by decide)
  obtain ⟨m, p, hm, hp, hkept⟩ :=
    hsigned.declared _ _ scene 0 0 "signed" parse?_largestText rfl hread
  obtain ⟨m', p', hm', hp', hlost⟩ :=
    hunsigned.declared _ _ scene 0 0 "unsigned" parse?_largestText rfl hread
  cases hm.symm.trans hm'
  cases hp.symm.trans hp'
  refine ⟨scene, m, p, hread, hm, hp, hsigned.kept (by decide) p _ hkept, ?_,
    hunsigned.lost (by decide) (by decide) p _ hlost⟩
  rw [PluginDecl.text?_toElement_of_get? hlost, display_largest]

/-- Not every integer that a document gives a parameter as is kept by its
decimal text. -/
theorem not_kept_of_largest :
    ¬ ∀ (n : Int) (text : String) (v : Json.Value) (scene : Scene) (i j : Nat)
      (key : String)
      (m : ModelDecl) (p : PluginDecl), -(twoTo 63 : Nat) ≤ n →
        n < (twoTo 64 : Nat) →
        Json.parse? text = some v →
        Json.dialect.parameterOf? v i j key = some (.number (.ofInteger n)) →
        Format.read? .json Schema.scene text = some scene →
        scene.models[i]? = some m →
        m.plugins[j]? = some p →
        p.toElement.text? key = some (String.ofList (decimalText n)) := by
  intro hall
  obtain ⟨scene, hread⟩ := exists_read?_largestText
  have hnode : Json.dialect.parameterOf? largestDocument 0 0 "unsigned" =
      some (.number (.ofInteger 18446744073709551615)) := rfl
  obtain ⟨m, p, hm, hp, hget⟩ :=
    Json.get?_of_parameterOf? (by decide) (by decide)
      parse?_largestText hnode hread
  have htext := hall _ _ _ scene 0 0 "unsigned" m p (by decide) (by decide)
    parse?_largestText hnode hread hm hp
  rw [PluginDecl.text?_toElement_of_get? hget, display_largest] at htext
  exact absurd htext (by decide +kernel)

end Linkage
