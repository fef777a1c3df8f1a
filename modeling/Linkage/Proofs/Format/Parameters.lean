import Linkage.Format.Schema
import Linkage.Proofs.Element.Writing
import Mathlib.Data.List.Forall2

/-!
# Where a scene has its parameters

A document of a scene has the parameters of its plugins deep inside: in a table
of a record in a list of a record in a list of a record. Whatever the format, if
the document is read, then what it has at such a place is read as well, and
stands at the same place of the scene. Of the entries of one key in a table the
last one counts.

## Main results

* `Schema.exists_of_itemOf?`: each item of a list is read.
* `Schema.get?_of_entryOf?`: the last entry of a key is what is looked up.
* `Schema.parameter_of_scene`: what a scene has as a parameter is declared for
  the plugin.
-/

namespace Linkage

namespace Dialect

variable {ν : Type} (d : Dialect ν)

/-- An item of a list that a record has as a field. -/
def itemOf? (type : String) (position : Nat) (name : String) (v : ν) (i : Nat) :
    Option ν := do
  let f ← d.record type v
  let items ← d.sequence (← f.field? position name)
  items[i]?

/-- The last entry of a key in a table that a record has as a field. -/
def entryOf? (type : String) (position : Nat) (name : String) (v : ν)
    (key : String) :
    Option ν := do
  let f ← d.record type v
  let entries ← d.dictionary (← f.field? position name)
  SortedMap.lastOf key entries

/-- What a scene has as a parameter of a plugin, by the places of model and
plugin. -/
def parameterOf? (v : ν) (i j : Nat) (key : String) : Option ν := do
  let model ← d.itemOf? "SceneData" 0 "models" v i
  let plugin ← d.itemOf? "ModelData" 2 "plugins" model j
  d.entryOf? "PluginData" 1 "params" plugin key

end Dialect

namespace Schema

section Lists

variable {α β : Type}

/-- A list is gone through item by item. -/
theorem mapM_eq_some_iff {f : α → Option β} {l : List α} {r : List β} :
    l.mapM f = some r ↔ List.Forall₂ (fun a b => f a = some b) l r := by
  induction l generalizing r with
  | nil => simp [eq_comm]
  | cons a l ih =>
      rw [List.mapM_cons, List.forall₂_cons_left_iff]
      simp only [Option.bind_eq_bind, Option.bind_eq_some_iff, Option.pure_def,
        Option.some.injEq, ih]
      grind

theorem exists_getElem?_of_forall₂ {R : α → β → Prop} {l : List α} {r : List β}
    (h : List.Forall₂ R l r) {i : Nat} {a : α} (ha : l[i]? = some a) :
    ∃ b, r[i]? = some b ∧ R a b := by
  induction h generalizing i with
  | nil => cases ha
  | cons hab _ ih =>
      cases i with
      | zero => cases ha; exact ⟨_, rfl, hab⟩
      | succ i => exact ih ha

/-- Reading the values of a table and taking the last one of a key go
together. -/
theorem lastOf_of_forall₂ {f : α → Option β} {entries : List (String × α)}
    {values : List (String × β)}
    (h : List.Forall₂ (fun e r => (f e.2).map (fun b => (e.1, b)) =
      some r) entries values)
    (key : String) :
    (SortedMap.lastOf key entries).map f =
      (SortedMap.lastOf key values).map some := by
  induction h with
  | nil => rfl
  | cons her _ ih =>
      obtain ⟨b, hb, rfl⟩ := Option.map_eq_some_iff.1 her
      rw [SortedMap.lastOf_cons, SortedMap.lastOf_cons, Option.map_or,
        Option.map_or, ih]
      split
      · simp [hb]
      · rfl

end Lists

section Records

variable {α ν : Type} {d : Dialect ν} {item : Schema α} {budget position : Nat}
  {type name : String} {known : List String} {v w : ν} {f : Fields ν × Nat}

theorem record_of_fields (hf : fields d budget type known v = some f) :
    d.record type v = some f.1 := by
  unfold fields at hf
  cases budget with
  | zero => cases hf
  | succ rest =>
      simp only [Option.bind_eq_bind, Option.bind_eq_some_iff] at hf
      obtain ⟨g, hg, hf⟩ := hf
      split at hf
      · cases hf; exact hg
      · cases hf

/-- Each item of a list that a record has is read. -/
theorem exists_of_itemOf? (hf : fields d budget type known v = some f)
    {l : List α} (hl : optional (list item) [] d f position name = some l)
    {i : Nat} (hw : d.itemOf? type position name v i = some w) :
    ∃ rest a, l[i]? = some a ∧ item ν d rest w = some a := by
  unfold Dialect.itemOf? at hw
  rw [record_of_fields hf] at hw
  simp only [Option.bind_eq_bind, Option.bind_eq_some_iff,
    Option.bind_some] at hw
  obtain ⟨node, hnode, items, hitems, hi⟩ := hw
  simp only [optional, hnode] at hl
  cases hbudget : f.2 with
  | zero => rw [hbudget] at hl; cases hl
  | succ rest =>
      rw [hbudget, list_of_sequence item d rest hitems, mapM_eq_some_iff] at hl
      obtain ⟨a, ha, hitem⟩ := exists_getElem?_of_forall₂ hl hi
      exact ⟨rest, a, ha, hitem⟩

/-- The last entry of a key in a table that a record has is what is looked
up. -/
theorem get?_of_entryOf? (hf : fields d budget type known v = some f)
    {t : SortedMap String α}
    (ht : optional (table item) .empty d f position name = some t)
    {key : String} (hw : d.entryOf? type position name v key = some w) :
    ∃ rest a, item ν d rest w = some a ∧ t.get? key = some a := by
  unfold Dialect.entryOf? at hw
  rw [record_of_fields hf] at hw
  simp only [Option.bind_eq_bind, Option.bind_eq_some_iff,
    Option.bind_some] at hw
  obtain ⟨node, hnode, entries, hentries, hkey⟩ := hw
  simp only [optional, hnode] at ht
  cases hbudget : f.2 with
  | zero => rw [hbudget] at ht; cases ht
  | succ rest =>
      rw [hbudget] at ht
      simp only [table, hentries, Option.bind_eq_bind, Option.bind_some,
        Option.bind_eq_some_iff, mapM_eq_some_iff] at ht
      obtain ⟨values, hvalues, ht⟩ := ht
      cases ht
      have hlast := lastOf_of_forall₂ hvalues key
      rw [hkey, Option.map_some] at hlast
      obtain ⟨a, ha, hitem⟩ := Option.map_eq_some_iff.1 hlast.symm
      exact ⟨rest, a, hitem.symm, by rw [SortedMap.get?_ofList_eq_lastOf, ha]⟩

end Records

/-- What a scene has as a parameter is declared for the plugin, as the scalar
that it is. -/
theorem parameter_of_scene {ν : Type} {d : Dialect ν} {budget : Nat}
    {v : ν} {s : Scene} (h : scene ν d budget v = some s) {i j : Nat}
    {key : String} {w : ν} (hw : d.parameterOf? v i j key = some w) :
    ∃ m p x, s.models[i]? = some m ∧ m.plugins[j]? = some p ∧
      d.scalar w = some x ∧
      p.params.get? key = some x := by
  unfold Dialect.parameterOf? at hw
  simp only [Option.bind_eq_bind, Option.bind_eq_some_iff] at hw
  obtain ⟨modelNode, hmodel, pluginNode, hplugin, hparameter⟩ := hw
  simp only [scene, Option.bind_eq_bind, Option.bind_eq_some_iff,
    Option.pure_def, Option.some.injEq] at h
  obtain ⟨f, hf, models, hmodels, rfl⟩ := h
  obtain ⟨_, m, hm, hread⟩ := exists_of_itemOf? hf hmodels hmodel
  simp only [model, Option.bind_eq_bind, Option.bind_eq_some_iff,
    Option.pure_def, Option.some.injEq] at hread
  obtain ⟨f, hf, _, -, _, -, plugins, hplugins, rfl⟩ := hread
  obtain ⟨_, p, hp, hread⟩ := exists_of_itemOf? hf hplugins hplugin
  simp only [plugin, Option.bind_eq_bind, Option.bind_eq_some_iff,
    Option.pure_def, Option.some.injEq] at hread
  obtain ⟨f, hf, _, -, params, hparams, rfl⟩ := hread
  obtain ⟨_, x, hx, hget⟩ := get?_of_entryOf? hf hparams hparameter
  exact ⟨_, _, x, hm, hp, hx, hget⟩

end Schema

end Linkage
