import Linkage.Element
import Linkage.Proofs.Text.Trimming
import Mathlib.Data.List.Induction

/-!
# Parameters that are read back

Parameters are written one after the other, each as text, and read by type. Of
the writes under a key the last one counts, and no other write makes a
difference, neither to what is read nor to the element as a whole. A truth
value, an integer or a text is read back as what was written, except that an
integer has to fit the type that is asked for and that a text loses the blanks
at its ends. Blanks around a truth value or an integer make no difference.

What cannot be read is reported with the text as it was written. A default
stands in for an absent parameter only.

## Main results

* `Element.text?_writing`: the text under a key is that of the value written
  last.
* `Element.writing_eq_of_lastOf`: the last writes determine the element.
* `Element.read_of_entered`: blanks around a value make no difference to a
  reader.
* `Element.readsBack_of_writes`: what is read back of the parameters written.
-/

namespace Linkage

namespace SortedMap

section Writes

variable {α : Type} {key : String}

/-- The value that was written last under a key. -/
def lastOf (key : String) (writes : List (String × α)) : Option α :=
  (writes.filter (·.1 = key)).getLast?.map (·.2)

theorem lastOf_concat (key : String) (writes : List (String × α))
    (w : String × α) :
    lastOf key (writes ++ [w]) = if key = w.1 then some w.2
    else lastOf key writes := by
  unfold lastOf
  by_cases h : key = w.1
  · simp [List.filter_append, h]
  · have h' : ¬ w.1 = key := fun heq => h heq.symm
    simp [List.filter_append, h, h']

/-- A write under another key is not the last one. -/
theorem lastOf_apart {other : String}
    (before after : List (String × α)) (value : α) (h : other ≠ key) :
    lastOf other (before ++ (key, value) :: after) =
      lastOf other (before ++ after) := by
  have hkey : ¬ key = other := fun heq => h heq.symm
  simp [lastOf, List.filter_append, hkey]

theorem lastOf_cons (key : String) (w : String × α)
    (writes : List (String × α)) :
    lastOf key (w :: writes) =
      (lastOf key writes).or (if w.1 = key then some w.2 else none) := by
  unfold lastOf
  by_cases h : w.1 = key
  · cases hlast : (writes.filter (·.1 = key)).getLast? <;>
      simp [h, List.getLast?_cons, hlast]
  · simp [h]

/-- A table keeps the last write under each key. -/
theorem get?_ofList_eq_lastOf (key : String) (writes : List (String × α)) :
    (ofList writes).get? key = lastOf key writes := by
  induction writes using List.reverseRecOn with
  | nil => rfl
  | append_singleton writes w ih =>
      rw [ofList_concat, get?_insert, lastOf_concat, ih]

end Writes

end SortedMap

namespace Element

open SortedMap Text

/-- The element of a name with parameters written one after the other. -/
def writing (name : String) (writes : List (String × Scalar)) : Element :=
  writes.foldl (fun e w => e.withParam w.1 w.2) { name }

/-- A value stands under a key, by a raw text: it was written last, or its text
was, with blanks around it. -/
inductive Entered (writes : List (String × Scalar)) (key : String)
    (value : Scalar) :
    String → Prop
  | plain (last : lastOf key writes = some value) :
      Entered writes key value value.display
  | padded {front back : String}
      (last : lastOf key writes = some (.text (front ++ value.display ++ back)))
      (hfront : ∀ c ∈ front.toList, isBlank c = true)
      (hback : ∀ c ∈ back.toList, isBlank c = true) :
      Entered writes key value (front ++ value.display ++ back)

/-- What is read back of the parameters that were written. -/
structure ReadsBack (name : String) (writes : List (String × Scalar)) :
    Prop where
  /-- The last write under a key is kept. -/
  text : ∀ key, (writing name writes).text? key =
    (lastOf key writes).map Scalar.display
  /-- A write is not seen under another key. -/
  apart : ∀ before key value after other,
    writes = before ++ (key, value) :: after →
    other ≠ key → (writing name writes).text? other =
      (writing name (before ++ after)).text? other
  /-- The last writes determine the element. -/
  same : ∀ others, (∀ key, lastOf key others = lastOf key writes) →
    writing name others = writing name writes
  /-- A truth value is read back. -/
  flag : ∀ key b raw, Entered writes key (.flag b) raw →
    (writing name writes).get key .flag = .ok (some (.flag b))
  /-- An integer is read back as a type that it fits. -/
  integer : ∀ key n raw, Entered writes key (.integer n) raw →
    ∀ t : IntegerType,
    t.lower ≤ n → n < t.bound →
      (writing name writes).get key (.integer t) = .ok (some (.integer n))
  /-- An integer is not read as a type that it does not fit. -/
  misfit : ∀ key n raw, Entered writes key (.integer n) raw → ∀ t : IntegerType,
    ¬ (t.lower ≤ n ∧ n < t.bound) →
      (writing name writes).get key (.integer t) = .error ⟨name, key, raw⟩
  /-- A text is read back without the blanks at its ends. -/
  string : ∀ key s t, lastOf key writes = some (.text s) → Trims s.toList t →
    (writing name writes).get key .text = .ok (some (.text (String.ofList t)))
  /-- What cannot be read is reported with the text as it was written. -/
  unreadable : ∀ {α : Type} (reader : List Char → Option α) key error,
    (writing name writes).read reader key = .error error →
      ∃ raw, (writing name writes).text? key = some raw ∧
        error = ⟨name, key, raw⟩
  /-- A default stands in for an absent parameter. -/
  absent : ∀ {α : Type} (reader : List Char → Option α) key default,
    (writing name writes).text? key = none →
      (writing name writes).readOr reader key default = .ok default
  /-- No default stands in for a parameter that is there. -/
  present : ∀ {α : Type} (reader : List Char → Option α) key,
    (writing name writes).text? key ≠ none →
      ∃ found, (writing name writes).read reader key = found.map some ∧
        ∀ default, (writing name writes).readOr reader key default = found

/-! ## The last write counts -/

section Writes

variable {name : String} {writes : List (String × Scalar)}

theorem writing_concat (name : String) (writes : List (String × Scalar))
    (w : String × Scalar) :
    writing name (writes ++ [w]) = (writing name writes).withParam w.1 w.2 := by
  rw [writing, List.foldl_append, List.foldl_cons, List.foldl_nil, writing]

theorem text?_writing (name key : String) (writes : List (String × Scalar)) :
    (writing name writes).text? key =
      (lastOf key writes).map Scalar.display := by
  induction writes using List.reverseRecOn with
  | nil => rfl
  | append_singleton writes w ih =>
      rw [writing_concat, text?_withParam, lastOf_concat, ih]
      split <;> rfl

@[simp] theorem name_writing (name : String) (writes : List (String × Scalar)) :
    (writing name writes).name = name := by
  induction writes using List.reverseRecOn with
  | nil => rfl
  | append_singleton writes w ih => rw [writing_concat]; exact ih

@[simp] theorem children_writing (name : String)
    (writes : List (String × Scalar)) :
    (writing name writes).children = [] := by
  induction writes using List.reverseRecOn with
  | nil => rfl
  | append_singleton writes w ih => rw [writing_concat]; exact ih

/-- Elements with the same name, the same children and the same texts are the
same. -/
theorem eq_of_text? {e f : Element} (hname : e.name = f.name)
    (htext : ∀ key, e.text? key = f.text? key)
    (hchildren : e.children = f.children) : e = f := by
  obtain ⟨n, p, c⟩ := e
  obtain ⟨m, q, d⟩ := f
  cases hname
  cases hchildren
  cases SortedMap.ext_get? htext
  rfl

/-- The last writes determine the element. -/
theorem writing_eq_of_lastOf {others : List (String × Scalar)}
    (h : ∀ key, lastOf key others = lastOf key writes) :
    writing name others = writing name writes := by
  refine eq_of_text? ?_ (fun key => ?_) ?_
  · rw [name_writing, name_writing]
  · rw [text?_writing, text?_writing, h]
  · rw [children_writing, children_writing]

end Writes

/-! ## Reading -/

/-- What a text is read as, or that it cannot be read. -/
theorem read_of_text? {α : Type} (reader : List Char → Option α) {e : Element}
    {key raw : String} (h : e.text? key = some raw) :
    e.read reader key =
      ((reader (trim raw.toList)).elim (.error ⟨e.name, key, raw⟩) fun a =>
        .ok (some a)) := by
  unfold read
  simp only [h]
  cases reader (trim raw.toList) <;> rfl

/-- What cannot be read is reported with the text as it was written. -/
theorem text?_of_read_eq_error {α : Type}
    {reader : List Char → Option α} {e : Element} {key : String}
    {error : UnreadableParameter} (h : e.read reader key = .error error) :
    ∃ raw, e.text? key = some raw ∧ error = ⟨e.name, key, raw⟩ := by
  cases htext : e.text? key with
  | none =>
      rw [(read_eq_none_iff reader e key).2 htext] at h
      cases h
  | some raw =>
      rw [read_of_text? reader htext] at h
      refine ⟨raw, rfl, ?_⟩
      cases hread : reader (trim raw.toList) with
      | none => rw [hread] at h; cases h; rfl
      | some a => rw [hread] at h; cases h

theorem readOr_of_absent {α : Type} (reader : List Char → Option α)
    {e : Element} {key : String} (default : α) (h : e.text? key = none) :
    e.readOr reader key default = .ok default := by
  unfold readOr
  rw [(read_eq_none_iff reader e key).2 h]
  rfl

/-- A parameter that is there is read in one way, whatever the default. -/
theorem exists_readOr_of_present {α : Type}
    (reader : List Char → Option α) {e : Element} {key : String}
    (h : e.text? key ≠ none) :
    ∃ found, e.read reader key = found.map some ∧
      ∀ default, e.readOr reader key default = found := by
  obtain ⟨raw, hraw⟩ := Option.ne_none_iff_exists'.1 h
  refine ⟨(reader (trim raw.toList)).elim (.error ⟨e.name, key, raw⟩) .ok, ?_,
    fun default => ?_⟩
  · rw [read_of_text? reader hraw]
    cases reader (trim raw.toList) <;> rfl
  · unfold readOr
    rw [read_of_text? reader hraw]
    cases reader (trim raw.toList) <;> rfl

theorem isBlank_eq_false_of_isDecimal {c : Char}
    (h : Digits.isDecimal c = true) :
    isBlank c = false := by
  have hbounds := Digits.toNat_of_isDecimal h
  simp only [isBlank, Bool.or_eq_false_iff, Bool.and_eq_false_iff,
    decide_eq_false_iff_not, beq_eq_false_iff_ne]
  omega

theorem not_blank_decimalText {n : Int} :
    ∀ c ∈ decimalText n, isBlank c = false := by
  have hdigits : ∀ m, ∀ c ∈ Nat.toDigits 10 m,
      isBlank c = false := fun m c hc =>
    isBlank_eq_false_of_isDecimal (Digits.isDecimal_of_mem_toDigits hc)
  cases n with
  | ofNat m => exact hdigits m
  | negSucc m => exact List.forall_mem_cons.2 ⟨by decide, hdigits (m + 1)⟩

theorem trim_decimalText (n : Int) : trim (decimalText n) = decimalText n :=
  trim_eq_self (fun c hc => not_blank_decimalText c (List.mem_of_mem_head? hc))
    fun c hc => not_blank_decimalText c (List.mem_of_mem_getLast? hc)

/-- Where the decimal text of an integer is kept, the integer is read as each
type that it fits. -/
theorem get_integer_of_text? {e : Element} {key raw : String} {n : Int}
    (h : e.text? key = some raw) (htrim : trim raw.toList = decimalText n)
    (t : IntegerType) :
    e.get key (.integer t) =
      if t.fits n then .ok (some (.integer n)) else
          .error ⟨e.name, key, raw⟩ := by
  unfold get
  rw [read_of_text? _ h, htrim, ScalarType.read?, IntegerType.read?_decimalText]
  split <;> rfl

/-- A value whose text holds no blank. -/
def Solid (value : Scalar) : Prop :=
  ∀ c ∈ value.display.toList, isBlank c = false

instance (value : Scalar) : Decidable (Solid value) := List.decidableBAll _ _

theorem solid_flag (b : Bool) : Solid (.flag b) := by
  cases b <;> decide

theorem solid_integer (n : Int) : Solid (.integer n) := fun c hc =>
  not_blank_decimalText c (by simpa [Scalar.display] using hc)

section Entered

variable {name key raw : String} {writes : List (String × Scalar)}
  {value : Scalar}

theorem Entered.text? (h : Entered writes key value raw) :
    (writing name writes).text? key = some raw := by
  rw [text?_writing]
  cases h with
  | plain last => rw [last]; rfl
  | padded last _ _ => rw [last]; rfl

theorem Entered.trim (h : Entered writes key value raw) (hsolid : Solid value) :
    trim raw.toList = value.display.toList := by
  have hhead : ∀ c ∈ value.display.toList.head?,
      isBlank c = false := fun c hc =>
    hsolid c (List.mem_of_mem_head? hc)
  have hlast : ∀ c ∈ value.display.toList.getLast?,
      isBlank c = false := fun c hc =>
    hsolid c (List.mem_of_mem_getLast? hc)
  cases h with
  | plain last => exact trim_eq_self hhead hlast
  | padded last hfront hback =>
      exact trim_eq_of_trims
        ⟨⟨_, _, by simp [String.toList_append], hfront, hback⟩, hhead, hlast⟩

/-- Blanks around a value make no difference to a reader, except for the text
that it reports. -/
theorem read_of_entered {α : Type} (reader : List Char → Option α)
    (h : Entered writes key value raw) (hsolid : Solid value) :
    (writing name writes).read reader key =
      ((reader value.display.toList).elim (.error ⟨name, key, raw⟩) fun a =>
        .ok (some a)) := by
  rw [read_of_text? reader h.text?, h.trim hsolid, name_writing]

theorem get_of_entered_integer {n : Int}
    (h : Entered writes key (.integer n) raw) (t : IntegerType) :
    (writing name writes).get key (.integer t) =
      if t.fits n then .ok (some (.integer n)) else
          .error ⟨name, key, raw⟩ := by
  have htrim : Text.trim raw.toList = decimalText n := by
    rw [h.trim (solid_integer n), Scalar.display, String.toList_ofList]
  rw [get_integer_of_text? h.text? htrim, name_writing]

end Entered

/-- Whatever parameters were written, of every kind and in any order, each is
read back as it was written last. -/
theorem readsBack_of_writes (name : String) (writes : List (String × Scalar)) :
    ReadsBack name writes := by
  refine { text := fun key => text?_writing name key writes
           same := fun others => writing_eq_of_lastOf
           apart := ?_, flag := ?_, integer := ?_, misfit := ?_, string := ?_,
           unreadable := ?_
           absent := fun reader key default => readOr_of_absent reader default
           present := fun reader key => exists_readOr_of_present reader }
  · rintro before key value after other rfl hother
    rw [text?_writing, text?_writing, lastOf_apart before after value hother]
  · intro key b raw h
    have hread : ScalarType.read? .flag (Scalar.display (.flag b)).toList =
        some (.flag b) := by
      simp [ScalarType.read?, Scalar.display, ScalarType.readFlag?_flagText]
    unfold get
    rw [read_of_entered _ h (solid_flag b), hread]
    rfl
  · intro key n raw h t hlower hbound
    rw [get_of_entered_integer h, if_pos ((t.fits_iff n).2 ⟨hlower, hbound⟩)]
  · intro key n raw h t hmisfit
    rw [get_of_entered_integer h,
      if_neg fun hfit => hmisfit ((t.fits_iff n).1 hfit)]
  · intro key s t h htrims
    have htext : (writing name writes).text? key = some s := by
      rw [text?_writing, h]
      rfl
    unfold get
    rw [read_of_text? _ htext, trim_eq_of_trims htrims]
    rfl
  · intro α reader key error herror
    obtain ⟨raw, htext, rfl⟩ := text?_of_read_eq_error herror
    exact ⟨raw, htext, by rw [name_writing]⟩

end Element

end Linkage
