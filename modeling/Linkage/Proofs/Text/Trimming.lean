import Linkage.Text.Blank
import Mathlib.Data.List.TakeWhile

/-!
# What a trim leaves

A trim drops the blanks at both ends of a text and nothing else. What it leaves
is determined by the text: it stands between blanks and neither begins nor ends
with one.

## Main results

* `Text.trims_iff`: the trim of a text is what stands between its blanks.
* `Text.trim_trim`: trimming leaves nothing to trim.
-/

namespace Linkage

namespace Text

/-- A text stands between blanks in another one, and has none at either end. -/
structure Trims (s t : List Char) : Prop where
  around : ∃ front back, s = front ++ t ++ back ∧
    (∀ c ∈ front, isBlank c = true) ∧
    ∀ c ∈ back, isBlank c = true
  head : ∀ c ∈ t.head?, isBlank c = false
  last : ∀ c ∈ t.getLast?, isBlank c = false

theorem not_isBlank_of_head?_trimStart (s : List Char) :
    ∀ c ∈ (trimStart s).head?, isBlank c = false := by
  intro c hc
  have hhead := List.head?_dropWhile_not isBlank s
  rw [show (s.dropWhile isBlank).head? = some c from hc] at hhead
  exact hhead

/-- What is left of a text by trimming its end is at its beginning. -/
theorem trimEnd_prefix (s : List Char) : trimEnd s <+: s := by
  have hsuffix : s.reverse.dropWhile isBlank <:+ s.reverse :=
    List.dropWhile_suffix _
  simpa [trimEnd] using List.reverse_prefix.2 hsuffix

theorem not_isBlank_of_head?_trim (s : List Char) :
    ∀ c ∈ (trim s).head?, isBlank c = false := by
  intro c hc
  obtain ⟨rest, hrest⟩ := trimEnd_prefix (trimStart s)
  refine not_isBlank_of_head?_trimStart s c ?_
  rw [← hrest, List.head?_append]
  exact Option.mem_def.2
    (by rw [show (trimEnd (trimStart s)).head? = some c from hc]; rfl)

theorem not_isBlank_of_getLast?_trim (s : List Char) :
    ∀ c ∈ (trim s).getLast?, isBlank c = false := by
  intro c hc
  refine not_isBlank_of_head?_trimStart (trimStart s).reverse c ?_
  simpa [trim, trimEnd, trimStart] using hc

/-- A text is what a drop leaves of it, with blanks in front. -/
theorem exists_trimStart (s : List Char) :
    ∃ front, s = front ++ trimStart s ∧ ∀ c ∈ front, isBlank c = true :=
  ⟨s.takeWhile isBlank, List.takeWhile_append_dropWhile.symm,
    fun _ hc => List.mem_takeWhile_imp hc⟩

theorem trims_trim (s : List Char) : Trims s (trim s) where
  around := by
    obtain ⟨front, hfront, hblank⟩ := exists_trimStart s
    obtain ⟨back, hback, hblank'⟩ := exists_trimStart (trimStart s).reverse
    refine ⟨front, back.reverse, ?_, hblank,
      fun c hc => hblank' c (List.mem_reverse.1 hc)⟩
    have hstart : trimStart s = trim s ++ back.reverse := by
      have hreverse := congrArg List.reverse hback
      rwa [List.reverse_reverse, List.reverse_append] at hreverse
    rw [List.append_assoc, ← hstart]
    exact hfront
  head := not_isBlank_of_head?_trim s
  last := not_isBlank_of_getLast?_trim s

/-- Blanks in front are dropped up to the first other character. -/
theorem trimStart_append {front s : List Char}
    (hfront : ∀ c ∈ front, isBlank c = true)
    (hs : ∀ c ∈ s.head?, isBlank c = false) : trimStart (front ++ s) = s := by
  rw [trimStart, List.dropWhile_append_of_pos hfront]
  cases s with
  | nil => rfl
  | cons c s => exact List.dropWhile_cons_of_neg (by simp [hs c rfl])

theorem trim_eq_of_trims {s t : List Char} (h : Trims s t) : trim s = t := by
  obtain ⟨⟨front, back, rfl, hfront, hback⟩, hhead, hlast⟩ := h
  have hback' : ∀ c ∈ back.reverse, isBlank c = true := fun c hc =>
    hback c (List.mem_reverse.1 hc)
  cases t with
  | nil =>
      -- nothing but blanks, which the first drop takes away altogether
      have hall : ∀ c ∈ front ++ [] ++ back, isBlank c = true := by
        simpa [or_imp, forall_and] using ⟨hfront, hback⟩
      have hstart : trimStart (front ++ [] ++ back) = [] := by
        have hdrop := trimStart_append (s := []) hall (by simp)
        rwa [List.append_nil] at hdrop
      rw [trim, hstart]
      rfl
  | cons c t =>
      have hstart : trimStart (front ++ (c :: t) ++ back) =
          (c :: t) ++ back := by
        rw [List.append_assoc]
        exact trimStart_append hfront (by simpa using hhead)
      have hend : trimStart ((c :: t) ++ back).reverse = (c :: t).reverse := by
        rw [List.reverse_append]
        exact trimStart_append hback' fun d hd =>
          hlast d (by rwa [List.head?_reverse] at hd)
      calc trim (front ++ (c :: t) ++ back)
          = (trimStart ((c :: t) ++ back).reverse).reverse := by
            rw [trim, hstart]; rfl
        _ = c :: t := by rw [hend, List.reverse_reverse]

/-- The trim of a text is what stands between its blanks. -/
theorem trims_iff {s t : List Char} : Trims s t ↔ trim s = t :=
  ⟨trim_eq_of_trims, fun h => h ▸ trims_trim s⟩

/-- Trimming leaves nothing to trim. -/
theorem trim_trim (s : List Char) : trim (trim s) = trim s :=
  trim_eq_self (not_isBlank_of_head?_trim s) (not_isBlank_of_getLast?_trim s)

end Text

end Linkage
