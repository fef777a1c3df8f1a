import Linkage.Topic
import Mathlib.Data.List.Destutter

/-!
# What a repair leaves of a topic name

A repair deletes the reserved pair in one pass, which can bring together the
halves of another pair, and halves doubled slashes in as many passes as there
is something to halve. Said without passes: the text is cut at every occurrence
of the pair and the pieces are put together, and of every run of slashes one is
kept. A name that is valid already passes through all of it unchanged.

## Main results

* `Text.replacePair_of_pieces`: replacing a pair puts something else between the
  pieces of a text.
* `Text.exists_iterate_collapse`: collapsing is halving, repeated while a pair
  is left.
* `Text.collapse_eq_squeeze`: collapsing keeps one character of every run.
* `Topic.repairs_of_name`: what a repair makes of a name, and which names it
  leaves alone.
-/

namespace Linkage

namespace Text

variable {a b : Char}

theorem pair_prefix_iff (x y : Char) (s : List Char) :
    [a, b] <+: x :: y :: s ↔ (x == a && y == b) = true := by
  simp [@eq_comm _ a, @eq_comm _ b]

theorem hasPair_iff_infix (s : List Char) :
    hasPair a b s = true ↔ [a, b] <:+: s := by
  fun_induction hasPair a b s with
  | case1 => simp
  | case2 x => simp [List.infix_cons_iff]
  | case3 x y rest ih =>
      rw [Bool.or_eq_true, ih, ← pair_prefix_iff x y rest,
        ← List.infix_cons_iff]

/-! ## Cutting at a pair -/

/-- The pieces of a text between the occurrences of a pair: no piece holds the
pair, and with the pair between them they give the text. -/
structure Pieces (a b : Char) (s : List Char) (pieces : List (List Char)) :
    Prop where
  free : ∀ p ∈ pieces, ¬ [a, b] <:+: p
  text : [a, b].intercalate pieces = s

/-- Up to the first occurrence of a pair nothing is replaced. -/
theorem replacePair_append (hab : a ≠ b) (r : List Char) {p : List Char}
    (hp : ¬ [a, b] <:+: p) (rest : List Char) :
    replacePair a b r (p ++ a :: b :: rest) =
      p ++ (r ++ replacePair a b r rest) := by
  rw [← hasPair_iff_infix] at hp
  fun_induction hasPair a b p with
  | case1 => simp [replacePair]
  | case2 x => simp [replacePair, hab]
  | case3 x y p ih =>
      rw [Bool.or_eq_true, not_or] at hp
      have hrest := ih hp.2
      simp only [List.cons_append] at hrest ⊢
      rw [replacePair, if_neg hp.1, hrest]

theorem replacePair_of_free (r : List Char) {p : List Char}
    (hp : ¬ [a, b] <:+: p) :
    replacePair a b r p = p := by
  rw [← hasPair_iff_infix] at hp
  fun_induction hasPair a b p with
  | case1 => rfl
  | case2 x => rfl
  | case3 x y p ih =>
      rw [Bool.or_eq_true, not_or] at hp
      rw [replacePair, if_neg hp.1, ih hp.2]

/-- Replacing a pair of two different characters puts something else between the
pieces. -/
theorem replacePair_of_pieces (hab : a ≠ b) (r : List Char) {s : List Char}
    {pieces : List (List Char)} (h : Pieces a b s pieces) :
    replacePair a b r s = r.intercalate pieces := by
  obtain ⟨hfree, rfl⟩ := h
  induction pieces with
  | nil => rfl
  | cons p pieces ih =>
      have hp := hfree p (by simp)
      cases pieces with
      | nil => simpa using replacePair_of_free r hp
      | cons q pieces =>
          have hrest := ih fun p' hp' => hfree p' (List.mem_cons_of_mem _ hp')
          rw [List.intercalate_cons_cons, List.intercalate_cons_cons, ← hrest]
          simpa using replacePair_append hab r hp
            ([a, b].intercalate (q :: pieces))

/-- Deleting a pair puts the pieces together. -/
theorem intercalate_nil_eq_flatten (pieces : List (List Char)) :
    ([] : List Char).intercalate pieces = pieces.flatten := by
  induction pieces with
  | nil => rfl
  | cons p pieces ih =>
      cases pieces with
      | nil => simp
      | cons q pieces =>
          rw [List.intercalate_cons_cons, ih, List.append_nil]
          rfl

theorem pieces_nil : Pieces a b [] [[]] := ⟨by simp, rfl⟩

/-- A text that begins with the pair has an empty first piece. -/
theorem Pieces.cut {s : List Char} {pieces : List (List Char)}
    (h : Pieces a b s pieces) (hne : pieces ≠ []) :
    Pieces a b (a :: b :: s) ([] :: pieces) := by
  refine ⟨List.forall_mem_cons.2 ⟨by simp, h.free⟩, ?_⟩
  rw [List.intercalate_cons_of_ne_nil hne, h.text]
  rfl

/-- A text that does not begin with the pair has its first character in the
first piece. -/
theorem Pieces.extend {x : Char} {s p : List Char} {pieces : List (List Char)}
    (h : Pieces a b s (p :: pieces)) (hx : ¬ [a, b] <+: x :: s) :
    Pieces a b (x :: s) ((x :: p) :: pieces) := by
  have htext : [a, b].intercalate ((x :: p) :: pieces) = x :: s := by
    rw [← h.text]
    cases pieces <;> simp
  refine ⟨List.forall_mem_cons.2 ⟨?_,
    fun q hq => h.free q (List.mem_cons_of_mem _ hq)⟩, htext⟩
  rw [List.infix_cons_iff, not_or]
  refine ⟨fun hpre => hx ?_, h.free p (by simp)⟩
  have hwhole : x :: p <+: x :: s := by
    rw [← htext]
    cases pieces <;> simp
  exact hpre.trans hwhole

/-- Every text can be cut at a pair. -/
theorem exists_pieces (a b : Char) (s : List Char) :
    ∃ p pieces, Pieces a b s (p :: pieces) := by
  induction s using replacePair.induct a b with
  | case1 => exact ⟨[], [], pieces_nil⟩
  | case2 x => exact ⟨[x], [], by simp [List.infix_cons_iff], by simp⟩
  | case3 x y rest hxy ih =>
      obtain ⟨p, pieces, h⟩ := ih
      obtain ⟨rfl, rfl⟩ : x = a ∧ y = b := by simpa using hxy
      exact ⟨[], p :: pieces, h.cut (by simp)⟩
  | case4 x y rest hxy ih =>
      obtain ⟨p, pieces, h⟩ := ih
      exact ⟨x :: p, pieces,
        h.extend fun hpre => hxy ((pair_prefix_iff x y rest).1 hpre)⟩

/-! ## Runs -/

/-- Two characters that are not both a given one. -/
def Differ (a x y : Char) : Prop := ¬ (x = a ∧ y = a)

instance (a : Char) : DecidableRel (Differ a) := fun x y =>
  inferInstanceAs (Decidable (¬ (x = a ∧ y = a)))

/-- One of every run of a character: a character is dropped if it and the one
kept last are both that character. -/
def squeeze (a : Char) (s : List Char) : List Char := s.destutter (Differ a)

theorem hasPair_eq_false_iff_isChain (s : List Char) :
    hasPair a a s = false ↔ s.IsChain (Differ a) := by
  fun_induction hasPair a a s with
  | case1 => simp
  | case2 x => simp
  | case3 x y rest ih =>
      rw [Bool.or_eq_false_iff, ih, List.isChain_cons_cons]
      simp [Differ]

theorem squeeze_of_not_hasPair {s : List Char} (h : hasPair a a s = false) :
    squeeze a s = s :=
  List.destutter_of_isChain _ _ ((hasPair_eq_false_iff_isChain s).1 h)

/-- After a character that is kept, halving makes no difference to what is
kept. -/
theorem destutter'_halve (s : List Char) (x : Char) :
    (halve a s).destutter' (Differ a) x = s.destutter' (Differ a) x := by
  unfold halve
  fun_induction replacePair a a [a] s generalizing x with
  | case1 => rfl
  | case2 y => rfl
  | case3 y z rest h ih =>
      obtain ⟨rfl, rfl⟩ : y = a ∧ z = a := by simpa using h
      have hdrop : ¬ Differ z z z := by simp [Differ]
      rw [List.singleton_append]
      by_cases hx : Differ z x z
      · rw [List.destutter'_cons_pos _ hx, List.destutter'_cons_pos _ hx,
          List.destutter'_cons_neg _ hdrop, ih]
      · rw [List.destutter'_cons_neg _ hx, List.destutter'_cons_neg _ hx,
          List.destutter'_cons_neg _ hx, ih]
  | case4 y z rest h ih =>
      rw [List.destutter'_cons, List.destutter'_cons, ih, ih]

theorem squeeze_halve (s : List Char) :
    squeeze a (halve a s) = squeeze a s := by
  unfold squeeze
  match s with
  | [] => rfl
  | [x] => rfl
  | x :: y :: rest =>
      by_cases h : (x == a && y == a) = true
      · obtain ⟨rfl, rfl⟩ : x = a ∧ y = a := by simpa using h
        have hdrop : ¬ Differ y y y := by simp [Differ]
        have hhalve : halve y (y :: y :: rest) = y :: halve y rest := by
          simp [halve, replacePair]
        rw [hhalve, List.destutter_cons', List.destutter_cons',
          destutter'_halve, List.destutter'_cons_neg _ hdrop]
      · have hhalve : halve a (x :: y :: rest) = x :: halve a (y :: rest) := by
          simp only [halve, replacePair, if_neg h]
        rw [hhalve, List.destutter_cons', List.destutter_cons',
          destutter'_halve]

/-- Collapsing keeps one character of every run. -/
theorem collapse_eq_squeeze (a : Char) (s : List Char) :
    collapse a s = squeeze a s := by
  fun_induction collapse a s with
  | case1 s h ih => rw [ih, squeeze_halve]
  | case2 s h => exact (squeeze_of_not_hasPair (by simpa using h)).symm

/-- Collapsing halves as long as a pair is left, and then stops. -/
theorem exists_iterate_collapse (a : Char) (s : List Char) :
    ∃ n, (∀ k < n, hasPair a a ((halve a)^[k] s) = true) ∧
      hasPair a a ((halve a)^[n] s) = false ∧
      collapse a s = (halve a)^[n] s := by
  fun_induction collapse a s with
  | case1 s h ih =>
      obtain ⟨n, hbefore, hlast, hcollapse⟩ := ih
      refine ⟨n + 1, fun k hk => ?_, hlast, hcollapse⟩
      cases k with
      | zero => exact h
      | succ k => exact hbefore k (by omega)
  | case2 s h => exact ⟨0, by simp, by simpa using h, rfl⟩

end Text

namespace Topic

open Text

/-- A space becomes an underscore. -/
def underscore (c : Char) : Char := if c = ' ' then '_' else c

/-- What is left of a name: it is trimmed, spaces become underscores, the pieces
between the reserved pairs are put together, the reserved characters are
deleted, and of every run of slashes one is kept. -/
def Cleaned (name left : List Char) : Prop :=
  ∃ pieces, Pieces ':' '=' ((trim name).map underscore) pieces ∧
    left = squeeze '/' (pieces.flatten.filter fun c => c ≠ '@' ∧ c ≠ '~')

/-- What is left of a name can be its topic. -/
structure Usable (left : List Char) : Prop where
  ne_nil : left ≠ []
  ne_slash : left ≠ ['/']
  not_blank : ∀ c ∈ left, isBlank c = false
  no_pair : ¬ [':', '='] <:+: left

/-- The text that a repair hands to its loop. -/
def uncollapsed (name : List Char) : List Char :=
  (replacePair ':' '=' [] ((trim name).map underscore)).filter fun c =>
    c ≠ '@' && c ≠ '~'

/-- What a repair makes of a name. Its loop ends; what is left is determined by
the name, and is the topic if it can be one; the names left alone are the valid
ones, a repaired name being one. -/
structure Repairs (name : String) : Prop where
  halts : ∃ n,
    (∀ k < n, hasPair '/' '/'
      ((halve '/')^[k] (uncollapsed name.toList)) = true) ∧
    hasPair '/' '/' ((halve '/')^[n] (uncollapsed name.toList)) = false ∧
    repair name.toList = (halve '/')^[n] (uncollapsed name.toList)
  determined : ∃! left, Cleaned name.toList left
  accepted : ∀ left, Cleaned name.toList left → Usable left →
    sanitize name = some (String.ofList left)
  rejected : ∀ left, Cleaned name.toList left → ¬ Usable left →
    sanitize name = none
  alone_iff : sanitize name = some name ↔ isValid name = true
  stable : ∀ topic, sanitize name = some topic → sanitize topic = some topic

/-! ## What is left is what a repair gives -/

theorem repair_eq_collapse (name : List Char) :
    repair name = collapse '/' (uncollapsed name) := rfl

theorem cleaned_iff_repair_eq {name left : List Char} :
    Cleaned name left ↔ repair name = left := by
  have hpass : ∀ pieces, Pieces ':' '=' ((trim name).map underscore) pieces →
      repair name = squeeze '/'
        (pieces.flatten.filter fun c => c ≠ '@' ∧ c ≠ '~') := by
    intro pieces h
    rw [repair_eq_collapse, collapse_eq_squeeze, uncollapsed,
      replacePair_of_pieces (by decide) [] h, intercalate_nil_eq_flatten]
    simp
  constructor
  · rintro ⟨pieces, h, rfl⟩
    exact hpass pieces h
  · rintro rfl
    obtain ⟨p, pieces, h⟩ := exists_pieces ':' '=' ((trim name).map underscore)
    exact ⟨p :: pieces, h, hpass _ h⟩

/-- A repair leaves no reserved character. -/
theorem mem_repair {name : List Char} {c : Char} (h : c ∈ repair name) :
    c ≠ '@' ∧ c ≠ '~' := by
  rw [repair_eq_collapse, collapse_eq_squeeze] at h
  have hmem := (List.destutter_sublist _ _).subset h
  simpa [uncollapsed] using (List.mem_filter.1 hmem).2

/-- Of what makes a name invalid, a repair can leave only what makes it
unusable. -/
theorem isValidChars_repair_iff (name : List Char) :
    isValidChars (repair name) = true ↔ Usable (repair name) := by
  have hat : (repair name).contains '@' = false := by
    simpa using fun h => (mem_repair h).1 rfl
  have htilde : (repair name).contains '~' = false := by
    simpa using fun h => (mem_repair h).2 rfl
  have hslashes : hasPair '/' '/' (repair name) = false := hasPair_collapse _ _
  have hpair : hasPair ':' '=' (repair name) = false ↔ ¬ [':', '='] <:+:
      repair name := by
    rw [← hasPair_iff_infix, Bool.not_eq_true]
  have hblank : (repair name).any isBlank = false ↔ ∀ c ∈ repair name,
      isBlank c = false := by
    simp
  unfold isValidChars
  rw [hat, htilde, hslashes]
  simp only [Bool.and_eq_true, Bool.not_eq_true', decide_eq_true_eq,
    Bool.not_false, and_true, hpair, hblank]
  constructor
  · rintro ⟨⟨⟨hnil, hslash⟩, hblank⟩, hpair⟩
    exact ⟨hnil, hslash, hblank, hpair⟩
  · rintro ⟨hnil, hslash, hblank, hpair⟩
    exact ⟨⟨⟨hnil, hslash⟩, hblank⟩, hpair⟩

/-- There is nothing to repair in a valid name. -/
theorem repair_of_isValidChars {name : List Char}
    (h : isValidChars name = true) :
    repair name = name := by
  simp only [isValidChars, Bool.and_eq_true, Bool.not_eq_true',
    List.any_eq_false, Bool.not_eq_true] at h
  obtain ⟨⟨⟨⟨⟨⟨-, -⟩, hblank⟩, hat⟩, htilde⟩, hpair⟩, hslashes⟩ := h
  have htrim : trim name = name :=
    trim_eq_self (fun c hc => hblank c (List.mem_of_mem_head? hc))
      fun c hc => hblank c (List.mem_of_mem_getLast? hc)
  have hspaces : name.map underscore = name := by
    refine (List.map_congr_left fun c hc => if_neg ?_).trans (List.map_id _)
    rintro rfl
    exact absurd (hblank ' ' hc) (by decide)
  have hkept : name.filter (fun c => c ≠ '@' && c ≠ '~') = name := by
    rw [List.filter_eq_self]
    intro c hc
    have hc' : c ≠ '@' ∧ c ≠ '~' := by
      constructor
      · rintro rfl
        simp [hc] at hat
      · rintro rfl
        simp [hc] at htilde
    simpa using hc'
  have hfree : replacePair ':' '=' [] name = name := by
    refine replacePair_of_free [] ?_
    rw [← hasPair_iff_infix, hpair]
    decide
  rw [repair_eq_collapse, uncollapsed, htrim, hspaces, hfree, hkept,
    collapse_eq_squeeze, squeeze_of_not_hasPair hslashes]

theorem sanitize_of_isValid {name : String} (h : isValid name = true) :
    sanitize name = some name := by
  unfold sanitize
  rw [repair_of_isValidChars h,
    if_pos (show isValidChars name.toList = true from h), String.ofList_toList]

/-- The repair of every name: what the passes leave is what is left when the
name is cut at the reserved pairs and one slash of every run is kept. -/
theorem repairs_of_name (name : String) : Repairs name := by
  refine { halts := ?_, determined := ?_, accepted := ?_, rejected := ?_,
           alone_iff := ?_,
           stable := ?_ }
  · exact exists_iterate_collapse '/' (uncollapsed name.toList)
  · exact ⟨repair name.toList, cleaned_iff_repair_eq.2 rfl,
      fun left h => (cleaned_iff_repair_eq.1 h).symm⟩
  · rintro left hleft husable
    rw [cleaned_iff_repair_eq] at hleft
    subst hleft
    exact if_pos ((isValidChars_repair_iff _).2 husable)
  · rintro left hleft hnot
    rw [cleaned_iff_repair_eq] at hleft
    subst hleft
    exact if_neg fun h => hnot ((isValidChars_repair_iff _).1 h)
  · exact ⟨isValid_of_sanitize, sanitize_of_isValid⟩
  · intro topic h
    exact sanitize_of_isValid (isValid_of_sanitize h)

end Topic

end Linkage
