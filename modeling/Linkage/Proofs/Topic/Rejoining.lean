import Linkage.Proofs.Joint.Configuration
import Linkage.Proofs.Topic.Repair

/-!
# When a repair gives up

A repair deletes the reserved pair in one pass, and the reserved characters
after it. A colon and an equals sign that stand apart are both kept; if all that
stands between them is deleted, they meet and are a reserved pair, which no
later step looks for. The name is then rejected, although it holds characters
that a topic can be made of. This is the only way in which a name can be lost
that holds such characters and no white space other than spaces.

The default topic of a model has the name of the model between two slashes, so
it is lost exactly if the name of the model would be.

## Main results

* `Text.infix_squeeze_iff`: collapsing slashes neither makes nor breaks another
  pair.
* `Topic.infix_repair_iff`: a repair leaves a reserved pair exactly if its
  halves meet.
* `Topic.sanitize_defaultTopic_isSome_iff`: which models have a default topic.
* `Topic.sanitize_isSome_iff_of_substantial`: which names are lost.
-/

namespace Linkage

namespace Text

variable {a b c : Char}

/-- A text is read from its front: it ends, the pair comes next, or another
character does. -/
@[elab_as_elim]
theorem pair_induction {motive : List Char → Prop} (nil : motive [])
    (pair : ∀ rest, motive rest → motive (a :: b :: rest))
    (cons : ∀ x rest, ¬ [a, b] <+: x :: rest → motive rest → motive (x :: rest))
    (s : List Char) : motive s := by
  induction s using replacePair.induct a b with
  | case1 => exact nil
  | case2 x => exact cons x [] (by simp) nil
  | case3 x y rest h ih =>
      obtain ⟨rfl, rfl⟩ : x = a ∧ y = b := by simpa using h
      exact pair rest ih
  | case4 x y rest h ih =>
      exact cons x (y :: rest)
        (fun hpre => h ((pair_prefix_iff x y rest).1 hpre)) ih

theorem replacePair_pair (r rest : List Char) :
    replacePair a b r (a :: b :: rest) = r ++ replacePair a b r rest := by
  simp [replacePair]

theorem replacePair_cons {x : Char} {rest : List Char}
    (h : ¬ [a, b] <+: x :: rest) (r : List Char) :
    replacePair a b r (x :: rest) = x :: replacePair a b r rest := by
  cases rest with
  | nil => rfl
  | cons y rest =>
      rw [replacePair, if_neg fun hxy => h ((pair_prefix_iff x y rest).2 hxy)]

theorem destutter'_eq_cons (s : List Char) (x : Char) :
    ∃ rest, s.destutter' (Differ a) x = x :: rest := by
  induction s generalizing x with
  | nil => exact ⟨[], rfl⟩
  | cons y s ih =>
      by_cases h : Differ a x y
      · exact ⟨_, List.destutter'_cons_pos _ h⟩
      · rw [List.destutter'_cons_neg _ h]
        exact ih x

theorem hasPair_destutter' (ha : a ≠ c) (s : List Char) (x : Char) :
    hasPair a b (s.destutter' (Differ c) x) = hasPair a b (x :: s) := by
  induction s generalizing x with
  | nil => rfl
  | cons y s ih =>
      by_cases h : Differ c x y
      · obtain ⟨rest, hrest⟩ := destutter'_eq_cons (a := c) s y
        rw [List.destutter'_cons_pos _ h, hrest, hasPair, hasPair, ← hrest, ih]
      · obtain ⟨rfl, rfl⟩ : x = c ∧ y = c := by simpa [Differ] using h
        have hxa : (y == a) = false := by simpa using ha.symm
        rw [List.destutter'_cons_neg _ h, ih, hasPair, hxa, Bool.false_and,
          Bool.false_or]

/-- Keeping one of every run of a character neither makes nor breaks a pair that
begins with another one. -/
theorem infix_squeeze_iff (ha : a ≠ c) (s : List Char) :
    [a, b] <:+: squeeze c s ↔ [a, b] <:+: s := by
  rw [← hasPair_iff_infix, ← hasPair_iff_infix]
  cases s with
  | nil => rfl
  | cons x s => rw [squeeze, List.destutter_cons', hasPair_destutter' ha]

/-- Only of the character itself something is dropped from its runs. -/
theorem mem_squeeze_iff (h : c ≠ a) (s : List Char) :
    c ∈ squeeze a s ↔ c ∈ s := by
  have hfrom : ∀ (s : List Char) (x : Char), c ∈ x :: s →
      c ∈ s.destutter' (Differ a) x := by
    intro s
    induction s with
    | nil => exact fun x hc => hc
    | cons y s ih =>
        intro x hc
        by_cases hxy : Differ a x y
        · rw [List.destutter'_cons_pos _ hxy]
          rcases List.mem_cons.1 hc with rfl | hc
          · exact List.mem_cons_self
          · exact List.mem_cons_of_mem _ (ih y hc)
        · obtain ⟨rfl, rfl⟩ : x = a ∧ y = a := by simpa [Differ] using hxy
          rw [List.destutter'_cons_neg _ hxy]
          exact ih y ((List.mem_cons.1 hc).resolve_left h)
  refine ⟨fun hc => (List.destutter_sublist _ _).subset hc, fun hc => ?_⟩
  cases s with
  | nil => exact hc
  | cons x s => exact hfrom s x hc

end Text

namespace Topic

open Text

/-- Texts that a repair deletes altogether: reserved pairs and reserved
characters. -/
inductive Vanishes : List Char → Prop
  | nil : Vanishes []
  | pair {rest : List Char} (h : Vanishes rest) : Vanishes (':' :: '=' :: rest)
  | reserved {c : Char} {rest : List Char} (hc : c = '@' ∨ c = '~')
      (h : Vanishes rest) :
      Vanishes (c :: rest)

/-- A colon and an equals sign stand apart, and all that stands between them is
deleted. -/
def Rejoins (text : List Char) : Prop :=
  ∃ between, between ≠ [] ∧ Vanishes between ∧
    ':' :: (between ++ ['=']) <:+: text

/-- There is no white space but spaces. -/
def Plain (text : List Char) : Prop := ∀ c ∈ text, isBlank c = true → c = ' '

/-- Something else than slashes is left when the reserved characters and the
characters of the reserved pair are deleted, wherever they stand. -/
def Substantial (text : List Char) : Prop :=
  ∃ c ∈ text.filter fun c => c ∉ ['@', '~', ':', '='], c ≠ '/'

instance (text : List Char) : Decidable (Plain text) :=
  List.decidableBAll _ text

instance (text : List Char) : Decidable (Substantial text) :=
  List.decidableBEx _ _

/-! ## What is kept -/

/-- What the deletions leave of a text. -/
def kept (text : List Char) : List Char :=
  (replacePair ':' '=' [] text).filter fun c => c ≠ '@' && c ≠ '~'

theorem kept_pair (rest : List Char) :
    kept (':' :: '=' :: rest) = kept rest := by
  rw [kept, replacePair_pair, List.nil_append, kept]

theorem kept_reserved {c : Char} (hc : c = '@' ∨ c = '~') (rest : List Char) :
    kept (c :: rest) = kept rest := by
  have hfirst : ¬ [':', '='] <+: c :: rest := by
    rcases hc with rfl | rfl <;> simp
  rw [kept, replacePair_cons hfirst]
  rcases hc with rfl | rfl <;> rfl

theorem kept_cons {c : Char} {rest : List Char}
    (hfirst : ¬ [':', '='] <+: c :: rest) (hc : ¬ (c = '@' ∨ c = '~')) :
    kept (c :: rest) = c :: kept rest := by
  rw [kept, replacePair_cons hfirst,
    List.filter_cons_of_pos (by simpa using hc), kept]

theorem mem_kept {c : Char} (hc : c ∉ [':', '=', '@', '~']) {text : List Char}
    (h : c ∈ text) :
    c ∈ kept text := by
  induction text using pair_induction (a := ':') (b := '=') with
  | nil => cases h
  | pair rest ih =>
      rw [kept_pair]
      simp only [List.mem_cons, List.not_mem_nil, or_false, not_or] at hc h
      exact ih ((h.resolve_left hc.1).resolve_left hc.2.1)
  | cons x rest hfirst ih =>
      by_cases hx : x = '@' ∨ x = '~'
      · rw [kept_reserved hx]
        refine ih ((List.mem_cons.1 h).resolve_left ?_)
        rintro rfl
        simp [hx] at hc
      · rw [kept_cons hfirst hx]
        exact (List.mem_cons.1 h).elim (fun heq => heq ▸ List.mem_cons_self)
          fun hmem => List.mem_cons_of_mem _ (ih hmem)

/-- The deletions add nothing. -/
theorem kept_sublist (text : List Char) : (kept text).Sublist text := by
  induction text using pair_induction (a := ':') (b := '=') with
  | nil => exact List.Sublist.slnil
  | pair rest ih =>
      rw [kept_pair]
      exact (ih.cons _).cons _
  | cons x rest hfirst ih =>
      by_cases hx : x = '@' ∨ x = '~'
      · rw [kept_reserved hx]
        exact ih.cons x
      · rw [kept_cons hfirst hx]
        exact ih.cons_cons x

/-! ## Halves that meet -/

theorem Vanishes.mem {text : List Char} (h : Vanishes text) :
    ∀ c ∈ text, c ∈ [':', '=', '@', '~'] := by
  induction h with
  | nil => simp
  | pair _ ih => simpa using ih
  | reserved hc _ ih =>
      refine List.forall_mem_cons.2 ⟨?_, ih⟩
      rcases hc with rfl | rfl <;> simp

/-- An equals sign does not begin a text that is deleted. -/
theorem Vanishes.eq_nil_of_prefix {between rest : List Char}
    (h : Vanishes between) (hpre : between ++ ['='] <+: '=' :: rest) :
    between = [] := by
  cases h with
  | nil => rfl
  | pair _ => simp at hpre
  | reserved hc _ => rcases hc with rfl | rfl <;> simp at hpre

/-- An equals sign comes first in what is kept exactly if only deleted texts
stand before it. -/
theorem head?_kept_iff (text : List Char) :
    (kept text).head? = some '=' ↔ ∃ between, Vanishes between ∧
    between ++ ['='] <+: text := by
  induction text using pair_induction (a := ':') (b := '=') with
  | nil => simp [kept, replacePair]
  | pair rest ih =>
      rw [kept_pair, ih]
      constructor
      · rintro ⟨between, hvanishes, hpre⟩
        exact ⟨_, hvanishes.pair, by simpa using hpre⟩
      · rintro ⟨_, hvanishes, hpre⟩
        cases hvanishes with
        | nil => simp at hpre
        | pair hrest => exact ⟨_, hrest, by simpa using hpre⟩
        | reserved hc _ => rcases hc with rfl | rfl <;> simp at hpre
  | cons x rest hfirst ih =>
      by_cases hx : x = '@' ∨ x = '~'
      · rw [kept_reserved hx, ih]
        constructor
        · rintro ⟨between, hvanishes, hpre⟩
          exact ⟨_, hvanishes.reserved hx, by simpa using hpre⟩
        · rintro ⟨_, hvanishes, hpre⟩
          cases hvanishes with
          | nil => rcases hx with rfl | rfl <;> simp at hpre
          | pair _ => rcases hx with rfl | rfl <;> simp at hpre
          | reserved _ hrest =>
              exact ⟨_, hrest, (List.cons_prefix_cons.1 hpre).2⟩
      · rw [kept_cons hfirst hx, List.head?_cons, Option.some.injEq]
        constructor
        · rintro rfl
          exact ⟨[], .nil, by simp⟩
        · rintro ⟨_, hvanishes, hpre⟩
          cases hvanishes with
          | nil => simpa [eq_comm] using hpre
          | pair _ =>
              have hpair : [':', '='] <+: x :: rest :=
                (List.prefix_append _ _).trans hpre
              exact absurd hpair hfirst
          | reserved hc _ =>
              obtain ⟨rfl, -⟩ := List.cons_prefix_cons.1 hpre
              exact absurd hc hx

theorem rejoins_cons_iff (x : Char) (rest : List Char) :
    Rejoins (x :: rest) ↔
      (x = ':' ∧ ∃ between, between ≠ [] ∧ Vanishes between ∧
        between ++ ['='] <+: rest) ∨
        Rejoins rest := by
  simp only [Rejoins, List.infix_cons_iff, List.cons_prefix_cons,
    and_or_left, exists_or]
  refine or_congr_left ?_
  constructor
  · rintro ⟨between, hne, hvanishes, rfl, hpre⟩
    exact ⟨rfl, between, hne, hvanishes, hpre⟩
  · rintro ⟨rfl, between, hne, hvanishes, hpre⟩
    exact ⟨between, hne, hvanishes, rfl, hpre⟩

/-- The deletions leave a reserved pair exactly if its halves meet. -/
theorem infix_kept_iff (text : List Char) : [':', '='] <:+:
    kept text ↔ Rejoins text := by
  induction text using pair_induction (a := ':') (b := '=') with
  | nil => simp [kept, replacePair, Rejoins]
  | pair rest ih =>
      rw [kept_pair, ih, rejoins_cons_iff, rejoins_cons_iff]
      constructor
      · exact fun h => .inr (.inr h)
      · rintro (⟨-, between, hne, hvanishes, hpre⟩ | ⟨heq, -⟩ | h)
        · exact absurd (hvanishes.eq_nil_of_prefix hpre) hne
        · cases heq
        · exact h
  | cons x rest hfirst ih =>
      rw [rejoins_cons_iff, ← ih]
      by_cases hx : x = '@' ∨ x = '~'
      · rw [kept_reserved hx]
        refine ⟨.inr, fun h => h.resolve_left ?_⟩
        rintro ⟨rfl, -⟩
        simp at hx
      · rw [kept_cons hfirst hx, List.infix_cons_iff, List.cons_prefix_cons]
        refine or_congr_left ?_
        have hhead : ['='] <+: kept rest ↔ (kept rest).head? = some '=' := by
          cases kept rest <;> simp [eq_comm]
        rw [hhead, head?_kept_iff, eq_comm]
        refine and_congr_right ?_
        rintro rfl
        -- the colon is kept, so it is not followed by an equals sign
        constructor
        · rintro ⟨between, hvanishes, hpre⟩
          refine ⟨between, ?_, hvanishes, hpre⟩
          rintro rfl
          exact hfirst (List.cons_prefix_cons.2 ⟨rfl, hpre⟩)
        · rintro ⟨between, -, hvanishes, hpre⟩
          exact ⟨between, hvanishes, hpre⟩

/-! ## Which names are lost -/

theorem underscore_eq_self {c : Char} (h : c ≠ ' ') :
    underscore c = c := if_neg h

theorem map_underscore_eq_self {text : List Char} (h : ∀ c ∈ text, c ≠ ' ') :
    text.map underscore = text :=
  (List.map_congr_left fun c hc => underscore_eq_self (h c hc)).trans
    (List.map_id _)

/-- A text that has no underscore has not lost a space. -/
theorem eq_of_map_underscore {text result : List Char}
    (h : text.map underscore = result) (hresult : '_' ∉ result) :
    text = result := by
  rw [← h]
  refine (map_underscore_eq_self fun c hc => ?_).symm
  rintro rfl
  exact hresult (h ▸ List.mem_map.2 ⟨' ', hc, rfl⟩)

/-- Spaces have no part in halves that meet. -/
theorem rejoins_map_underscore_iff (text : List Char) :
    Rejoins (text.map underscore) ↔ Rejoins text := by
  have hchars : ∀ {between : List Char}, Vanishes between →
      ∀ c ∈ ':' :: (between ++ ['=']), c ∈ [':', '=', '@', '~'] := by
    intro between h c hc
    simp only [List.mem_cons, List.mem_append, List.not_mem_nil, or_false] at hc
    rcases hc with rfl | hc | rfl
    · simp
    · exact h.mem c hc
    · simp
  unfold Rejoins
  refine exists_congr fun between => and_congr_right fun _ =>
    and_congr_right fun hvanishes => ?_
  rw [List.infix_map_iff]
  constructor
  · rintro ⟨l, hl, heq⟩
    have hunder : '_' ∉ ':' :: (between ++ ['=']) := fun hmem => by
      simpa using hchars hvanishes _ hmem
    rwa [eq_of_map_underscore heq.symm hunder] at hl
  · intro h
    refine ⟨_, h, (map_underscore_eq_self fun c hc => ?_).symm⟩
    rintro rfl
    simpa using hchars hvanishes _ hc

/-- A repair leaves a reserved pair exactly if its halves meet. -/
theorem infix_repair_iff (name : List Char) :
    [':', '='] <:+: repair name ↔ Rejoins (trim name) := by
  have hrepair : repair name =
      squeeze '/' (kept ((trim name).map underscore)) :=
    collapse_eq_squeeze _ _
  rw [hrepair, infix_squeeze_iff (by decide), infix_kept_iff,
    rejoins_map_underscore_iff]

/-- A repair keeps every character that it does not delete and that is no slash,
a space as an underscore. -/
theorem underscore_mem_repair {name : List Char} {c : Char} (h : c ∈ trim name)
    (hc : c ∉ [':', '=', '@', '~', '/']) : underscore c ∈ repair name := by
  have hrepair : repair name =
      squeeze '/' (kept ((trim name).map underscore)) :=
    collapse_eq_squeeze _ _
  have hkept : underscore c ∉ [':', '=', '@', '~', '/'] := by
    unfold underscore
    split
    · decide
    · exact hc
  simp only [List.mem_cons, List.not_mem_nil, or_false, not_or] at hkept
  rw [hrepair, mem_squeeze_iff hkept.2.2.2.2]
  exact mem_kept (by simp [hkept]) (List.mem_map.2 ⟨c, h, rfl⟩)

/-- White space is left exactly if there is other white space than spaces. -/
theorem not_blank_repair_iff (name : List Char) :
    (∀ c ∈ repair name, isBlank c = false) ↔ Plain (trim name) := by
  constructor
  · intro h c hc hblank
    by_contra hspace
    have hmem := underscore_mem_repair hc (by
      intro hin
      simp only [List.mem_cons, List.not_mem_nil, or_false] at hin
      rcases hin with rfl | rfl | rfl | rfl | rfl <;> revert hblank <;> decide)
    rw [underscore_eq_self hspace] at hmem
    rw [h c hmem] at hblank
    cases hblank
  · intro h c hc
    have hcollapsed : c ∈ squeeze '/' (kept ((trim name).map underscore)) := by
      rwa [← collapse_eq_squeeze]
    have hkept :=
      ((List.destutter_sublist _ _).trans (kept_sublist _)).subset hcollapsed
    obtain ⟨d, hd, rfl⟩ := List.mem_map.1 hkept
    unfold underscore
    split
    · decide
    · next hspace =>
        exact Bool.eq_false_iff.2 fun hblank => hspace (h d hd hblank)

theorem sanitize_isSome_iff_usable (name : String) :
    (sanitize name).isSome = true ↔ Usable (repair name.toList) := by
  rw [sanitize_isSome_iff, isValidChars_repair_iff]

/-- A name that holds something to make a topic of is lost exactly if there is
other white space than spaces in it or the halves of a reserved pair meet. -/
theorem sanitize_isSome_iff_of_substantial {name : String}
    (h : Substantial (trim name.toList)) :
    (sanitize name).isSome = true ↔
      Plain (trim name.toList) ∧ ¬ Rejoins (trim name.toList) := by
  obtain ⟨c, hc, hslash⟩ := h
  obtain ⟨hmem, hnot⟩ : c ∈ trim name.toList ∧ c ∉ ['@', '~', ':', '='] := by
    simpa using List.mem_filter.1 hc
  simp only [List.mem_cons, List.not_mem_nil, or_false, not_or] at hnot
  have hleft : underscore c ∈ repair name.toList :=
    underscore_mem_repair hmem (by simp [hnot, hslash])
  rw [sanitize_isSome_iff_usable, ← not_blank_repair_iff, ← infix_repair_iff]
  constructor
  · exact fun h => ⟨h.not_blank, h.no_pair⟩
  · rintro ⟨hblank, hpair⟩
    refine { ne_nil := List.ne_nil_of_mem hleft, ne_slash := fun heq => ?_
             not_blank := hblank, no_pair := hpair }
    have heq' : underscore c = '/' := by simpa [heq] using hleft
    unfold underscore at heq'
    split at heq'
    · cases heq'
    · exact hslash heq'

/-! ## Default topics -/

theorem toList_defaultTopic (model : String) :
    (JointSpec.defaultTopic model).toList =
    "/model".toList ++ '/' ::
      (model.toList ++ '/' :: "detachable_joint/detach".toList) := by
  show ("/model/" ++ model ++ "/detachable_joint/detach").toList = _
  simp [String.toList_append]

theorem trim_defaultTopic (model : String) :
    trim (JointSpec.defaultTopic model).toList =
      (JointSpec.defaultTopic model).toList := by
  have hlast : ('/' :: "detachable_joint/detach".toList).getLast? =
      some 'h' := by decide
  rw [toList_defaultTopic]
  refine trim_eq_self ?_ ?_
  · rintro c ⟨⟩
    decide
  · intro c hc
    rw [← List.cons_append, ← List.append_assoc,
      List.getLast?_append, hlast] at hc
    cases hc
    decide

/-- A text without slashes that is found in a path is found in a part of it. -/
theorem infix_path_iff {l : List Char} (hl : '/' ∉ l) (s t : List Char) :
    l <:+: s ++ '/' :: t ↔ l <:+: s ∨ l <:+: t := by
  constructor
  · rw [List.infix_append_iff, List.infix_cons_iff]
    rintro (h | (h | h) | ⟨before, after, rfl, hbefore, hafter⟩)
    · exact .inl h
    · cases l with
      | nil => exact .inl (List.nil_infix)
      | cons c l =>
          obtain ⟨rfl, -⟩ := List.cons_prefix_cons.1 h
          simp at hl
    · exact .inr h
    · cases after with
      | nil => exact .inl (by simpa using hbefore.isInfix)
      | cons c after =>
          obtain ⟨rfl, -⟩ := List.cons_prefix_cons.1 hafter
          simp at hl
  · rintro (h | h)
    · exact h.trans (List.prefix_append _ _).isInfix
    · exact h.trans
        ((List.suffix_cons _ _).trans (List.suffix_append _ _)).isInfix

theorem rejoins_defaultTopic_iff (model : String) :
    Rejoins (JointSpec.defaultTopic model).toList ↔ Rejoins model.toList := by
  unfold Rejoins
  refine exists_congr fun between => and_congr_right fun _ =>
    and_congr_right fun hvanishes => ?_
  have hslash : '/' ∉ ':' :: (between ++ ['=']) := by
    have hbetween : '/' ∉ between :=
      fun hmem => absurd (hvanishes.mem _ hmem) (by decide)
    simpa using hbetween
  have hcolon : ∀ {t : List Char}, ':' ∉ t →
      ¬ ':' :: (between ++ ['=']) <:+: t :=
    fun ht h => ht (h.subset List.mem_cons_self)
  have hfront : ¬ ':' :: (between ++ ['=']) <:+: "/model".toList :=
    hcolon (by decide)
  have hback : ¬ ':' :: (between ++ ['=']) <:+:
      "detachable_joint/detach".toList :=
    hcolon (by decide)
  rw [toList_defaultTopic, infix_path_iff hslash, infix_path_iff hslash]
  simp only [hfront, hback, false_or, or_false]

theorem plain_defaultTopic_iff (model : String) :
    Plain (JointSpec.defaultTopic model).toList ↔ Plain model.toList := by
  have hfront : Plain "/model".toList := by decide
  have hback : Plain "detachable_joint/detach".toList := by decide
  have hslash : isBlank '/' = true → '/' = ' ' := by decide
  unfold Plain
  rw [toList_defaultTopic, List.forall_mem_append, List.forall_mem_cons,
    List.forall_mem_append, List.forall_mem_cons]
  exact ⟨fun h => h.2.2.1, fun h => ⟨hfront, hslash, h, hslash, hback⟩⟩

/-- A model has a default topic unless there is other white space than spaces in
its name or the halves of a reserved pair meet. -/
theorem sanitize_defaultTopic_isSome_iff (model : String) :
    (sanitize (JointSpec.defaultTopic model)).isSome = true ↔
      Plain model.toList ∧ ¬ Rejoins model.toList := by
  have hsubstantial :
      Substantial (trim (JointSpec.defaultTopic model).toList) := by
    rw [trim_defaultTopic, toList_defaultTopic]
    exact ⟨'m', by simp, by decide⟩
  rw [sanitize_isSome_iff_of_substantial hsubstantial, trim_defaultTopic,
    plain_defaultTopic_iff, rejoins_defaultTopic_iff]

/-- A configuration finds no topic only where the default topic is lost. -/
theorem sanitize_defaultTopic_of_resolve {e : Entity}
    {element : Element} {s : Store} {candidates : List String}
    (h : Controller.resolve e element s = .error (.noValidTopic candidates)) :
    sanitize (JointSpec.defaultTopic (s.nameOrEmpty e)) = none := by
  obtain ⟨passed, check, rest, -, -, hfails⟩ :=
    Controller.resolve_eq_error_iff.1 h
  cases check with
  | topic => exact hfails.1 _ (by simp [Controller.topicsFor])
  | model | parentLink | childModel | childLink => cases hfails.2
  | switch =>
      obtain ⟨_, -, -, hcause⟩ := hfails
      cases hcause
  | link =>
      obtain ⟨_, -, -, hcause⟩ := hfails
      cases hcause

/-- A name whose trim holds something to make a topic of, and no white space but
spaces, is repaired to a topic unless the halves of a reserved pair meet. So is
the default topic of a model, whatever else its name holds, and a joint that is
configured on a model with such a name does not fail for want of a topic. -/
theorem repairable_unless_rejoins (name model : String) (e : Entity)
    (element : Element) (s : Store) :
    (Plain (trim name.toList) → Substantial (trim name.toList) →
      ((sanitize name).isSome = true ↔ ¬ Rejoins (trim name.toList))) ∧
    (Plain model.toList →
      ((sanitize (JointSpec.defaultTopic model)).isSome = true ↔
        ¬ Rejoins model.toList)) ∧
    (Plain (s.nameOrEmpty e).toList → ¬ Rejoins (s.nameOrEmpty e).toList →
      ∀ candidates,
      Controller.resolve e element s ≠ .error (.noValidTopic candidates)) := by
  refine ⟨fun hplain hsubstantial => ?_, fun hplain => ?_,
    fun hplain hapart candidates h => ?_⟩
  · rw [sanitize_isSome_iff_of_substantial hsubstantial, and_iff_right hplain]
  · rw [sanitize_defaultTopic_isSome_iff, and_iff_right hplain]
  · have husable :=
      (sanitize_defaultTopic_isSome_iff (s.nameOrEmpty e)).2 ⟨hplain, hapart⟩
    rw [sanitize_defaultTopic_of_resolve h] at husable
    cases husable

/-- A colon and an equals sign come close in a name, but the pair between them
is followed by an equals sign of its own: what is kept begins with the equals
sign and has the colon after it. -/
theorem repairable_with_halves_apart :
    let name := " a:=@= :~b "
    let model := "a:=@= :~b"
    let made := Store.spawnModel {} model
    let s := (made.2.spawnLink made.1 "hook").2
    let element : Element := ({ name := "weld" } : Element)
      |>.withParam "parent_link" (.text "hook")
      |>.withParam "child_model" (.text "cart")
      |>.withParam "child_link" (.text "eye")
    Plain (trim name.toList) ∧ Substantial (trim name.toList) ∧
      ¬ Rejoins (trim name.toList) ∧
      (sanitize name).isSome = true ∧ Plain model.toList ∧
      ¬ Rejoins model.toList ∧
      (sanitize (JointSpec.defaultTopic model)).isSome = true ∧
      s.nameOrEmpty ⟨1, 0⟩ = model ∧
      ∀ candidates, Controller.resolve ⟨1, 0⟩ element s ≠
        .error (.noValidTopic candidates) := by
  intro name model made s element
  have hplain : Plain (trim name.toList) := by decide
  have hmodel : Plain model.toList := by decide
  have hapart : ∀ text, hasPair ':' '=' (kept text) = false → ¬ Rejoins text :=
    fun text h => by
    rw [← infix_kept_iff, ← hasPair_iff_infix, h]
    exact Bool.false_ne_true
  have hname : ¬ Rejoins (trim name.toList) := hapart _ (by decide)
  have hmodel' : ¬ Rejoins model.toList := hapart _ (by decide)
  have hstored : s.nameOrEmpty ⟨1, 0⟩ = model := by decide +kernel
  obtain ⟨hsanitize, hdefault, hresolve⟩ :=
    repairable_unless_rejoins name model ⟨1, 0⟩ element s
  rw [hstored] at hresolve
  have hsome : Substantial (trim name.toList) := by decide
  exact ⟨hplain, hsome, hname, (hsanitize hplain hsome).2 hname,
    hmodel, hmodel',
    (hdefault hmodel).2 hmodel', hstored, hresolve hmodel hmodel'⟩

/-- A reserved character stands between the halves of a reserved pair. The name
is rejected, though it holds letters and no white space; and a joint fails on a
model of that name for want of a topic. -/
theorem rejected_where_halves_meet :
    (¬ ∀ name : String, Plain (trim name.toList) →
      Substantial (trim name.toList) →
      (sanitize name).isSome = true) ∧
    (¬ ∀ model : String, Plain model.toList →
      (sanitize (JointSpec.defaultTopic model)).isSome = true) ∧
    ¬ ∀ (e : Entity) (element : Element) (s : Store),
      Plain (s.nameOrEmpty e).toList →
      ∀ candidates, Controller.resolve e element s ≠
        .error (.noValidTopic candidates) := by
  refine ⟨fun hall => ?_, fun hall => ?_, fun hall => ?_⟩
  · have hrejected : sanitize "a:@=b" = none := by decide +kernel
    have husable := hall "a:@=b" (by decide) (by decide)
    rw [hrejected] at husable
    cases husable
  · have hrejected : sanitize (JointSpec.defaultTopic "a:@=b") = none := by
      decide +kernel
    have husable := hall "a:@=b" (by decide)
    rw [hrejected] at husable
    cases husable
  · let made := Store.spawnModel {} "a:@=b"
    let s := (made.2.spawnLink made.1 "hook").2
    let element : Element := ({ name := "weld" } : Element)
      |>.withParam "parent_link" (.text "hook")
      |>.withParam "child_model" (.text "cart")
      |>.withParam "child_link" (.text "eye")
    let spec : JointSpec := ⟨"hook", "cart", "eye", none, false⟩
    have hname : s.nameOrEmpty ⟨1, 0⟩ = "a:@=b" := by decide +kernel
    have hvalid : s.isValidModel ⟨1, 0⟩ = true := by decide +kernel
    have hspec : JointSpec.ofElement element = .ok spec := by rfl
    have hlink : s.linkNamed? ⟨1, 0⟩ spec.parentLink = some ⟨2, 0⟩ := by
      decide +kernel
    have htopic : Topic.firstValid
        (spec.topicCandidates (s.nameOrEmpty ⟨1, 0⟩)) = none := by
      decide +kernel
    refine hall ⟨1, 0⟩ element s (by rw [hname]; decide)
      (spec.topicCandidates (s.nameOrEmpty ⟨1, 0⟩)) ?_
    simp only [Controller.resolve, hvalid, hspec, bind, Except.bind,
      hlink, htopic]
    rfl

end Topic

end Linkage
