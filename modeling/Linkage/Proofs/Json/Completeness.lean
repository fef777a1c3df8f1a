import Linkage.Proofs.Json.Grammar

/-!
# Every JSON document is read

What the grammar spells is read as what it spells, in every layout. The
induction is on the grammar: each part of a document is read where it is
spelled, whatever blanks stand before it and whatever follows it. Only a number
needs something of what follows, namely that it does not go on. A call within a
call comes after a bracket, a brace, a comma or a colon, so a bound of two calls
for each character is never used up.

## Main results

* `readText_of_spells`, `readNumber_of_spells`: the two kinds of token that have
  parts.
* `reads_of_spells`: a part of a document is read where it is spelled.
* `parse?_of_document`: a document is read, whatever its layout.
-/

namespace Linkage

namespace Json

open Reader

/-! ### Texts -/

theorem readEscape_of_shortEscape? {c d : Char} (h : shortEscape? c = some d)
    (rest : List Char) :
    readEscape (c :: rest) = some (.character d, rest) := by
  have hu : c ≠ 'u' := by rintro rfl; cases h
  rw [readEscape, bind_of_eq (next_cons ..), if_neg hu, h]
  rfl

theorem readEscape_of_digits {ds : List Char} (hlength : ds.length = 4)
    (hdigits : ∀ c ∈ ds, Digits.isDigitIn 16 c = true) (rest : List Char) :
    readEscape ('u' :: (ds ++ rest)) =
      some (.unit (Digits.value 16 ds), rest) := by
  have hfixed : fixedDigits (Digits.isDigitIn 16) (Digits.value 16) 4
      (ds ++ rest) = some (Digits.value 16 ds, rest) := by
    unfold fixedDigits
    simp only [List.take_left' hlength, List.drop_left' hlength]
    exact if_pos ⟨hlength, List.all_eq_true.2 hdigits⟩
  rw [readEscape, bind_of_eq (next_cons ..), if_pos rfl]
  exact bind_of_eq hfixed _

/-- A backslash and what its escape stands for are read as one piece. -/
theorem readPieces_of_escape {fuel : Nat} {s rest left : List Char}
    {piece : Piece} {pieces : List Piece}
    (hescape : readEscape s = some (piece, rest))
    (hrest : readPieces fuel rest = some (pieces, left)) :
    readPieces (fuel + 1) ('\\' :: s) = some (piece :: pieces, left) := by
  rw [readPieces, bind_of_eq (next_cons ..), if_neg (by decide),
    if_neg (by decide), if_pos rfl, bind_of_eq hescape]
  exact bind_of_eq hrest _

theorem readPieces_of_spells {pieces : List Piece} {s : List Char}
    (h : SpellsPieces pieces s) (rest : List Char) (fuel : Nat) :
    readPieces (fuel + s.length) (s ++ rest) = some (pieces, rest) := by
  induction h generalizing fuel with
  | close => rfl
  | @character c pieces s hquote hslash hcontrol _ ih =>
      rw [List.length_cons, ← Nat.add_assoc, readPieces, List.cons_append,
        bind_of_eq (next_cons ..), if_neg hquote, if_neg (by omega),
        if_neg hslash]
      exact (bind_of_eq rfl _).trans (bind_of_eq (ih fuel) _)
  | @escape c d pieces s hc _ ih =>
      have hfuel : fuel + ('\\' :: c :: s).length =
          fuel + 1 + s.length + 1 := by
        simp only [List.length_cons]
        omega
      rw [hfuel]
      exact readPieces_of_escape (readEscape_of_shortEscape? hc _)
        (ih (fuel + 1))
  | @unit ds pieces s hlength hdigits _ ih =>
      have hfuel : fuel + ('\\' :: 'u' :: (ds ++ s)).length =
          fuel + ds.length + 1 + s.length + 1 := by
        simp only [List.length_cons, List.length_append]
        omega
      rw [hfuel, List.cons_append, List.cons_append, List.append_assoc]
      exact readPieces_of_escape (readEscape_of_digits hlength hdigits _) (ih _)

theorem readText_of_spells {t : Option String} {s : List Char}
    (h : SpellsText t s) (rest : List Char) :
    readText (s ++ rest) = some (t, rest) := by
  obtain ⟨pieces, hpieces, rfl⟩ := h
  have hfuel : (s ++ rest).length + 1 = rest.length + 1 + s.length := by
    rw [List.length_append]
    omega
  have hread : readPieces ((s ++ rest).length + 1) (s ++ rest) =
      some (pieces, rest) :=
    hfuel ▸ readPieces_of_spells hpieces rest _
  exact (bind_of_eq (a := s ++ rest) rfl _).trans (bind_of_eq hread _)

/-! ### Numbers -/

/-- A number ends where none of its parts goes on. -/
def Ends (rest : List Char) : Prop :=
  ∀ c ∈ rest.head?, Digits.isDecimal c = false ∧ c ≠ '.' ∧ c ≠ 'e' ∧ c ≠ 'E'

theorem readExponent_of_spells {exponent : Option (Bool × List Char)}
    {s rest : List Char} (h : SpellsExponent exponent s) (hrest : Ends rest) :
    readExponent (s ++ rest) = some (exponent, rest) := by
  cases h with
  | absent =>
      cases rest with
      | nil => rfl
      | cons c rest =>
          obtain ⟨-, -, he, hE⟩ := hrest c rfl
          rw [readExponent, List.nil_append, bind_of_eq (peek_cons ..)]
          simp only [he, hE, decide_false, Bool.or_false]
          rfl
  | @digits e down sign ds he hsign hds =>
      have htake : takeSome Digits.isDecimal (ds ++ rest) = some (ds, rest) :=
        takeSome_append hds.1 hds.2 fun c hc => (hrest c hc).1
      have hhead : ∀ c, Digits.isDecimal c = false →
          (ds ++ rest).head? ≠ some c := by
        intro c hc hhead
        obtain ⟨d, ds', rfl⟩ := List.exists_cons_of_ne_nil hds.1
        cases hhead
        rw [hds.2 c (by simp)] at hc
        cases hc
      have hletter : (decide (e = 'e') || decide (e = 'E')) = true := by
        simpa using he
      rw [readExponent, List.cons_append, bind_of_eq (peek_cons ..)]
      simp only [hletter, if_true]
      rw [bind_of_eq (next_cons ..), List.append_assoc]
      cases hsign with
      | minus =>
          rw [List.singleton_append, bind_of_eq (accept_self ..)]
          exact bind_of_eq htake _
      | plus =>
          rw [List.singleton_append, bind_of_eq (accept_of_head? (by simp))]
          exact (bind_of_eq (accept_self ..) _).trans (bind_of_eq htake _)
      | bare =>
          rw [List.nil_append,
            bind_of_eq (accept_of_head? (hhead _ (by decide)))]
          exact (bind_of_eq (accept_of_head? (hhead _ (by decide))) _).trans
            (bind_of_eq htake _)

theorem not_isDecimal_head {exponent : Option (Bool × List Char)}
    {s rest : List Char} (h : SpellsExponent exponent s) (hrest : Ends rest) :
    ∀ c ∈ (s ++ rest).head?, Digits.isDecimal c = false ∧ c ≠ '.' := by
  cases h with
  | absent => exact fun c hc => ⟨(hrest c hc).1, (hrest c hc).2.1⟩
  | digits he _ _ =>
      intro c hc
      cases hc
      rcases he with rfl | rfl <;> decide

theorem readNumber_of_spells {n : Literal} {s rest : List Char}
    (h : SpellsNumber n s) (hrest : Ends rest) :
    readNumber (s ++ rest) = some (n, rest) := by
  obtain ⟨negative, whole, digits, power⟩ := n
  cases h with
  | @mk fraction exponent hwhole hzero hfraction hexponent =>
  dsimp only at hwhole hzero hfraction hexponent ⊢
  have hafter := not_isDecimal_head hexponent hrest
  have hexponentRead := readExponent_of_spells hexponent hrest
  have hsign : accept '-' ((if negative then ['-'] else []) ++
      (whole ++ (fraction ++ (exponent ++ rest)))) =
        some (negative, whole ++ (fraction ++ (exponent ++ rest))) := by
    cases negative with
    | true => exact accept_self ..
    | false =>
        refine accept_of_head? fun hhead => ?_
        obtain ⟨c, tail, hcons⟩ := List.exists_cons_of_ne_nil hwhole.1
        have hc := hwhole.2 c (by simp [hcons])
        rw [hcons] at hhead
        cases hhead
        exact absurd hc (by decide)
  have hdigits : takeSome Digits.isDecimal
      (whole ++ (fraction ++ (exponent ++ rest))) =
      some (whole, fraction ++ (exponent ++ rest)) := by
    refine takeSome_append hwhole.1 hwhole.2 ?_
    cases hfraction with
    | absent => exact fun c hc => (hafter c hc).1
    | digits _ => exact fun c hc => by cases hc; decide
  have hcanonical : ¬ (whole.head? = some '0' ∧ whole.length ≠ 1) :=
    fun h => h.2 (hzero h.1)
  rw [readNumber]
  simp only [List.append_assoc]
  rw [bind_of_eq hsign, bind_of_eq hdigits, if_neg hcanonical]
  cases hfraction with
  | absent =>
      rw [List.nil_append,
        bind_of_eq (accept_of_head? fun hhead => (hafter '.' hhead).2 rfl)]
      exact (bind_of_eq rfl _).trans (bind_of_eq hexponentRead _)
  | digits h =>
      rw [List.cons_append, bind_of_eq (accept_self ..)]
      have htake := takeSome_append h.1 h.2 fun c hc => (hafter c hc).1
      exact (bind_of_eq htake _).trans (bind_of_eq hexponentRead _)

/-! ### Documents -/

theorem skipSpace_blank {b : List Char} (hb : Blank b) {c : Char}
    (hc : isSpace c = false) (rest : List Char) :
    skipSpace (b ++ c :: rest) = some ((), c :: rest) :=
  skipWhile_append hb fun d hd => by cases hd; exact hc

theorem Ends.of_blank {b rest : List Char} (hb : Blank b) (h : Ends rest) :
    Ends (b ++ rest) := by
  cases b with
  | nil => exact h
  | cons d b =>
      intro c hc
      cases hc
      have hd := hb d (by simp)
      simp only [isSpace, Bool.or_eq_true, decide_eq_true_eq] at hd
      rcases hd with ((rfl | rfl) | rfl) | rfl <;> decide

/-- What may follow a value in a container: a comma or the closing bracket. -/
def Closes (p : Char) : Prop := p = ',' ∨ p = ']' ∨ p = '\x7d'

theorem Closes.isSpace_eq_false {p : Char} (h : Closes p) :
    isSpace p = false := by
  rcases h with rfl | rfl | rfl <;> rfl

theorem Closes.ends {p : Char} (h : Closes p) (rest : List Char) :
    Ends (p :: rest) := by
  intro c hc
  cases hc
  rcases h with rfl | rfl | rfl <;> decide

/-- What starts like a number is read as one. -/
theorem readValue_of_number {fuel : Nat} {x t rest : List Char}
    {c : Char} {n : Literal} (hx : skipSpace x = some ((), c :: t))
    (hc : startsNumber c = true)
    (hread : readNumber (c :: t) = some (n, rest)) :
    readValue (fuel + 1) x = some (.number n, rest) := by
  rw [readValue, bind_of_eq hx, bind_of_eq (peek_cons ..)]
  generalize hd : some c = d
  split
  case h_7 => exact bind_of_eq hread _
  all_goals (cases hd; exact absurd hc (by decide))

/-- What starts with a quote is read as a text. -/
theorem readValue_of_quote {fuel : Nat} {x s : List Char}
    (hx : skipSpace x = some ((), '"' :: s)) :
    readValue (fuel + 1) x =
      (do return .text (← readText) : Reader Value) s := by
  rw [readValue, bind_of_eq hx]
  rfl

/-- What starts with a bracket is read as a list. -/
theorem readValue_of_bracket {fuel : Nat} {x s : List Char}
    (hx : skipSpace x = some ((), '[' :: s)) :
    readValue (fuel + 1) x = (do
      skipSpace
      if ← accept ']' then return .array [] else
        return .array (← readItems fuel) :
        Reader Value) s := by
  rw [readValue, bind_of_eq hx]
  rfl

/-- What starts with a brace is read as an object. -/
theorem readValue_of_brace {fuel : Nat} {x s : List Char}
    (hx : skipSpace x = some ((), '\x7b' :: s)) :
    readValue (fuel + 1) x = (do
      skipSpace
      if ← accept '\x7d' then return .object [] else
        return .object (← readEntries fuel) :
        Reader Value) s := by
  rw [readValue, bind_of_eq hx]
  rfl

/-- Behind the blanks the items of a list start, and not with a closing
bracket. -/
theorem Spells.skipSpace_items {l : List Value} {s : List Char}
    (h : Spells (.items l) s) (rest : List Char) :
    ∃ c t, c ≠ ']' ∧ isSpace c = false ∧
      skipSpace (s ++ rest) = some ((), c :: t) := by
  cases h with
  | lastItem ha h | item ha h =>
      obtain ⟨c, t, rfl, hc, hclose⟩ := h.exists_cons
      exact ⟨c, _, hclose, hc,
        by rw [List.append_assoc]; exact skipSpace_blank ha hc _⟩

/-- Behind the blanks the entries of an object start with a quote. -/
theorem Spells.skipSpace_entries {l : List (Option String × Value)}
    {s : List Char} (h : Spells (.entries l) s) (rest : List Char) :
    ∃ t, skipSpace (s ++ rest) = some ((), '"' :: t) := by
  cases h with
  | lastEntry ha | entry ha =>
      exact ⟨_,
        by rw [List.append_assoc]; exact skipSpace_blank ha (by decide) _⟩

/-- A part of a document is read where it is spelled, whatever blanks stand
before it. -/
def Reads : Part → List Char → Prop
  | .value v, s => ∀ fuel rest x, 2 * s.length ≤ fuel + 1 → Ends rest →
      skipSpace x = some ((), s ++ rest) →
      readValue (fuel + 1) x = some (v, rest)
  | .items l, s => ∀ fuel rest x, 2 * s.length ≤ fuel + 2 →
      skipSpace x = skipSpace (s ++ rest) →
      readItems (fuel + 1) x = some (l, rest)
  | .entries l, s => ∀ fuel rest x, 2 * s.length ≤ fuel + 2 →
      skipSpace x = skipSpace (s ++ rest) →
      readEntries (fuel + 1) x = some (l, rest)

section Containers

variable {fuel : Nat} {x y s a b k rest : List Char} {p : Char}
  {key : Option String} {v : Value}

/-- A value in a container is read between its blanks. -/
theorem Reads.value (h : Reads (.value v) s) (hs : Spells (.value v) s)
    (ha : Blank a) (hb : Blank b) (hp : Closes p)
    (hfuel : 2 * s.length ≤ fuel + 1)
    (hx : skipSpace x = skipSpace (a ++ (s ++ (b ++ p :: rest)))) :
    readValue (fuel + 1) x = some (v, b ++ p :: rest) := by
  refine h fuel _ x hfuel (.of_blank hb (hp.ends rest)) ?_
  obtain ⟨c, t, rfl, hc, -⟩ := hs.exists_cons
  rw [hx]
  exact skipSpace_blank ha hc _

/-- Behind an item stands a comma and more items, or the closing bracket. -/
theorem readItems_of_value
    (hvalue : readValue fuel x = some (v, b ++ p :: rest)) (hb : Blank b)
    (hp : Closes p) :
    readItems (fuel + 1) x = (do
      if ← accept ',' then return v :: (← readItems fuel)
      else
        expect ']'
        return [v] : Reader (List Value)) (p :: rest) := by
  rw [readItems, bind_of_eq hvalue,
    bind_of_eq (skipSpace_blank hb hp.isSpace_eq_false rest)]

/-- Behind an entry stands a comma and more entries, or the closing brace. -/
theorem readEntries_of_value
    (hx : skipSpace x = skipSpace (a ++ '"' :: (k ++ (b ++ ':' :: y))))
    (ha : Blank a) (hkey : SpellsText key k) (hb : Blank b)
    (hvalue : readValue fuel y = some (v, s ++ p :: rest)) (hs : Blank s)
    (hp : Closes p) :
    readEntries (fuel + 1) x = (do
      if ← accept ',' then return (key, v) :: (← readEntries fuel)
      else
        expect '\x7d'
        return [(key, v)] :
            Reader (List (Option String × Value))) (p :: rest) := by
  have hopen := hx.trans (skipSpace_blank ha (by decide) _)
  rw [readEntries, bind_of_eq hopen, bind_of_eq (expect_self ..),
    bind_of_eq (readText_of_spells hkey _),
    bind_of_eq (skipSpace_blank hb (by decide) _),
    bind_of_eq (expect_self ..), bind_of_eq hvalue,
    bind_of_eq (skipSpace_blank hs hp.isSpace_eq_false rest)]

end Containers

-- The induction follows the grammar. Each case takes one call off the bound and
-- a container takes a second one for what it starts with, so the bound is taken
-- apart before anything else is read.
theorem reads_of_spells {part : Part} {s : List Char} (h : Spells part s) :
    Reads part s := by
  induction h with
  | null | yes | no =>
      intro fuel rest x _ _ hx
      rw [readValue, bind_of_eq hx]
      rfl
  | number h =>
      intro fuel rest x _ hrest hx
      obtain ⟨c, t, rfl, hc⟩ := h.exists_cons
      exact readValue_of_number hx hc (readNumber_of_spells h hrest)
  | text h =>
      intro fuel rest x _ _ hx
      rw [readValue_of_quote hx]
      exact bind_of_eq (readText_of_spells h rest) _
  | @emptyArray b hb =>
      intro fuel rest x _ _ hx
      have hskip : skipSpace (b ++ ([']'] ++ rest)) = some ((), ']' :: rest) :=
        skipSpace_blank hb (by decide) rest
      rw [List.cons_append, List.append_assoc] at hx
      rw [readValue_of_bracket hx, bind_of_eq hskip,
        bind_of_eq (accept_self ..)]
      rfl
  | @array l s h ih =>
      intro fuel rest x hfuel _ hx
      rw [List.length_cons] at hfuel
      obtain ⟨fuel, rfl⟩ : ∃ f, fuel = f + 1 := ⟨fuel - 1, by omega⟩
      obtain ⟨c, t, hclose, hc, hskip⟩ := h.skipSpace_items rest
      have hitems : readItems (fuel + 1) (c :: t) = some (l, rest) :=
        ih fuel rest _ (by omega) (hskip ▸ skipSpace_blank blank_nil hc t)
      rw [List.cons_append] at hx
      rw [readValue_of_bracket hx, bind_of_eq hskip,
        bind_of_eq (accept_of_head? (by simpa using hclose))]
      exact bind_of_eq hitems _
  | @emptyObject b hb =>
      intro fuel rest x _ _ hx
      have hskip : skipSpace (b ++ (['\x7d'] ++ rest)) =
          some ((), '\x7d' :: rest) :=
        skipSpace_blank hb (by decide) rest
      rw [List.cons_append, List.append_assoc] at hx
      rw [readValue_of_brace hx, bind_of_eq hskip, bind_of_eq (accept_self ..)]
      rfl
  | @object l s h ih =>
      intro fuel rest x hfuel _ hx
      rw [List.length_cons] at hfuel
      obtain ⟨fuel, rfl⟩ : ∃ f, fuel = f + 1 := ⟨fuel - 1, by omega⟩
      obtain ⟨t, hskip⟩ := h.skipSpace_entries rest
      have hentries : readEntries (fuel + 1) ('"' :: t) = some (l, rest) :=
        ih fuel rest _ (by omega)
          (hskip ▸ skipSpace_blank blank_nil (by decide) t)
      rw [List.cons_append] at hx
      rw [readValue_of_brace hx, bind_of_eq hskip,
        bind_of_eq (accept_of_head? (by simp))]
      exact bind_of_eq hentries _
  | @lastItem v a s b ha h hb ih =>
      intro fuel rest x hfuel hx
      have hs := h.length_pos
      simp only [List.length_append, List.length_cons,
        List.append_assoc] at hfuel hx
      obtain ⟨fuel, rfl⟩ : ∃ f, fuel = f + 1 := ⟨fuel - 1, by omega⟩
      have hclose : Closes ']' := .inr (.inl rfl)
      have hvalue : readValue (fuel + 1) x = some (v, b ++ ']' :: rest) :=
        ih.value h ha hb hclose (by omega) hx
      rw [readItems_of_value hvalue hb hclose,
        bind_of_eq (accept_of_head? (by simp))]
      exact bind_of_eq (expect_self ..) _
  | @item v l a s b t ha h hb _ ih ihl =>
      intro fuel rest x hfuel hx
      have hs := h.length_pos
      simp only [List.length_append, List.length_cons,
        List.append_assoc] at hfuel hx
      obtain ⟨fuel, rfl⟩ : ∃ f, fuel = f + 1 := ⟨fuel - 1, by omega⟩
      have hclose : Closes ',' := .inl rfl
      have hvalue : readValue (fuel + 1) x =
          some (v, b ++ ',' :: (t ++ rest)) :=
        ih.value h ha hb hclose (by omega) hx
      have hitems : readItems (fuel + 1) (t ++ rest) = some (l, rest) :=
        ihl fuel rest _ (by omega) rfl
      rw [readItems_of_value hvalue hb hclose, bind_of_eq (accept_self ..)]
      exact bind_of_eq hitems _
  | @lastEntry key v a k b c s d ha hkey hb hc h hd ih =>
      intro fuel rest x hfuel hx
      simp only [List.length_append, List.length_cons, List.append_assoc,
        List.cons_append] at hfuel hx
      obtain ⟨fuel, rfl⟩ : ∃ f, fuel = f + 1 := ⟨fuel - 1, by omega⟩
      have hclose : Closes '\x7d' := .inr (.inr rfl)
      have hvalue : readValue (fuel + 1) (c ++ (s ++ (d ++ '\x7d' :: rest))) =
          some (v, d ++ '\x7d' :: rest) :=
        ih.value h hc hd hclose (by omega) rfl
      rw [readEntries_of_value hx ha hkey hb hvalue hd hclose,
        bind_of_eq (accept_of_head? (by simp))]
      exact bind_of_eq (expect_self ..) _
  | @entry key v l a k b c s d t ha hkey hb hc h hd _ ih ihl =>
      intro fuel rest x hfuel hx
      simp only [List.length_append, List.length_cons, List.append_assoc,
        List.cons_append] at hfuel hx
      obtain ⟨fuel, rfl⟩ : ∃ f, fuel = f + 1 := ⟨fuel - 1, by omega⟩
      have hclose : Closes ',' := .inl rfl
      have hvalue : readValue (fuel + 1)
          (c ++ (s ++ (d ++ ',' :: (t ++ rest)))) =
          some (v, d ++ ',' :: (t ++ rest)) :=
        ih.value h hc hd hclose (by omega) rfl
      have hentries : readEntries (fuel + 1) (t ++ rest) = some (l, rest) :=
        ihl fuel rest _ (by omega) rfl
      rw [readEntries_of_value hx ha hkey hb hvalue hd hclose,
        bind_of_eq (accept_self ..)]
      exact bind_of_eq hentries _

/-- Every document is read, in whatever layout it is written. -/
theorem parse?_of_document {v : Value} {text : String} (h : Document v text) :
    parse? text = some v := by
  obtain ⟨a, s, b, ha, h, hb, htext⟩ := h
  obtain ⟨c, t, rfl, hc, -⟩ := h.exists_cons
  have hends : Ends b := by
    have hall : Ends (b ++ []) := .of_blank hb (by simp [Ends])
    rwa [List.append_nil] at hall
  have hvalue : readValue (2 * text.toList.length + 2) text.toList =
      some (v, b) := by
    refine reads_of_spells h (2 * text.toList.length + 1) b _ ?_ hends ?_
    · rw [htext]
      simp only [List.length_append, List.length_cons]
      omega
    · rw [htext]
      exact skipSpace_blank ha hc _
  have hskip : skipSpace b = some ((), []) := by
    have hall : skipWhile isSpace (b ++ []) = some ((), []) :=
      skipWhile_append hb (by simp)
    rwa [List.append_nil] at hall
  refine whole_of_eq ?_
  rw [bind_of_eq hvalue, bind_of_eq hskip]
  rfl

end Json

end Linkage
