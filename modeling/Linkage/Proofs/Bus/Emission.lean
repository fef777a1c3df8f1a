import Linkage.Proofs.Bus.Rewiring

/-!
# Announcements with listeners that rewire

Listeners may connect, disconnect and announce while they are being called, to
any depth. An announcement walks over the listeners it found when it began; the
cursor below knows nothing of such a list. It looks at the listeners that are
connected now and calls the one with the least number that is above the last
one called and below the number that was next when the announcement began, until
there is none. Both make the same calls in the same order.

The laws are stated for an arbitrary way to perform the actions of listeners, as
long as all it does to the buses is rewiring. Announcements that a listener
makes are performed in such a way too, so the laws hold at every depth.

## Main results

* `deliver_of_cursor`, `exists_cursor_of_deliver`: a delivery is a walk of the
  cursor.
* `Cursor.turn_at`: a listener is called if and only if it is connected at its
  turn.
* `emitOn_eq_ok_iff_of_rewires`: what an announcement calls, in which order, and
  what it returns.
* `emitOn_eq_error_iff_of_rewires`: where an announcement breaks off.
-/

namespace Linkage

open Act

namespace World

/-- The listeners of an event on a bus, in the order of their connection. -/
def listeners (w : World) (b : Nat) (e : Event) : List (Nat × Callback) :=
  (channelAt w.buses b e).listeners

/-- The number of the next connection to an event on a bus. -/
def nextId (w : World) (b : Nat) (e : Event) : Nat :=
  (channelAt w.buses b e).nextId

end World

/-- A way to perform the actions of listeners that only rewires the buses. -/
def Performer.Rewires (performer : Performer) : Prop :=
  ∀ a, Keeps World.Rewired (performer none a)

section Walk

variable (performer : Performer) (b : Nat) (s : Signal)

/-- Call listeners with a signal, one after the other. -/
def callAll (l : List (Nat × Callback)) : Act Unit :=
  l.forM fun x => call performer x.2 (.signal s)

/-- From a world and a least number a cursor makes calls and ends in a world: it
calls the connected listener of the least number that is allowed and goes on
above it, or it stops where every number that is allowed reaches the bound. -/
inductive Cursor (bound : Nat) :
    Nat → World → List (Nat × Callback) → World → Prop
  | stop {low : Nat} {w : World}
      (none : ∀ x ∈ w.listeners b s.event, low ≤ x.1 → bound ≤ x.1) :
      Cursor bound low w [] w
  | turn {low : Nat} {w w₁ w' : World} {x : Nat × Callback}
      {runs : List (Nat × Callback)} (mem : x ∈ w.listeners b s.event)
      (allowed : low ≤ x.1) (below : x.1 < bound)
      (least : ∀ y ∈ w.listeners b s.event, low ≤ y.1 → x.1 ≤ y.1)
      (called : (call performer x.2 (.signal s)).run w = .ok () w₁)
      (later : Cursor bound (x.1 + 1) w₁ runs w') :
      Cursor bound low w (x :: runs) w'

/-- The calls that an announcement owes. They are made in connection order, once
each and with its signal; and if the listeners before one have been called, that
one is called in the world reached by then if and only if no move has
disconnected it since the announcement began. -/
structure Exact (w : World) (runs : List (Nat × Callback)) (w' : World) :
    Prop where
  order : runs.Sublist (w.listeners b s.event)
  once : runs.Nodup
  calls : (callAll performer s runs).run w = .ok () w'
  turn : ∀ x ∈ w.listeners b s.event, ∃ v moves,
    (callAll performer s (runs.filter (·.1 < x.1))).run w = .ok () v ∧
      v.buses = moveAll w.buses moves ∧
        (x ∈ runs ↔ Move.disconnect b ⟨s.event, x.1⟩ ∉ moves)

end Walk

variable {performer : Performer} {b : Nat} {s : Signal}

/-! ## Rewiring by callbacks -/

theorem rewired_callable : Callable World.Rewired :=
  { World.rewired_chained with
    record := fun _ _ => .of_buses_eq rfl
    players := fun _ _ => .of_buses_eq rfl
    pause := fun w r paused => .of_buses_eq (by
      unfold World.switchPause
      cases w.runner? r with
      | none => rfl
      | some runner =>
          show (if runner.paused = paused then _ else _ : World).buses = _
          split <;> rfl)
    stop := fun w r => .of_buses_eq (by
      unfold World.switchStop
      cases w.runner? r with
      | none => rfl
      | some runner =>
          show (if runner.stopped = true then _ else _ : World).buses = _
          split <;> rfl) }

theorem call_rewires (hp : performer.Rewires) {k : Callback} {w w' : World}
    (h : (call performer k (.signal s)).run w = .ok () w') : w.Rewired w' :=
  (call_signal_keeps rewired_callable hp k s).of_ok h

theorem callAll_rewires (hp : performer.Rewires) {l : List (Nat × Callback)}
    {w w' : World} (h : (callAll performer s l).run w = .ok () w') :
    w.Rewired w' :=
  (Keeps.forM rewired_callable.toChained l fun x _ =>
    call_signal_keeps rewired_callable hp x.2 s).of_ok h

/-! ## The listeners of a moment, seen later -/

theorem World.mem_listeners_of_rewired {w v : World} (hw : BusesSound w.buses)
    {moves : List Move} (hv : v.buses = moveAll w.buses moves) {e : Event}
    {x : Nat × Callback} (hx : x.1 < w.nextId b e) :
    x ∈ v.listeners b e ↔ x ∈ w.listeners b e ∧
    Move.disconnect b ⟨e, x.1⟩ ∉ moves := by
  unfold World.listeners
  rw [hv]
  exact mem_listeners_moveAll hw moves b e hx

theorem World.lt_nextId {w : World} (hw : BusesSound w.buses) {e : Event}
    {x : Nat × Callback} (hx : x ∈ w.listeners b e) : x.1 < w.nextId b e :=
  (hw b e).below x hx

theorem World.Rewired.sound {w v : World} (h : w.Rewired v)
    (hw : BusesSound w.buses) :
    BusesSound v.buses := by
  obtain ⟨moves, hv⟩ := h
  exact hv ▸ hw.moveAll moves

/-- A listener that is connected at the beginning and at the end is connected
all the time. -/
theorem World.mem_listeners_between {u v w : World} {e : Event}
    {x : Nat × Callback} (hu : BusesSound u.buses) (huv : u.Rewired v)
    (hvw : v.Rewired w) (hx : x ∈ u.listeners b e)
    (hlast : x ∈ w.listeners b e) : x ∈ v.listeners b e := by
  obtain ⟨moves, hmoves⟩ := huv
  obtain ⟨moves', hmoves'⟩ := hvw
  have hlt := World.lt_nextId hu hx
  have hall : w.buses = moveAll u.buses (moves ++ moves') := by
    rw [hmoves', hmoves, moveAll, moveAll, moveAll, List.foldl_append]
  have hkept := ((World.mem_listeners_of_rewired hu hall hlt).1 hlast).2
  refine (World.mem_listeners_of_rewired hu hmoves hlt).2 ⟨hx,
    fun hmem => hkept ?_⟩
  exact List.mem_append_left _ hmem

/-- The flag of a listener of the beginning is up as long as the listener is
connected. -/
theorem World.flag_iff {w v : World} (hw : BusesSound w.buses)
    (hv : w.Rewired v) {e : Event} {x : Nat × Callback}
    (hx : x ∈ w.listeners b e) :
    (v.bus b).flag ⟨e, x.1⟩ = true ↔ x ∈ v.listeners b e := by
  have hflag : (v.bus b).flag ⟨e, x.1⟩ =
      (channelAt v.buses b e).isConnected x.1 :=
    (hv.sound hw b e).flag_eq x.1
  rw [hflag, Channel.isConnected_iff]
  constructor
  · rintro ⟨y, hy, hid⟩
    obtain ⟨moves, hmoves⟩ := hv
    have hlt : y.1 < w.nextId b e := by
      have := World.lt_nextId hw hx
      omega
    have hstart := ((World.mem_listeners_of_rewired hw hmoves hlt).1 hy).1
    have hxy : y = x := Channel.eq_of_id_eq (hw b e) hstart hx hid
    exact hxy ▸ hy
  · intro hmem
    exact ⟨x, hmem, rfl⟩

/-! ## The cursor -/

theorem callAll_cons (x : Nat × Callback) (l : List (Nat × Callback)) :
    callAll performer s (x :: l) =
      (call performer x.2 (.signal s) >>= fun _ => callAll performer s l) := rfl

namespace Cursor

variable {bound low : Nat} {w w' : World} {runs : List (Nat × Callback)}

theorem le_of_mem (h : Cursor performer b s bound low w runs w') :
    ∀ x ∈ runs, low ≤ x.1 := by
  induction h with
  | stop _ => simp
  | turn mem allowed below least called later ih =>
      intro y hy
      rcases List.mem_cons.1 hy with rfl | hy
      · exact allowed
      · have := ih y hy
        omega

theorem run_callAll (h : Cursor performer b s bound low w runs w') :
    (callAll performer s runs).run w = .ok () w' := by
  induction h with
  | stop _ => rfl
  | turn mem allowed below least called later ih =>
      rw [callAll_cons, run_bind, called]
      exact ih

/-- A cursor whose least number is raised past no connected listener makes the
same calls. -/
theorem raise {low' : Nat} (hlow : low ≤ low')
    (hnone : ∀ x ∈ w.listeners b s.event, low ≤ x.1 → low' ≤ x.1) :
    Cursor performer b s bound low w runs w' ↔
      Cursor performer b s bound low' w runs w' := by
  constructor
  · intro h
    cases h with
    | stop none => exact .stop fun x hx hle => none x hx (by omega)
    | turn mem allowed below least called later =>
        exact .turn mem (hnone _ mem allowed) below
          (fun y hy hle => least y hy (by omega)) called later
  · intro h
    cases h with
    | stop none => exact .stop fun x hx hle => none x hx (hnone x hx hle)
    | turn mem allowed below least called later =>
        exact .turn mem (by omega) below
          (fun y hy hle => least y hy (hnone y hy hle)) called later

/-- A listener is called if and only if it is connected at its turn, when the
listeners before it have been called. -/
theorem turn_at (hp : performer.Rewires) (hw : BusesSound w.buses)
    (h : Cursor performer b s bound low w runs w') (x : Nat × Callback)
    (hlow : low ≤ x.1) (hbound : x.1 < bound) :
    ∃ v, (callAll performer s (runs.filter (·.1 < x.1))).run w = .ok () v ∧
      (x ∈ runs ↔ x ∈ v.listeners b s.event) := by
  induction h with
  | @stop low w none =>
      refine ⟨w, rfl, ?_⟩
      have hnot : x ∉ w.listeners b s.event := by
        intro hx
        have := none x hx hlow
        omega
      simp [hnot]
  | @turn low w w₁ w' y runs mem allowed below least called later ih =>
      have habove := le_of_mem later
      rcases Nat.lt_or_ge y.1 x.1 with hlt | hge
      · obtain ⟨v, hv, hiff⟩ :=
          ih ((call_rewires hp called).sound hw) (by omega)
        refine ⟨v, ?_, ?_⟩
        · rw [List.filter_cons_of_pos (by simpa using hlt), callAll_cons,
            run_bind, called]
          exact hv
        · have hne : x ≠ y := by
            rintro rfl
            exact Nat.lt_irrefl _ hlt
          rw [List.mem_cons, ← hiff]
          simp [hne]
      · have hfilter : (y :: runs).filter (·.1 < x.1) = [] := by
          rw [List.filter_eq_nil_iff]
          intro z hz
          have hz' : y.1 ≤ z.1 := by
            rcases List.mem_cons.1 hz with rfl | hz
            · exact Nat.le_refl _
            · have := habove z hz
              omega
          simp
          omega
        refine ⟨w, by rw [hfilter]; rfl, ?_⟩
        have hnot : x ∉ runs := by
          intro hx
          have := habove x hx
          omega
        rw [List.mem_cons]
        constructor
        · rintro (rfl | hx)
          · exact mem
          · exact absurd hx hnot
        · intro hx
          have hle := least x hx hlow
          exact .inl (Channel.eq_of_id_eq (hw b s.event) hx mem (by omega))

end Cursor

/-! ## The walk over the listeners of the beginning -/

/-- Deliver a signal to the listeners of a list whose flags are still up at
their turn. -/
def deliverOn (performer : Performer) (b : Nat) (s : Signal)
    (l : List (Nat × Callback)) :
    Act Nat :=
  Channel.deliver (flagNow b s.event) (fun k => call performer k (.signal s)) l

theorem deliverOn_rewires (hp : performer.Rewires) (b : Nat) (s : Signal)
    (l : List (Nat × Callback)) :
    Keeps World.Rewired (deliverOn performer b s l) := by
  refine Keeps.deliver World.rewired_chained (fun id => ?_) l
    fun x _ => call_signal_keeps rewired_callable hp x.2 s
  exact fun w => World.rewired_chained.refl w

theorem run_deliverOn_cons (x : Nat × Callback)
    (rest : List (Nat × Callback)) (w : World) :
    (deliverOn performer b s (x :: rest)).run w =
      if (w.bus b).flag ⟨s.event, x.1⟩ then
        (call performer x.2 (.signal s) >>= fun _ =>
          deliverOn performer b s rest >>= fun n => pure (n + 1)).run w
      else (deliverOn performer b s rest).run w := by
  obtain ⟨id, k⟩ := x
  have hflag : (flagNow b s.event id).run w =
      .ok ((w.bus b).flag ⟨s.event, id⟩) w := rfl
  show (flagNow b s.event id >>= fun up => _ : Act Nat).run w = _
  rw [run_bind, hflag]
  cases (w.bus b).flag ⟨s.event, id⟩ <;> rfl

theorem run_emitOn (performer : Performer) (b : Nat) (s : Signal) (w : World) :
    (emitOn performer b s).run w =
      (deliverOn performer b s (w.listeners b s.event)).run w := by
  have hlisteners : w.listeners b s.event =
      (((w.bus b).channel? s.event).getD {}).listeners := rfl
  unfold emitOn
  rw [run_get_bind, hlisteners]
  cases (w.bus b).channel? s.event <;> rfl

/-- What is left of a walk: the listeners of the beginning from some number
on. -/
structure Remaining (b : Nat) (e : Event) (start : World) (low : Nat)
    (rest : List (Nat × Callback)) : Prop where
  sorted : rest.Pairwise fun x y => x.1 < y.1
  mem_iff : ∀ x, x ∈ rest ↔ x ∈ start.listeners b e ∧ low ≤ x.1

namespace Remaining

variable {e : Event} {start : World} {low : Nat} {x : Nat × Callback}
  {rest : List (Nat × Callback)}

theorem all (hstart : BusesSound start.buses) :
    Remaining b e start 0 (start.listeners b e) :=
  { sorted := (hstart b e).sorted, mem_iff := by simp }

theorem tail (h : Remaining b e start low (x :: rest)) :
    Remaining b e start (x.1 + 1) rest := by
  have hsorted := List.pairwise_cons.1 h.sorted
  refine { sorted := hsorted.2, mem_iff := ?_ }
  intro y
  constructor
  · intro hy
    have hlt := hsorted.1 y hy
    exact ⟨((h.mem_iff y).1 (by simp [hy])).1, hlt⟩
  · rintro ⟨hy, hlt⟩
    have hx := (h.mem_iff x).1 (by simp)
    have hmem := (h.mem_iff y).2 ⟨hy, by omega⟩
    rcases List.mem_cons.1 hmem with rfl | hmem
    · omega
    · exact hmem

end Remaining

section Equivalence

variable {start w : World} (hstart : BusesSound start.buses)
  (hw : start.Rewired w) {e : Event} {low : Nat} {x y : Nat × Callback}
  {rest : List (Nat × Callback)}
include hstart hw

/-- What is connected now below the bound is left of the walk. -/
theorem Remaining.mem_of_connected (hrest : Remaining b e start low rest)
    (hy : y ∈ w.listeners b e) (hlow : low ≤ y.1)
    (hbound : y.1 < start.nextId b e) :
    y ∈ rest := by
  obtain ⟨moves, hmoves⟩ := hw
  have hmem := ((World.mem_listeners_of_rewired hstart hmoves hbound).1 hy).1
  exact (hrest.mem_iff y).2 ⟨hmem, hlow⟩

/-- The first listener that is left has the least number that can be connected
now. -/
theorem Remaining.le_of_connected (hrest : Remaining b e start low (x :: rest))
    (hy : y ∈ w.listeners b e) (hlow : low ≤ y.1) : x.1 ≤ y.1 := by
  have hx := World.lt_nextId hstart ((hrest.mem_iff x).1 (by simp)).1
  rcases Nat.lt_or_ge y.1 (start.nextId b e) with hbound | hbound
  · rcases List.mem_cons.1 (hrest.mem_of_connected hstart hw hy hlow hbound)
      with rfl | hmem
    · exact Nat.le_refl _
    · exact Nat.le_of_lt ((List.pairwise_cons.1 hrest.sorted).1 y hmem)
  · omega

/-- If the first listener that is left is not connected now, nothing is that has
its number. -/
theorem Remaining.lt_of_connected (hrest : Remaining b e start low (x :: rest))
    (hx : x ∉ w.listeners b e) (hy : y ∈ w.listeners b e) (hlow : low ≤ y.1) :
    x.1 + 1 ≤ y.1 := by
  have hle := hrest.le_of_connected hstart hw hy hlow
  have hne : x.1 ≠ y.1 := by
    intro hid
    have hxstart := ((hrest.mem_iff x).1 (by simp)).1
    have hbound : y.1 < start.nextId b e := hid ▸ World.lt_nextId hstart hxstart
    have hystart := ((hrest.mem_iff y).1
      (hrest.mem_of_connected hstart hw hy hlow hbound)).1
    exact hx (Channel.eq_of_id_eq (hstart b e) hxstart hystart hid ▸ hy)
  omega

end Equivalence

/-- A delivery makes the calls of a cursor. -/
theorem exists_cursor_of_deliver (hp : performer.Rewires) {start : World}
    (hstart : BusesSound start.buses) {rest : List (Nat × Callback)} :
    ∀ {low n : Nat} {w w' : World}, start.Rewired w →
      Remaining b s.event start low rest →
      (deliverOn performer b s rest).run w = .ok n w' →
      ∃ runs, runs.length = n ∧ runs.Sublist rest ∧
        Cursor performer b s (start.nextId b s.event) low w runs w' := by
  induction rest with
  | nil =>
      intro low n w w' hw hrest h
      cases h
      refine ⟨[], rfl, List.Sublist.refl _, .stop fun x hx hlow => ?_⟩
      by_contra hbound
      have := hrest.mem_of_connected hstart hw hx hlow (by omega)
      simp at this
  | cons x rest ih =>
      intro low n w w' hw hrest h
      have hx := (hrest.mem_iff x).1 (by simp)
      rw [run_deliverOn_cons] at h
      by_cases hflag : (w.bus b).flag ⟨s.event, x.1⟩ = true
      · rw [if_pos hflag] at h
        obtain ⟨⟨⟩, w₁, hcall, h⟩ := run_bind_eq_ok_iff.1 h
        obtain ⟨m, w₂, hrun, h⟩ := run_bind_eq_ok_iff.1 h
        cases h
        obtain ⟨runs, hlength, hsub, hcursor⟩ :=
          ih (World.rewired_chained.trans hw (call_rewires hp hcall))
            hrest.tail hrun
        refine ⟨x :: runs, by simp [hlength], hsub.cons_cons x, ?_⟩
        exact .turn ((World.flag_iff hstart hw hx.1).1 hflag) hx.2
          (World.lt_nextId hstart hx.1)
          (fun y hy hlow => hrest.le_of_connected hstart hw hy hlow)
            hcall hcursor
      · rw [if_neg hflag] at h
        have hnot := fun hmem => hflag ((World.flag_iff hstart hw hx.1).2 hmem)
        obtain ⟨runs, hlength, hsub, hcursor⟩ := ih hw hrest.tail h
        refine ⟨runs, hlength, hsub.cons x,
          (Cursor.raise (by omega) ?_).2 hcursor⟩
        exact fun y hy hlow => hrest.lt_of_connected hstart hw hnot hy hlow

/-- The calls of a cursor are those of a delivery. -/
theorem deliver_of_cursor (hp : performer.Rewires) {start : World}
    (hstart : BusesSound start.buses) {rest : List (Nat × Callback)} :
    ∀ {low : Nat} {w w' : World} {runs : List (Nat × Callback)},
      start.Rewired w →
      Remaining b s.event start low rest →
      Cursor performer b s (start.nextId b s.event) low w runs w' →
      (deliverOn performer b s rest).run w = .ok runs.length w' := by
  induction rest with
  | nil =>
      intro low w w' runs hw hrest h
      cases h with
      | stop none => rfl
      | turn mem allowed below least called later =>
          have := hrest.mem_of_connected hstart hw mem allowed below
          simp at this
  | cons x rest ih =>
      intro low w w' runs hw hrest h
      have hx := (hrest.mem_iff x).1 (by simp)
      rw [run_deliverOn_cons]
      by_cases hflag : (w.bus b).flag ⟨s.event, x.1⟩ = true
      · have hmem := (World.flag_iff hstart hw hx.1).1 hflag
        rw [if_pos hflag]
        cases h with
        | stop none =>
            have := none x hmem hx.2
            have := World.lt_nextId hstart hx.1
            omega
        | @turn _ _ w₁ _ y runs mem allowed below least called later =>
            have hle := hrest.le_of_connected hstart hw mem allowed
            have hge := least x hmem hx.2
            have hxy : x = y :=
              Channel.eq_of_id_eq (hw.sound hstart b s.event) hmem
                mem (by omega)
            subst hxy
            have hrun :=
              ih (World.rewired_chained.trans hw (call_rewires hp called))
                hrest.tail
              later
            rw [run_bind, called]
            show (deliverOn performer b s rest >>= _).run w₁ = _
            rw [run_bind, hrun]
            rfl
      · have hnot := fun hmem => hflag ((World.flag_iff hstart hw hx.1).2 hmem)
        rw [if_neg hflag]
        exact ih hw hrest.tail ((Cursor.raise (by omega) fun y hy hlow =>
          hrest.lt_of_connected hstart hw hnot hy hlow).1 h)

/-- The calls of a cursor over listeners of the beginning are the calls that are
owed. -/
theorem Cursor.exact (hp : performer.Rewires) {w w' : World}
    (hw : BusesSound w.buses) {runs : List (Nat × Callback)}
    (hsub : runs.Sublist (w.listeners b s.event))
    (h : Cursor performer b s (w.nextId b s.event) 0 w runs w') :
    Exact performer b s w runs w' := by
  refine { order := hsub, once := ?_, calls := h.run_callAll, turn := ?_ }
  · refine ((hw b s.event).sorted.sublist hsub).imp ?_
    rintro x y hlt rfl
    exact Nat.lt_irrefl _ hlt
  · intro x hx
    have hbound := World.lt_nextId hw hx
    obtain ⟨v, hv, hiff⟩ := h.turn_at hp hw x (Nat.zero_le _) hbound
    obtain ⟨moves, hmoves⟩ := callAll_rewires hp hv
    refine ⟨v, moves, hv, hmoves, ?_⟩
    rw [hiff, World.mem_listeners_of_rewired hw hmoves hbound]
    simp [hx]

/-- An announcement returns a number exactly when the cursor makes that many
calls, and these are the calls that are owed. -/
theorem emitOn_eq_ok_iff_of_rewires (hp : performer.Rewires) {w w' : World}
    (hw : BusesSound w.buses) (n : Nat) :
    (emitOn performer b s).run w = .ok n w' ↔
      ∃ runs, runs.length = n ∧
        Cursor performer b s (w.nextId b s.event) 0 w runs w' ∧
        Exact performer b s w runs w' := by
  have hall := Remaining.all hw (b := b) (e := s.event)
  rw [run_emitOn]
  constructor
  · intro h
    obtain ⟨runs, hlength, hsub, hcursor⟩ :=
      exists_cursor_of_deliver hp hw (World.rewired_chained.refl w) hall h
    exact ⟨runs, hlength, hcursor, hcursor.exact hp hw hsub⟩
  · rintro ⟨runs, rfl, hcursor, -⟩
    exact deliver_of_cursor hp hw (World.rewired_chained.refl w) hall hcursor

/-! ## Announcements that break off -/

section Breaking

variable {cause : Panic} {w' : World}

/-- A delivery that breaks off has made the calls of a cursor that is bounded by
the listener that it broke off in, and calls that one. -/
theorem exists_cursor_of_deliver_error (hp : performer.Rewires) {start : World}
    (hstart : BusesSound start.buses) {rest : List (Nat × Callback)} :
    ∀ {low : Nat} {w : World}, start.Rewired w →
      Remaining b s.event start low rest →
      (deliverOn performer b s rest).run w = .error cause w' →
      ∃ runs x v, x ∈ rest ∧ Cursor performer b s x.1 low w runs v ∧
        x ∈ v.listeners b s.event ∧
        (call performer x.2 (.signal s)).run v = .error cause w' := by
  induction rest with
  | nil =>
      intro low w hw hrest h
      cases h
  | cons y rest ih =>
      intro low w hw hrest h
      have hy := (hrest.mem_iff y).1 (by simp)
      rw [run_deliverOn_cons] at h
      by_cases hflag : (w.bus b).flag ⟨s.event, y.1⟩ = true
      · have hmem := (World.flag_iff hstart hw hy.1).1 hflag
        rw [if_pos hflag] at h
        rcases run_bind_eq_error_iff.1 h with hcall | ⟨⟨⟩, w₁, hcall, h⟩
        · exact ⟨[], y, w, List.mem_cons_self,
            .stop fun z hz hlow =>
              hrest.le_of_connected hstart hw hz hlow, hmem, hcall⟩
        · rcases run_bind_eq_error_iff.1 h with hrun | ⟨m, w₂, -, hdone⟩
          · obtain ⟨runs, x, v, hx, hcursor, hconnected, hbreaks⟩ :=
              ih (World.rewired_chained.trans hw (call_rewires hp hcall))
                hrest.tail hrun
            have hbelow : y.1 < x.1 :=
              (List.pairwise_cons.1 hrest.sorted).1 x hx
            exact ⟨y :: runs, x, v, List.mem_cons_of_mem y hx,
              .turn hmem hy.2 hbelow
                (fun z hz hlow => hrest.le_of_connected hstart hw hz hlow)
                hcall hcursor,
              hconnected, hbreaks⟩
          · cases hdone
      · rw [if_neg hflag] at h
        have hnot := fun hmem => hflag ((World.flag_iff hstart hw hy.1).2 hmem)
        obtain ⟨runs, x, v, hx, hcursor, hconnected, hbreaks⟩ :=
          ih hw hrest.tail h
        refine ⟨runs, x, v, List.mem_cons_of_mem y hx,
          (Cursor.raise (by omega) fun z hz hlow => ?_).2 hcursor,
          hconnected, hbreaks⟩
        exact hrest.lt_of_connected hstart hw hnot hz hlow

/-- Where a cursor that is bounded by a connected listener gets to and the call
of that one breaks off, a delivery breaks off. -/
theorem deliver_error_of_cursor (hp : performer.Rewires) {start : World}
    (hstart : BusesSound start.buses) {x : Nat × Callback}
    (hx : x.1 < start.nextId b s.event) {rest : List (Nat × Callback)} :
    ∀ {low : Nat} {w v : World} {runs : List (Nat × Callback)},
      start.Rewired w →
      Remaining b s.event start low rest → low ≤ x.1 →
      Cursor performer b s x.1 low w runs v →
      x ∈ v.listeners b s.event →
      (call performer x.2 (.signal s)).run v = .error cause w' →
      (deliverOn performer b s rest).run w = .error cause w' ∧
      (runs ++ [x]).Sublist rest := by
  induction rest with
  | nil =>
      intro low w v runs hw hrest hlow hcursor hconnected hbreaks
      have hv := World.rewired_chained.trans hw
        (callAll_rewires hp hcursor.run_callAll)
      have := hrest.mem_of_connected hstart hv hconnected hlow hx
      simp at this
  | cons y rest ih =>
      intro low w v runs hw hrest hlow hcursor hconnected hbreaks
      have hy := (hrest.mem_iff y).1 (by simp)
      have hwv := callAll_rewires hp hcursor.run_callAll
      have hleft : x ∈ y :: rest := hrest.mem_of_connected hstart
        (World.rewired_chained.trans hw hwv) hconnected hlow hx
      rw [run_deliverOn_cons]
      by_cases hflag : (w.bus b).flag ⟨s.event, y.1⟩ = true
      · have hmem := (World.flag_iff hstart hw hy.1).1 hflag
        rw [if_pos hflag]
        cases hcursor with
        | stop none =>
            have hle := hrest.le_of_connected hstart hw hconnected hlow
            have hge := none y hmem hy.2
            obtain rfl : x = y :=
              Channel.eq_of_id_eq (hw.sound hstart b s.event) hconnected
                hmem (by omega)
            exact ⟨run_bind_eq_error_iff.2 (.inl hbreaks), by simp⟩
        | @turn _ _ w₁ _ z runs mem allowed below least called later =>
            have hle := hrest.le_of_connected hstart hw mem allowed
            have hge := least y hmem hy.2
            obtain rfl : y = z :=
              Channel.eq_of_id_eq (hw.sound hstart b s.event) hmem
                mem (by omega)
            obtain ⟨hrun, hsub⟩ :=
              ih (World.rewired_chained.trans hw (call_rewires hp called))
              hrest.tail below later hconnected hbreaks
            refine ⟨?_, hsub.cons_cons y⟩
            rw [run_bind_of_ok called]
            exact run_bind_eq_error_iff.2 (.inl hrun)
      · have hnot := fun hmem => hflag ((World.flag_iff hstart hw hy.1).2 hmem)
        have hne : x ≠ y := by
          rintro rfl
          exact hnot (World.mem_listeners_between hstart hw hwv hy.1 hconnected)
        have hin : x ∈ rest := (List.mem_cons.1 hleft).resolve_left hne
        have hbelow : y.1 + 1 ≤ x.1 :=
          (List.pairwise_cons.1 hrest.sorted).1 x hin
        rw [if_neg hflag]
        obtain ⟨hrun, hsub⟩ := ih hw hrest.tail hbelow
          ((Cursor.raise (by omega) fun z hz hz' =>
            hrest.lt_of_connected hstart hw hnot hz hz').1 hcursor)
              hconnected hbreaks
        exact ⟨hrun, hsub.cons y⟩

/-- An announcement breaks off if the cursor gets to a connected listener that
does. -/
theorem emitOn_eq_error_iff_of_rewires (hp : performer.Rewires) {w : World}
    (hw : BusesSound w.buses) : (emitOn performer b s).run w = .error cause w' ↔
      ∃ runs x v, Cursor performer b s x.1 0 w runs v ∧
        x.1 < w.nextId b s.event ∧
        x ∈ v.listeners b s.event ∧
        (call performer x.2 (.signal s)).run v = .error cause w' := by
  have hall := Remaining.all hw (b := b) (e := s.event)
  have hrefl := World.rewired_chained.refl w
  rw [run_emitOn]
  constructor
  · intro h
    obtain ⟨runs, x, v, hx, hcursor, hconnected, hbreaks⟩ :=
      exists_cursor_of_deliver_error hp hw hrefl hall h
    exact ⟨runs, x, v, hcursor, World.lt_nextId hw hx, hconnected, hbreaks⟩
  · rintro ⟨runs, x, v, hcursor, hbelow, hconnected, hbreaks⟩
    exact (deliver_error_of_cursor hp hw hbelow hrefl hall (Nat.zero_le _)
      hcursor hconnected hbreaks).1

end Breaking

end Linkage
