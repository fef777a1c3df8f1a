import Linkage.Proofs.Bus.Moves

/-!
# Panics of listeners

A panic in the turn of a listener cuts through everything that is going on: the
script of the listener, the announcement or the publication that it was called
in, the action of another listener that made that one, and so on to the
outermost announcement, whose caller it reaches. Nothing is done on its way. So
each announcement in progress has called those of its listeners that come before
the one it is cut at and were still connected at their turn, and the buses are
what the moves made before the panic have left.

Performing actions breaks off in no other way, as long as there is depth for the
nesting.

## Main results

* `Unwinding.breaksOff`: whatever a panic cuts through breaks off with it.
* `unwinds`: what breaks off is cut through by a panic.
* `Unwinding.cut`: what each announcement in progress has called.
* `emitOn_perform_eq_error_iff`: when an announcement breaks off, and what it
  leaves.
-/

namespace Linkage

open Act

/-! ## Calls that break off -/

section Performing

variable {performer : Performer} {w w' : World} {cause : Panic}

theorem playScript_append (label : String) (index : Nat)
    (done rest : List Action) :
    playScript performer label index (done ++ rest) =
      playScript performer label index done >>= fun _ =>
        playScript performer label (index + done.length) rest := by
  induction done generalizing index with
  | nil => rfl
  | cons a done ih =>
      have hindex : index + (a :: done).length = index + 1 + done.length := by
        rw [List.length_cons]
        omega
      rw [List.cons_append, playScript, playScript, ih, hindex]
      simp only [bind_assoc]

/-- A script breaks off in one of its actions, after those before it have been
performed. -/
theorem playScript_eq_error_iff {label : String} {index : Nat}
    {script : List Action} :
    (playScript performer label index script).run w = .error cause w' ↔
      ∃ done a rest v, script = done ++ a :: rest ∧
        (playScript performer label index done).run w = .ok () v ∧
          (performer none a).run v = .error cause w' := by
  constructor
  · induction script generalizing index w with
    | nil =>
        intro h
        cases h
    | cons a rest ih =>
        intro h
        have hcons : (performer none a >>= fun reply =>
          record (.acted label index reply) >>=
          fun _ => playScript performer label (index + 1) rest).run w =
            .error cause w' := h
        rcases run_bind_eq_error_iff.1 hcons with
          hfirst | ⟨reply, v, hfirst, hrest⟩
        · exact ⟨[], a, rest, w, rfl, rfl, hfirst⟩
        · have hafter : (playScript performer label (index + 1) rest).run
              (v.record (.acted label index reply)) = .error cause w' := hrest
          obtain ⟨done, c, later, u, rfl, hdone, hbreaks⟩ := ih hafter
          refine ⟨a :: done, c, later, u, rfl, ?_, hbreaks⟩
          exact run_bind_eq_ok_iff.2 ⟨reply, v, hfirst, hdone⟩
  · rintro ⟨done, a, rest, v, rfl, hdone, hbreaks⟩
    rw [playScript_append, run_bind_of_ok hdone]
    exact run_bind_eq_error_iff.2 (.inl hbreaks)

/-- A callback breaks off only if it is a player that has runs left, and then in
its response. -/
theorem call_eq_error_iff {k : Callback} {what : Delivery} :
    (call performer k what).run w = .error cause w' ↔ ∃ id p n, k = .player id ∧
      w.players[id]? = some p ∧ p.remaining = n + 1 ∧
        (playScript performer p.label 0 (p.response n what)).run
          (w.begun id p what n) = .error cause w' := by
  constructor
  · intro h
    cases k with
    | player id =>
        have hplay : (play performer id what).run w = .error cause w' := by
          cases what <;> exact h
        unfold play at hplay
        rw [run_get_bind] at hplay
        cases hplayer : w.players[id]? with
        | none =>
            rw [hplayer] at hplay
            cases hplay
        | some p =>
            rw [hplayer] at hplay
            cases hremaining : p.remaining with
            | zero =>
                simp only [hremaining] at hplay
                cases hplay
            | succ n =>
                simp only [hremaining] at hplay
                exact ⟨id, p, n, rfl, hplayer, hremaining, hplay⟩
    | pauseSwitch r =>
        cases what with
        | signal s => cases s <;> cases h
        | message bytes => cases h
    | stopSwitch r =>
        cases what with
        | signal s => cases s <;> cases h
        | message bytes => cases h
    | detach j => cases what <;> cases h
  · rintro ⟨id, p, n, rfl, hplayer, hremaining, hscript⟩
    rw [← run_play_of_remaining what hplayer hremaining] at hscript
    cases what <;> exact hscript

theorem run_onBus (number : Nat) (f : Nat → Act Reply) (w : World) :
    (onBus number f).run w =
      (f (w.busNumbered number).1).run (w.busNumbered number).2 :=
  run_bind_of_ok (run_change _ w) f

theorem onConnection_returns {label : String} {f : Connection → Act Reply}
    (h : ∀ c w, (f c).run w ≠ .error cause w') :
    (onConnection label f).run w ≠ .error cause w' := by
  unfold onConnection
  rw [run_get_bind]
  cases w.names.connections.get? label with
  | none => exact nofun
  | some c => exact h c w

theorem requestJoint_returns (label : String) :
    (requestJoint label).run w ≠ .error cause w' := by
  unfold requestJoint onJoint
  rw [run_get_bind]
  cases w.names.joints.get? label with
  | none => exact nofun
  | some j => exact nofun

/-- An action breaks off only if it panics, announces a signal or publishes a
message. -/
theorem performWith_eq_error_iff {a : Action} :
    (performWith performer none a).run w = .error cause w' ↔
      (a = .panic cause.text ∧ w' = w) ∨
      (∃ number payload s, a = .emit number payload ∧
        payload.signal? w.names = some s ∧
        (emitOn performer (w.busNumbered number).1 s).run
          (w.busNumbered number).2 = .error cause w') ∨
      ∃ t name bytes receivers, a = .publish t name bytes ∧
        (w.transport t).receivers name = .ok receivers ∧
          (receivers.forM (hand performer t name bytes)).run w =
            .error cause w' := by
  constructor
  · intro h
    cases a with
    | emit number payload =>
        have hemit : (onBus number fun b => _).run w = .error cause w' := h
        rw [run_onBus, run_get_bind, World.names_busNumbered] at hemit
        cases hs : payload.signal? w.names with
        | none =>
            rw [hs] at hemit
            cases hemit
        | some s =>
            rw [hs] at hemit
            rcases run_bind_eq_error_iff.1 hemit with herror | ⟨n, v, -, hdone⟩
            · exact .inr (.inl ⟨number, payload, s, rfl, hs, herror⟩)
            · cases hdone
    | publish t name bytes =>
        have hpublish : (publishOn performer t name bytes).run w =
            .error cause w' := by
          rcases run_bind_eq_error_iff.1 h with herror | ⟨result, v, -, hdone⟩
          · exact herror
          · cases result <;> cases hdone
        unfold publishOn at hpublish
        rw [run_get_bind] at hpublish
        cases hreceivers : (w.transport t).receivers name with
        | error e =>
            rw [hreceivers] at hpublish
            cases hpublish
        | ok receivers =>
            rw [hreceivers] at hpublish
            rcases run_bind_eq_error_iff.1 hpublish with
              herror | ⟨⟨⟩, v, -, hdone⟩
            · exact .inr (.inr ⟨t, name, bytes, receivers, rfl,
                hreceivers, herror⟩)
            · cases hdone
    | panic text =>
        cases h
        exact .inl ⟨rfl, rfl⟩
    | disconnect number label =>
        exact absurd h (onConnection_returns fun c v => nofun)
    | isConnected number label =>
        exact absurd h (onConnection_returns fun c v => nofun)
    | same label other =>
        exact absurd h (onConnection_returns fun c v =>
          onConnection_returns fun d u => nofun)
    | request label => exact absurd h (requestJoint_returns label)
    | message label => exact absurd h (requestJoint_returns label)
    | describeChannel number event fresh => cases fresh <;> cases h
    | _ => cases h
  · rintro (⟨rfl, rfl⟩ | ⟨number, payload, s, rfl, hs, herror⟩ |
      ⟨t, name, bytes, receivers, rfl, hreceivers, herror⟩)
    · rfl
    · have hemit : (onBus number fun b => _).run w =
          (performWith performer none (.emit number payload)).run w := rfl
      rw [← hemit, run_onBus, run_get_bind, World.names_busNumbered, hs]
      exact run_bind_eq_error_iff.2 (.inl herror)
    · have hpublish : (publishOn performer t name bytes).run w =
          .error cause w' := by
        unfold publishOn
        rw [run_get_bind, hreceivers]
        exact run_bind_eq_error_iff.2 (.inl herror)
      exact run_bind_eq_error_iff.2 (.inl hpublish)

end Performing

/-! ## What a panic cuts through -/

/-- Something that is going on when a panic cuts through it. -/
inductive Doing
  | turn (k : Callback) (what : Delivery)
  | action (a : Action)
  | announcement (b : Nat) (s : Signal)

/-- Something that is done with a bounded depth of nesting breaks off. -/
def Doing.BreaksOff (depth : Nat) (w : World) (cause : Panic) (w' : World) :
    Doing → Prop
  | .turn k what => (call (perform depth) k what).run w = .error cause w'
  | .action a => (perform depth none a).run w = .error cause w'
  | .announcement b s => (emitOn (perform depth) b s).run w = .error cause w'

/-- An announcement in progress when a listener panics: the depth of nesting
that is left for it, its bus and signal, the world in which it began, the
listeners that it has called, and the listener in whose turn the panic happens,
with the world that it was called in. -/
structure Frame where
  depth : Nat
  bus : Nat
  signal : Signal
  start : World
  called : List (Nat × Callback)
  panicking : Nat × Callback
  reached : World

/-- The way of a panic out of an action that panics, through scripts and turns
and announcements in progress, the innermost of which is the last. -/
inductive Unwinding (cause : Panic) (w' : World) :
    Nat → Doing → World → List Frame → Prop
  | panic {depth : Nat} :
      Unwinding cause w' (depth + 1) (.action (.panic cause.text)) w' []
  | emit {depth number : Nat} {payload : Payload} {s : Signal} {w : World}
      {frames : List Frame} (signal : payload.signal? w.names = some s)
      (inside :
        Unwinding cause w' depth (.announcement (w.busNumbered number).1 s)
        (w.busNumbered number).2 frames) :
      Unwinding cause w' (depth + 1) (.action (.emit number payload)) w frames
  | publish {depth t : Nat} {name : String} {bytes : List UInt8} {w v : World}
      {before after : List Callback} {k : Callback} {frames : List Frame}
      (receivers : (w.transport t).receivers name = .ok (before ++ k :: after))
      (handed : (before.forM (hand (perform depth) t name bytes)).run w =
        .ok () v)
      (inside :
        Unwinding cause w' depth (.turn k (.message bytes))
          (v.note (.handed t name k)) frames) :
      Unwinding cause w' (depth + 1) (.action (.publish t name bytes)) w frames
  | turn {depth id n : Nat} {what : Delivery} {p : Player} {w v : World}
      {done rest : List Action} {a : Action} {frames : List Frame}
      (player : w.players[id]? = some p) (remaining : p.remaining = n + 1)
      (response : p.response n what = done ++ a :: rest)
      (performed :
        (playScript (perform depth) p.label 0 done).run (w.begun id p what n) =
        .ok () v)
      (inside : Unwinding cause w' depth (.action a) v frames) :
      Unwinding cause w' depth (.turn (.player id) what) w frames
  | announcement {depth b : Nat} {s : Signal} {w v : World}
      {runs : List (Nat × Callback)} {x : Nat × Callback} {frames : List Frame}
      (before : Cursor (perform depth) b s x.1 0 w runs v)
      (below : x.1 < w.nextId b s.event) (connected : x ∈ v.listeners b s.event)
      (inside : Unwinding cause w' depth (.turn x.2 (.signal s)) v frames) :
      Unwinding cause w' depth (.announcement b s) w
        (⟨depth, b, s, w, runs, x, v⟩ :: frames)

/-! ## Sound buses on the way -/

section Sound

variable {depth : Nat} {w v : World}

theorem BusesSound.of_performed {label : String} {index : Nat}
    {done : List Action} (hw : BusesSound w.buses)
    (h : (playScript (perform depth) label index done).run w = .ok () v) :
    BusesSound v.buses :=
  (makes_playScript (makes_perform depth) label index done).sound_of_ok hw h

theorem BusesSound.of_handed {t : Nat} {name : String} {bytes : List UInt8}
    {before : List Callback} (hw : BusesSound w.buses)
    (h : (before.forM (hand (perform depth) t name bytes)).run w = .ok () v) :
    BusesSound v.buses :=
  (makes_forM_hand (makes_perform depth) t name bytes before).sound_of_ok hw h

theorem Cursor.sound {b bound low : Nat} {s : Signal}
    {runs : List (Nat × Callback)}
    (h : Cursor (perform depth) b s bound low w runs v)
    (hw : BusesSound w.buses) :
    BusesSound v.buses :=
  (callAll_rewires (perform_rewires depth) h.run_callAll).sound hw

end Sound

section Unwinding

variable {cause : Panic} {w' : World}

/-- Whatever a panic cuts through breaks off with it, in the world that it
happened in. -/
theorem Unwinding.breaksOff {depth : Nat} {doing : Doing} {w : World}
    {frames : List Frame} (h : Unwinding cause w' depth doing w frames)
    (hw : BusesSound w.buses) :
    doing.BreaksOff depth w cause w' := by
  induction h with
  | panic => exact performWith_eq_error_iff.2 (.inl ⟨rfl, rfl⟩)
  | @emit depth number payload s w frames signal inside ih =>
      have hopened := ((World.busNumbered_reaction w number).buses).sound hw
      exact performWith_eq_error_iff.2
        (.inr (.inl ⟨_, _, _, rfl, signal, ih hopened⟩))
  | @publish depth t name bytes w v before after k frames receivers
      handed inside ih =>
      have hv := hw.of_handed handed
      refine performWith_eq_error_iff.2
        (.inr (.inr ⟨_, _, _, _, rfl, receivers, ?_⟩))
      exact run_forM_eq_error_iff.2 ⟨before, k, after, v, rfl, handed, ih hv⟩
  | @turn depth id n what p w v done rest a frames player remaining response
      performed inside ih =>
      have hv := BusesSound.of_performed (w := w.begun id p what n) hw performed
      refine call_eq_error_iff.2 ⟨id, p, n, rfl, player, remaining, ?_⟩
      exact playScript_eq_error_iff.2 ⟨done, a, rest, v, response,
        performed, ih hv⟩
  | @announcement depth b s w v runs x frames before below
      connected inside ih =>
      exact (emitOn_eq_error_iff_of_rewires (perform_rewires depth) hw).2
        ⟨runs, x, v, before, below, connected, ih (before.sound hw)⟩

theorem Action.weightAll_append (done rest : List Action) :
    Action.weightAll (done ++ rest) = Action.weightAll done +
      Action.weightAll rest := by
  induction done with
  | nil => simp [Action.weightAll]
  | cons a done ih => simp [Action.weightAll, ih, Nat.add_assoc]

/-- Every action that breaks off, at a depth that it cannot exhaust together
with the world, is cut through by a panic. -/
def Unwinds (cause : Panic) (w' : World) (depth : Nat) : Prop :=
  ∀ {a : Action} {w : World}, BusesSound w.buses → w.weight + a.weight < depth →
    (perform depth none a).run w = .error cause w' →
      ∃ frames, Unwinding cause w' depth (.action a) w frames

/-- Then so is every turn that breaks off, since a run takes off the world what
its actions add. -/
theorem unwinding_of_turn {depth : Nat}
    (hactions : Unwinds cause w' depth) {w : World} {k : Callback}
    {what : Delivery} (hw : BusesSound w.buses) (hdepth : w.weight ≤ depth)
    (h : (call (perform depth) k what).run w = .error cause w') :
    ∃ frames, Unwinding cause w' depth (.turn k what) w frames := by
  obtain ⟨id, p, n, rfl, hplayer, hremaining, hscript⟩ := call_eq_error_iff.1 h
  obtain ⟨done, a, rest, v, heq, hdone, hbreaks⟩ :=
    playScript_eq_error_iff.1 hscript
  have hv := BusesSound.of_performed (w := w.begun id p what n) hw hdone
  have hspent := World.weight_begun what hplayer hremaining
  have hadded :=
    (playScript_weighs (perform_weighs depth) p.label 0 done).of_ok hdone
  have hscripts : Action.weightAll done + (a.weight + Action.weightAll rest) ≤
      Action.weightAll p.script := by
    have hresponse := p.weightAll_response_le n what
    rwa [heq, Action.weightAll_append, Action.weightAll] at hresponse
  unfold World.HeavierBy at hadded
  obtain ⟨frames, hinside⟩ := hactions hv (by omega) hbreaks
  exact ⟨frames, .turn hplayer hremaining heq hdone hinside⟩

/-- And so is every announcement. -/
theorem unwinding_of_announcement {depth : Nat}
    (hactions : Unwinds cause w' depth) {w : World} {b : Nat} {s : Signal}
    (hw : BusesSound w.buses) (hdepth : w.weight ≤ depth)
    (h : (emitOn (perform depth) b s).run w = .error cause w') :
    ∃ frames, Unwinding cause w' depth (.announcement b s) w frames := by
  obtain ⟨runs, x, v, hcursor, hbelow, hconnected, hbreaks⟩ :=
    (emitOn_eq_error_iff_of_rewires (perform_rewires depth) hw).1 h
  have hlight := (callAll_weighs (perform_weighs depth) s runs).of_ok
    hcursor.run_callAll
  unfold World.HeavierBy at hlight
  obtain ⟨frames, hinside⟩ :=
    unwinding_of_turn hactions (hcursor.sound hw) (by omega) hbreaks
  exact ⟨_, .announcement hcursor hbelow hconnected hinside⟩

/-- What breaks off at a sufficient depth is cut through by a panic. -/
theorem unwinds (depth : Nat) : Unwinds cause w' depth := by
  induction depth with
  | zero =>
      intro a w hw hdepth
      omega
  | succ depth ih =>
      intro a w hw hdepth h
      rcases performWith_eq_error_iff.1 h with ⟨rfl, rfl⟩ |
        ⟨number, payload, s, rfl, hs, herror⟩ | ⟨t, name, bytes, receivers, rfl,
          hreceivers, herror⟩
      · exact ⟨[], .panic⟩
      · have hopened := (World.busNumbered_reaction w number).buses.sound hw
        have hplayers :=
          World.HeavierBy.of_players (World.players_busNumbered w number) 0
        unfold World.HeavierBy at hplayers
        obtain ⟨frames, hinside⟩ :=
          unwinding_of_announcement ih hopened (by omega) herror
        exact ⟨frames, .emit hs hinside⟩
      · obtain ⟨before, k, after, v, rfl, hhanded, hbreaks⟩ :=
          run_forM_eq_error_iff.1 herror
        have hv := hw.of_handed hhanded
        have hlight :=
          (Keeps.forM World.heavierBy_zero_chained before fun k _ =>
          hand_weighs (perform_weighs depth) t name bytes k).of_ok hhanded
        unfold World.HeavierBy at hlight
        have hnoted : (v.note (.handed t name k)).weight = v.weight := rfl
        obtain ⟨frames, hinside⟩ :=
          unwinding_of_turn ih (w := v.note (.handed t name k)) hv
          (by omega) hbreaks
        exact ⟨frames, .publish hreceivers hhanded hinside⟩

/-- What becomes of an announcement in progress that a panic cuts through,
ending in a world. Called were those of its listeners, in connection order, that
come before the one in whose turn the panic happens and were still connected
when those before them had been called; no other is called after that one; the
panic reaches whoever announced; and the listener stays connected unless its
turn has disconnected it. -/
structure Frame.Cut (cause : Panic) (w' : World) (f : Frame) : Prop where
  order : (f.called ++ [f.panicking]).Sublist
    (f.start.listeners f.bus f.signal.event)
  calls : (callAll (perform f.depth) f.signal f.called).run f.start =
    .ok () f.reached
  turn : ∀ x ∈ f.start.listeners f.bus f.signal.event,
    x.1 < f.panicking.1 → ∃ v,
      (callAll (perform f.depth) f.signal (f.called.filter (·.1 < x.1))).run
        f.start = .ok () v ∧
      (x ∈ f.called ↔ x ∈ v.listeners f.bus f.signal.event)
  last : ∀ x ∈ f.called, x.1 < f.panicking.1
  connected : f.panicking ∈ f.reached.listeners f.bus f.signal.event
  panics : (call (perform f.depth) f.panicking.2 (.signal f.signal)).run
    f.reached = .error cause w'
  reaches : (emitOn (perform f.depth) f.bus f.signal).run f.start =
    .error cause w'
  stays : f.panicking ∈ w'.listeners f.bus f.signal.event ↔
    Move.disconnect f.bus ⟨f.signal.event, f.panicking.1⟩ ∉
      turnMoves (perform f.depth)
      (movesOf f.depth) (.signal f.signal) f.panicking.2 f.reached

/-- An announcement whose cursor gets to a connected listener that panics. -/
theorem Frame.cut {depth b : Nat} {s : Signal} {w v : World}
    {runs : List (Nat × Callback)} {x : Nat × Callback}
    (hw : BusesSound w.buses)
    (before : Cursor (perform depth) b s x.1 0 w runs v)
    (below : x.1 < w.nextId b s.event) (connected : x ∈ v.listeners b s.event)
    (panics : (call (perform depth) x.2 (.signal s)).run v = .error cause w') :
    Frame.Cut cause w' ⟨depth, b, s, w, runs, x, v⟩ := by
  have hp := perform_rewires depth
  have hv := before.sound hw
  obtain ⟨-, horder⟩ :=
    deliver_error_of_cursor hp hw below (World.rewired_chained.refl w)
    (Remaining.all hw) (Nat.zero_le _) before connected panics
  have hsorted := ((hw b s.event).sorted.sublist horder)
  have hmoves := makes_call (makes_perform depth) x.2 (.signal s) v
  rw [left_of_error panics] at hmoves
  refine { order := horder, calls := before.run_callAll, turn := ?_, last := ?_,
           connected := connected, panics := panics,
           reaches := ?_, stays := ?_ }
  · intro y hy hlt
    exact before.turn_at hp hw y (Nat.zero_le _) hlt
  · intro y hy
    exact (List.pairwise_append.1 hsorted).2.2 y hy x (by simp)
  · exact (emitOn_eq_error_iff_of_rewires hp hw).2 ⟨runs, x, v, before, below,
      connected, panics⟩
  · rw [World.mem_listeners_of_rewired hv hmoves (World.lt_nextId hv connected)]
    exact and_iff_right connected

/-- Every announcement on the way of a panic is cut. -/
theorem Unwinding.cut {depth : Nat} {doing : Doing} {w : World}
    {frames : List Frame} (h : Unwinding cause w' depth doing w frames)
    (hw : BusesSound w.buses) :
    ∀ f ∈ frames, f.Cut cause w' := by
  induction h with
  | panic => simp
  | @emit depth number payload s w frames signal inside ih =>
      exact ih ((World.busNumbered_reaction w number).buses.sound hw)
  | @publish depth t name bytes w v before after k frames receivers
      handed inside ih =>
      have hv := hw.of_handed handed
      exact ih hv
  | @turn depth id n what p w v done rest a frames player remaining response
      performed inside ih =>
      have hv := BusesSound.of_performed (w := w.begun id p what n) hw performed
      exact ih hv
  | @announcement depth b s w v runs x frames before below
      connected inside ih =>
      have hv := before.sound hw
      intro f hf
      rcases List.mem_cons.1 hf with rfl | hf
      · exact Frame.cut hw before below connected (inside.breaksOff hv)
      · exact ih hv f hf

/-- What a panic leaves that cuts through an announcement and those made inside
it. Each of them is cut. The buses are what the moves performed before the panic
have made of them, and sound, so the next announcement, on any bus and of any
signal, begins again with the first of the listeners that are connected now. -/
structure Unwound (depth b : Nat) (s : Signal) (w : World)
    (cause : Panic) (w' : World) (frames : List Frame) : Prop where
  outermost : ∃ called x v inner,
    frames = ⟨depth, b, s, w, called, x, v⟩ :: inner
  cut : ∀ f ∈ frames, f.Cut cause w'
  buses : w'.buses =
    moveAll w.buses (announcementMoves (perform depth) (movesOf depth) b s w)
  sound : BusesSound w'.buses
  next : ∀ (depth b : Nat) (s : Signal) (n : Nat) (v : World),
    (emitOn (perform depth) b s).run w' = .ok n v ↔ ∃ runs, runs.length = n ∧
      Cursor (perform depth) b s (w'.nextId b s.event) 0 w' runs v ∧
        Exact (perform depth) b s w' runs v
  nextPanic : ∀ (depth b : Nat) (s : Signal) (cause : Panic) (v : World),
    (emitOn (perform depth) b s).run w' = .error cause v ↔ ∃ runs x u,
      Cursor (perform depth) b s x.1 0 w' runs u ∧ x.1 < w'.nextId b s.event ∧
        x ∈ u.listeners b s.event ∧
        (call (perform depth) x.2 (.signal s)).run u = .error cause v

theorem Unwinding.unwound {depth b : Nat} {s : Signal} {w : World}
    {frames : List Frame}
    (h : Unwinding cause w' depth (.announcement b s) w frames)
    (hw : BusesSound w.buses) :
    Unwound depth b s w cause w' frames := by
  have hbuses := makes_emitOn (makes_perform depth) b s w
  rw [left_of_error (h.breaksOff hw)] at hbuses
  have hsound : BusesSound w'.buses := hbuses ▸ hw.moveAll _
  refine { outermost := ?_, cut := h.cut hw, buses := hbuses, sound := hsound,
           next := fun depth b s n v =>
             emitOn_eq_ok_iff_of_rewires (perform_rewires depth) hsound n,
           nextPanic := fun depth b s cause v =>
             emitOn_eq_error_iff_of_rewires (perform_rewires depth) hsound }
  cases h with
  | announcement before below connected inside => exact ⟨_, _, _, _, rfl⟩

end Unwinding

/-- At a depth that the world cannot exhaust an announcement breaks off exactly
if a listener panics in its turn, by itself or in what it announces or
publishes, to any depth. The panic then reaches the announcer through every
announcement in progress, and leaves the buses consistent. -/
theorem emitOn_perform_eq_error_iff (depth b : Nat) (s : Signal) {cause : Panic}
    {w w' : World} (hw : BusesSound w.buses) (hdepth : w.weight ≤ depth) :
    ((emitOn (perform depth) b s).run w = .error cause w' ↔
      ∃ frames, Unwinding cause w' depth (.announcement b s) w frames) ∧
    ∀ frames, Unwinding cause w' depth (.announcement b s) w frames →
      Unwound depth b s w cause w' frames := by
  refine ⟨⟨unwinding_of_announcement (unwinds depth) hw hdepth,
      ?_⟩, fun frames h =>
    h.unwound hw⟩
  rintro ⟨frames, h⟩
  exact h.breaksOff hw

/-- The first of two listeners disconnects the second and announces another
signal, whose listener connects a third to the first signal and panics. -/
theorem emitOn_perform_of_panicking_listener :
    let w := Session.after {}
      [⟨.standalone 0, .act (.connect 0 .render "first" [.disconnect 0 "second",
        .emit 0 .stop] 1)⟩,
      ⟨.standalone 0, .act (.connect 0 .render "second" [] 0)⟩,
      ⟨.standalone 0,
        .act (.connect 0 .stop "inner" [.connect 0 .render "third" [] 0,
        .panic "out"] 1)⟩]
    BusesSound w.buses ∧ w.weight ≤ 8 ∧ ∃ cause w' frames,
      (emitOn (perform 8) 0 .render).run w = .error cause w' ∧
        Unwinding cause w' 8 (.announcement 0 .render) w frames ∧
          Unwound 8 0 .render w cause w' frames ∧
            (w'.listeners 0 .render).map Prod.fst = [0, 2] := by
  intro w
  have hsound : BusesSound w.buses := (Session.sound_after _).buses
  have hweight : w.weight ≤ 8 := by decide +kernel
  have hlisteners :
      (((emitOn (perform 8) 0 .render).left w).listeners 0 .render).map
        Prod.fst =
      [0, 2] := by decide +kernel
  have hbroken : (emitOn (perform 8) 0 .render).run' w = none := by
    decide +kernel
  obtain ⟨cause, hrun⟩ := exists_error_of_run' hbroken
  obtain ⟨frames, hway⟩ :=
    (emitOn_perform_eq_error_iff 8 0 .render hsound hweight).1.1 hrun
  exact ⟨hsound, hweight, cause, _, frames, hrun, hway,
    (emitOn_perform_eq_error_iff 8 0 .render hsound hweight).2 frames hway,
    hlisteners⟩

end Linkage
