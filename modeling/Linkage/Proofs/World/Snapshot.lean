import Linkage.Proofs.Joint.Provenance
import Linkage.Proofs.World.Lineage
import Linkage.Proofs.World.Timing

/-!
# Snapshots for those who watch

At the end of a step a runner hands its store to whoever listens for snapshots.
It does so after the removals of the step are applied and announced, so that
nobody is shown an entity that is gone, and before the clock is advanced, so
that the snapshot carries the clock that the systems were told. Whether anybody
listens is looked at in that moment: a listener that an announcement of a
removal has connected gets the snapshot, and one that it has disconnected does
not.

Between the snapshot and the end of the step only listeners act, and those
cannot touch the store. So the snapshot is the store that the step ends with.

Over a whole session the store of a runner changes by calls alone, which never
lower its revision, and the clock is only ever advanced. So those who watch see
the clock advance from each snapshot to the next, and never an older revision
after a newer one.

## Main results

* `World.shows_of_step`: what is announced at the end of a step, and what the
  step ends with.
* `World.served_of_path`: the store of a runner changes by calls alone.
* `snapshots_of_steps`: the snapshot of every step, and those of a whole
  session.
-/

namespace Linkage

open Act

/-! ## The end of a step -/

/-- Signals are announced on a bus one after the other; entries may be logged in
between. -/
inductive Announces (performer : Performer) (b : Nat) :
    World → List Signal → World → Prop
  | done (w : World) : Announces performer b w [] w
  | log {w v : World} {signals : List Signal} (entries : Log)
      (rest : Announces performer b (w.report entries) signals v) :
      Announces performer b w signals v
  | signal {w v u : World} {s : Signal} {n : Nat} {signals : List Signal}
      (announced : (emitOn performer b s).run w = .ok n v)
      (rest : Announces performer b v signals u) :
      Announces performer b w (s :: signals) u

/-- A store together with a clock, as it is handed out at the end of a step. -/
structure Snapshot where
  store : Store
  info : StepInfo
  deriving DecidableEq

/-- The announcement of a snapshot. -/
def Snapshot.signal (p : Snapshot) : Signal := .syncStoreToGui p.store p.info

namespace World

/-- The world of a step of a runner once its removals have been announced. -/
def afterRemovals (w : World) (r : Nat) : World :=
  match w.runner? r with
  | none => w
  | some a => (applyRemovals r >>= fun removed => removed.forM (announceRemoval
      (perform (w.weight + systemsWeight a.systems + 1)) a.bus)).left
        (w.atTurn r a.systems.length)

/-- The snapshot that is handed out in a step of a runner, if anybody listens
for it once the removals have been announced. -/
def snapshot? (w : World) (r : Nat) : Option Snapshot :=
  (w.runner? r).bind fun a =>
    if 0 < ((w.afterRemovals r).bus a.bus).listenerCount .syncStoreToGui then
      ((w.afterRemovals r).store? (.runner r)).map fun s => ⟨s, a.info⟩
    else none

/-- A step of a runner from one world to another: all systems take their turns
with one clock, entities are removed, and what the runner announces from then on
is that they are, one after the other, and a snapshot if there is one. Then the
clock is advanced, and a store is left. -/
structure Shows (performer : Performer) (w : World) (r : Nat) (a : Runner)
    (removed : List Entity) (s : Store) (u w' : World) : Prop where
  turns : (a.systems.forM (updateSystem performer r a.info)).run w =
    .ok () (w.atTurn r a.systems.length)
  swept : (applyRemovals r).run (w.atTurn r a.systems.length) =
    .ok removed ((applyRemovals r).left (w.atTurn r a.systems.length))
  announced : Announces performer a.bus
    ((applyRemovals r).left (w.atTurn r a.systems.length))
    (removed.map fun e => .removeFromStore e.raw) (w.afterRemovals r)
  shown : Announces performer a.bus (w.afterRemovals r)
    ((w.snapshot? r).toList.map Snapshot.signal) u
  clock : (advance r).run u = .ok () w'
  snapshot : w.snapshot? r =
    if 0 < ((w.afterRemovals r).bus a.bus).listenerCount .syncStoreToGui then
      some ⟨s, a.info⟩
    else none
  heard : ∀ p ∈ w.snapshot? r, ∃ n, 0 < n ∧
    (emitOn performer a.bus p.signal).run (w.afterRemovals r) = .ok n u
  left : w'.store? (.runner r) = some s
  settled : s.pending = []
  gone : ∀ e ∈ removed, s.has e = false

end World

theorem Announced.announces {performer : Performer} {r b : Nat}
    {s : Store} {w v : World} {removed : List Entity}
    (h : Announced performer r b s w removed v) :
    Announces performer b w
      (removed.map fun e => .removeFromStore e.raw) v := by
  induction h with
  | nil w => exact .done w
  | cons _ announced _ ih => exact .log _ (.signal announced ih)

/-- An announcement calls somebody if there are listeners when it begins: the
first of them is connected at its turn, for nobody was called before it. -/
theorem pos_of_emitOn {performer : Performer} {b n : Nat}
    {s : Signal} {w v : World} (hw : BusesSound w.buses)
    (hcount : 0 < (w.bus b).listenerCount s.event)
    (h : (emitOn performer b s).run w = .ok n v) : 0 < n := by
  rw [run_emitOn] at h
  have hlength : 0 < (w.listeners b s.event).length := hcount
  cases hlisteners : w.listeners b s.event with
  | nil => simp [hlisteners] at hlength
  | cons x rest =>
      have hflag : (w.bus b).flag ⟨s.event, x.1⟩ = true :=
        (World.flag_iff hw (World.rewired_chained.refl w)
          (hlisteners ▸ List.mem_cons_self)).2 (hlisteners ▸ List.mem_cons_self)
      rw [hlisteners, run_deliverOn_cons, if_pos hflag] at h
      obtain ⟨⟨⟩, w₁, -, h⟩ := run_bind_eq_ok_iff.1 h
      obtain ⟨m, w₂, -, h⟩ := run_bind_eq_ok_iff.1 h
      cases h
      exact Nat.succ_pos m

namespace World

variable {w w' : World} {r : Nat} {a b : Runner}

/-- What a step that is done announces in the end, and which store it leaves. -/
theorem shows_of_step (hw : w.Reachable) (ha : w.runner? r = some a)
    (h : (step r).run w = .ok true w') : ∃ removed s u,
      Shows (perform (w.weight + systemsWeight a.systems + 1)) w r a
        removed s u w' := by
  obtain ⟨c, hc, -⟩ := (atTurn_stepping ha a.systems.length).2
  have ht : (w.atTurn r a.systems.length).store? (.runner r) = some c.store :=
    store?_of_runner? hc
  obtain ⟨w₁, -, -, hturns, -⟩ := run_turns h ha
  have hlast : w.atTurn r a.systems.length = w₁ := by
    rw [atTurn_of_runner ha, List.take_length]
    exact left_of_ok hturns
  obtain ⟨v, hremoved, hrest⟩ := sweep_of_step h ha ht
  have hafter : w.afterRemovals r = v := by
    unfold afterRemovals
    rw [ha]
    have hrun :
        (applyRemovals r >>= fun removed => removed.forM (announceRemoval
        (perform (w.weight + systemsWeight a.systems + 1)) a.bus)).run
          (w.atTurn r a.systems.length) = .ok () v :=
      (run_bind_of_ok (run_applyRemovals ht) _).trans
        (left_of_ok (run_applyRemovals ht) ▸ hremoved)
    exact left_of_ok hrun
  have hswept := store?_applyRemovals ht
  obtain ⟨hannounced, hv⟩ := announced_of_run hswept hremoved
  obtain ⟨⟨⟩, u, hsnapshot, hclock⟩ := run_bind_eq_ok_iff.1 hrest
  have hshown :=
    (announceSnapshot_keeps reaction_reactive _ r a.bus a.info).of_ok hsnapshot
  obtain ⟨info, hinfo⟩ := left_advance r u
  rw [left_of_ok hclock] at hinfo
  have hfinal : w.snapshot? r = if 0 <
      (v.bus a.bus).listenerCount .syncStoreToGui then
      some ⟨c.store.applyRemovals.2, a.info⟩ else none := by
    simp only [snapshot?, ha, hafter, hv, Option.bind_some, Option.map_some]
  have hbuses : BusesSound v.buses := by
    have hswept : BusesSound
        ((applyRemovals r).left (w.atTurn r a.systems.length)).buses :=
      (((atTurn_path w r _).sound hw.sound).sweep r).buses
    have hreaction := (Keeps.forM reaction_chained c.store.pending fun e _ =>
      announceRemoval_keeps reaction_reactive
        (w.weight + systemsWeight a.systems + 1) a.bus e).of_ok hremoved
    exact hreaction.buses.sound hswept
  -- the snapshot is announced to the listeners of this moment, or nothing is
  -- done
  have hemitted : if 0 < (v.bus a.bus).listenerCount .syncStoreToGui then
      ∃ n, 0 < n ∧
        (emitOn (perform (w.weight + systemsWeight a.systems + 1)) a.bus
        (.syncStoreToGui c.store.applyRemovals.2 a.info)).run v = .ok n u
      else u = v := by
    unfold announceSnapshot at hsnapshot
    rw [run_get_bind] at hsnapshot
    by_cases hcount : 0 < (v.bus a.bus).listenerCount .syncStoreToGui
    · simp only [hcount, if_true, hv] at hsnapshot ⊢
      obtain ⟨n, v', hemit, hdone⟩ := run_bind_eq_ok_iff.1 hsnapshot
      cases hdone
      exact ⟨n, pos_of_emitOn hbuses hcount hemit, hemit⟩
    · simp only [hcount, if_false] at hsnapshot ⊢
      cases hsnapshot
      rfl
  refine ⟨c.store.pending, c.store.applyRemovals.2, u,
    { turns := hlast ▸ hturns
      swept := by rw [left_of_ok (run_applyRemovals ht), run_applyRemovals ht]
      announced := hafter ▸ hannounced.announces
      shown := ?_
      clock := hclock
      snapshot := hafter ▸ hfinal
      heard := ?_
      left := by rw [hinfo, store?_setClock, hshown.store?, hv]
      settled := rfl
      gone := fun e he => Bool.eq_false_iff.2 fun hlive =>
        ((Store.has_applyRemovals _ e).1 hlive).1 he }⟩
  · rw [hafter, hfinal]
    by_cases hcount : 0 < (v.bus a.bus).listenerCount .syncStoreToGui
    · rw [if_pos hcount] at hemitted ⊢
      obtain ⟨n, -, hemit⟩ := hemitted
      exact .signal hemit (.done u)
    · rw [if_neg hcount] at hemitted ⊢
      rw [hemitted]
      exact .done v
  · intro p hp
    rw [hfinal] at hp
    rw [hafter]
    by_cases hcount : 0 < (v.bus a.bus).listenerCount .syncStoreToGui
    · rw [if_pos hcount] at hp hemitted
      cases hp
      exact hemitted
    · rw [if_neg hcount] at hp
      cases hp

/-! ## The store of a runner over time -/

/-- A deed changes the store of a runner by calls, unless it makes the
runner. -/
theorem served_of_deed {d : Deed} {t : Store} (hr : r < w.runners.length)
    (ht : (d.apply w).store? (.runner r) = some t) :
    ∃ s calls, w.store? (.runner r) = some s ∧ t = s.serveAll calls := by
  obtain ⟨b, hb, rfl⟩ := Option.map_eq_some_iff.1 ht
  cases origin_of_deed hb with
  | made _ fresh => exact absurd hr (Nat.not_lt_of_le fresh)
  | kept calls before _ store =>
      exact ⟨_, calls, store?_of_runner? before, store⟩
  | enrolled before _ store => exact ⟨_, [], store?_of_runner? before, store⟩

/-- Whatever happens, the store of a runner changes by calls alone. -/
theorem served_of_path {P : World → Deed → Prop} {t : Store} (h : Path P w w')
    (hr : r < w.runners.length) (ht : w'.store? (.runner r) = some t) :
    ∃ s calls, w.store? (.runner r) = some s ∧ t = s.serveAll calls := by
  induction h generalizing t with
  | refl => exact ⟨t, [], ht, rfl⟩
  | react _ reaction ih => exact ih ((reaction.store? _).symm.trans ht)
  | deed before _ ih =>
      have hgrown := before.onward.runners
      obtain ⟨t', later, ht', rfl⟩ :=
        served_of_deed (Nat.lt_of_lt_of_le hr hgrown) ht
      obtain ⟨s, calls, hs, rfl⟩ := ih ht'
      exact ⟨s, calls ++ later, hs, (s.serveAll_append calls later).symm⟩

end World

/-! ## The snapshots of a session -/

namespace Session

open World

variable {requests : List Request} {r i k : Nat} {b : Runner}

/-- The snapshots that a runner hands out over a session, in order. -/
def snapshots (requests : List Request) (r : Nat) : List Snapshot :=
  (List.range (moments {} requests).length).filterMap fun k =>
    if Steps requests r k then (worldAt requests k).snapshot? r else none

/-- No count of steps is lowered from one moment to the next. -/
theorem iterations_le_succ (hunbroken : ¬ BreaksOff requests r k)
    (hr : r < (worldAt requests k).runners.length)
    (hb : (worldAt requests (k + 1)).runner? r = some b) :
    ∃ a, (worldAt requests k).runner? r = some a ∧
      a.info.iterations ≤ b.info.iterations := by
  cases hk : (moments {} requests)[k]? with
  | none =>
      rw [worldAt_of_none hk] at hb
      exact ⟨b, hb, Nat.le_refl _⟩
  | some moment =>
      by_cases hstep : moment = .step r
      · subst hstep
        rcases steps_or_stays hk hunbroken with hsteps | hstays
        · obtain ⟨a, ha, hrun⟩ := exists_of_steps hsteps
          obtain ⟨-, c, t, hc, -, hinfo⟩ := clock_of_step hrun ha
          cases hb.symm.trans hc
          refine ⟨a, ha, ?_⟩
          rw [hinfo]
          exact Nat.le_succ _
        · rw [hstays] at hb
          exact ⟨b, hb, Nat.le_refl _⟩
      · obtain ⟨a, ha, hinfo⟩ := info_of_not_step hk hstep hr hb
        exact ⟨a, ha, Nat.le_of_eq (congrArg StepInfo.iterations hinfo.symm)⟩

theorem iterations_le (hunbroken : ∀ k, ¬ BreaksOff requests r k) (hik : i ≤ k)
    (hr : r < (worldAt requests i).runners.length)
    (hb : (worldAt requests k).runner? r = some b) :
    ∃ a, (worldAt requests i).runner? r = some a ∧
      a.info.iterations ≤ b.info.iterations := by
  induction hik generalizing b with
  | refl => exact ⟨b, hb, Nat.le_refl _⟩
  | @step k hik ih =>
      have hgrown := (path_worldAt requests hik).onward.runners
      obtain ⟨c, hc, hle⟩ :=
        iterations_le_succ (hunbroken k) (Nat.lt_of_lt_of_le hr hgrown) hb
      obtain ⟨a, ha, hle'⟩ := ih hc
      exact ⟨a, ha, Nat.le_trans hle' hle⟩

/-- What a snapshot of a step shows. -/
theorem exists_of_snapshot {p : Snapshot} (hsteps : Steps requests r k)
    (hp : (worldAt requests k).snapshot? r = some p) : ∃ a,
      (worldAt requests k).runner? r = some a ∧ p.info = a.info ∧
        (worldAt requests (k + 1)).store? (.runner r) = some p.store := by
  obtain ⟨a, ha, hrun⟩ := exists_of_steps hsteps
  obtain ⟨removed, s, u, hshows⟩ :=
    shows_of_step (reachable_worldAt requests k) ha hrun
  have hsnapshot := hshows.snapshot
  rw [hp] at hsnapshot
  split at hsnapshot
  · cases hsnapshot
    exact ⟨a, ha, rfl, hshows.left⟩
  · cases hsnapshot

/-- Of two snapshots of a session the later one has the later clock and no older
revision. -/
theorem later_of_snapshots {p q : Snapshot}
    (hunbroken : ∀ k, ¬ BreaksOff requests r k) (hik : i < k)
    (hi : Steps requests r i) (hk : Steps requests r k)
    (hp : (worldAt requests i).snapshot? r = some p)
    (hq : (worldAt requests k).snapshot? r = some q) :
    p.info.iterations < q.info.iterations ∧
    p.store.revision ≤ q.store.revision := by
  obtain ⟨a, ha, hpinfo, hps⟩ := exists_of_snapshot hi hp
  obtain ⟨c, hc, hqinfo, hqs⟩ := exists_of_snapshot hk hq
  obtain ⟨a', ha', hrun⟩ := exists_of_steps hi
  cases ha.symm.trans ha'
  obtain ⟨-, b, t, hb, -, hinfo⟩ := clock_of_step hrun ha
  have hlt := lt_of_runner? hb
  constructor
  · obtain ⟨b', hb', hle⟩ := iterations_le hunbroken hik hlt hc
    cases hb.symm.trans hb'
    rw [hinfo] at hle
    rw [hpinfo, hqinfo]
    exact hle
  · obtain ⟨s, calls, hs, hcalls⟩ :=
      served_of_path
        (path_worldAt requests (Nat.succ_le_succ (Nat.le_of_lt hik))) hlt hqs
    cases hps.symm.trans hs
    rw [hcalls]
    exact (Store.Recalls.serveAll ((sound_worldAt requests (i + 1)).stores hps)
      calls).revision

end Session

open World Session

/-- In every step that does not break off, whatever the systems and the
listeners do: if somebody listens for snapshots once the removals have been
announced, the runner announces exactly one, which carries the clock that the
systems were told and the store that the step ends with, where nothing is
pending and what was announced as removed is gone; otherwise it announces none.
Over a session in which no step of the runner breaks off the snapshots have a
later clock each and revisions that never fall. -/
theorem snapshots_of_steps (r : Nat) :
    (∀ {w w' : World} {a : Runner}, w.Reachable → w.runner? r = some a →
      (step r).run w = .ok true w' → ∃ removed s u,
        Shows (perform (w.weight + systemsWeight a.systems + 1)) w r a
          removed s u w') ∧
      ∀ requests : List Request, (∀ k, ¬ BreaksOff requests r k) →
        (snapshots requests r).Pairwise fun p q =>
          p.info.iterations < q.info.iterations ∧
          p.store.revision ≤ q.store.revision := by
  refine ⟨fun hw ha h => shows_of_step hw ha h, fun requests hunbroken => ?_⟩
  unfold snapshots
  rw [List.pairwise_filterMap]
  refine List.pairwise_lt_range.imp fun {i k} hik p hp q hq => ?_
  split at hp
  · split at hq
    · exact later_of_snapshots hunbroken hik ‹_› ‹_› hp hq
    · cases hq
  · cases hp

/-- Nobody listens for snapshots in the first of three steps. In the second a
script asks for the removal of an entity, and the listener that hears of it
connects another for snapshots, which gets those of the second and of the third
step. -/
theorem snapshots_of_late_listener :
    let script : List Scheduled :=
      [⟨.onStore (.remove (.label "host")), some 1⟩,
      ⟨.onStore (.spawnModel "cart" none), some 2⟩]
    let requests : List Request :=
      [⟨.runner 0, .makeRunner (some 0) defaultStep none⟩,
      ⟨.runner 0, .act (.onStore (.create (some "host")))⟩,
      ⟨.runner 0, .addSystem 0 (.script "cook" [] script) (.label "host")
        (jointElement "hook" "cart" "eye")⟩,
      ⟨.runner 0,
        .act (.connect 0 .removeFromStore "ear"
          [.connect 0 .syncStoreToGui "gui" [] 0]
        1)⟩,
      ⟨.runner 0, .run 0 3⟩]
    (∃ a removed s u,
        Shows (perform
          ((worldAt requests 5).weight + systemsWeight a.systems + 1))
          (worldAt requests 5) 0 a removed s u (worldAt requests 6) ∧
      ((worldAt requests 5).bus a.bus).listenerCount .syncStoreToGui = 0 ∧
      (worldAt requests 5).snapshot? 0 = some ⟨s, a.info⟩) ∧
      ((snapshots requests 0).Pairwise fun p q =>
        p.info.iterations < q.info.iterations ∧
        p.store.revision ≤ q.store.revision) ∧
      (snapshots requests 0).map
        (fun p => (p.info.iterations, p.store.revision)) =
        [(1, 2), (2, 5)] := by
  intro script requests
  have hsteps : Steps requests 0 5 := by decide +kernel
  have hshown : ((worldAt requests 5).snapshot? 0).isSome = true := by
    decide +kernel
  have hsilent : ∀ a ∈ (worldAt requests 5).runner? 0,
      ((worldAt requests 5).bus a.bus).listenerCount .syncStoreToGui = 0 := by
    decide +kernel
  have hunbroken : ∀ k < (moments {} requests).length,
      ¬ BreaksOff requests 0 k := by
    decide +kernel
  obtain ⟨a, ha, hrun⟩ := exists_of_steps hsteps
  obtain ⟨removed, s, u, hshows⟩ :=
    (snapshots_of_steps 0).1 (reachable_worldAt requests 5) ha hrun
  have hsnapshot := hshows.snapshot
  split at hsnapshot
  · refine ⟨⟨a, removed, s, u, hshows, hsilent a ha, hsnapshot⟩, ?_,
      by decide +kernel⟩
    exact (snapshots_of_steps 0).2 requests fun k hbreaks =>
      hunbroken k (List.getElem?_eq_some_iff.1 hbreaks.1).1 hbreaks
  · rw [hsnapshot] at hshown
    cases hshown

end Linkage
