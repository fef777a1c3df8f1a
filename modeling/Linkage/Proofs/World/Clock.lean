import Linkage.Proofs.World.Driver
import Linkage.Proofs.World.Removal
import Mathlib.Data.Nat.Count

/-!
# The clock of a runner

A step that is completed counts once and adds its length to the simulated time;
nothing else sets the clock.

A step breaks off in the turn of a system, in a listener that is told of a
removal or handed the snapshot, or when the clock is advanced and the simulated
time would pass its bound. In the first three phases the clock has not been
touched. In the last the step was counted already, and the count stays: from
then on it is ahead of the steps that were completed. The simulated time always
is that of the completed steps, and once it cannot be advanced the runner
completes no step any more.

## Main results

* `clock_of_step`: a step that is done counts once.
* `step_eq_error_iff`: in which phase a step breaks off.
* `info_of_step`: what a step does to the clock of its runner, completed or not.
* `Session.clock_at`: the clock at every moment of a session.
* `Session.clock_of_broken_step`: the clock after a step that broke off, and
  after any number of them in a session.
-/

namespace Linkage

open Act

/-- The clock of a runner with a step length that has carried out a number of
steps. -/
def StepInfo.after (dt : Duration) (n : Nat) : StepInfo :=
  { iterations := n, simTime := ⟨n * dt.nanoseconds⟩, dt }

theorem Duration.add?_eq_none_iff (a b : Duration) :
    a.add? b = none ↔ Duration.bound ≤ a.nanoseconds + b.nanoseconds := by
  simp [Duration.add?]

/-- The phases of a step in which it can break off. -/
inductive Phase
  | turns
  | removals
  | snapshot
  | clock
  deriving DecidableEq, Repr

/-- The clock that a step leaves that begins with a clock and breaks off in a
phase. -/
def StepInfo.brokenIn (info : StepInfo) : Phase → StepInfo
  | .clock => info.count
  | _ => info

/-- The deed sets the clock of a runner. -/
def Deed.SetsClock (r : Nat) : Deed → Prop
  | .clock q _ => q = r
  | _ => False

open World

section Step

variable {r depth : Nat} {w w' : World} {a : Runner} {cause : Panic}

/-! ## Steps that are completed -/

/-- No system sets a clock. -/
theorem updateSystem_unclocked (depth r : Nat) (info : StepInfo)
    (system : System) :
    Keeps (Path fun _ d => ¬ d.SetsClock r)
      (updateSystem (perform depth) r info system) := by
  have hR := path_reactive fun _ d => ¬ d.SetsClock r
  cases system with
  | joint j =>
      exact fun w => Path.of_deed (d := .turn j (.runner r)) (u := w) id
  | inert => exact Keeps.pure hR.toChained ()
  | script name update =>
      refine (record_keeps hR _).bind hR.toChained fun _ => ?_
      refine playSystem_keeps hR name _ depth 0 update fun a _ op _ w => ?_
      exact Path.of_deed (d := .call (.runner r) op) (u := w) id

/-- Nothing sets a clock in a step before that of its runner is advanced. -/
theorem stepDuties_unclocked (depth r : Nat) (a : Runner) :
    Keeps (Path fun _ d => ¬ d.SetsClock r)
      (stepDuties (perform depth) r a) := by
  have hR := path_reactive fun _ d => ¬ d.SetsClock r
  refine (Keeps.forM hR.toChained a.systems fun system _ =>
    updateSystem_unclocked depth r a.info system).bind hR.toChained fun _ => ?_
  refine Keeps.bind hR.toChained
    (fun w => Path.of_deed (d := .sweep r) (u := w) id) fun removed => ?_
  refine (Keeps.forM hR.toChained removed fun e _ =>
    announceRemoval_keeps hR depth a.bus e).bind hR.toChained fun _ => ?_
  exact announceSnapshot_keeps hR depth r a.bus a.info

/-- Whether they are done or broken off, the duties of a step leave the clock of
its runner. -/
theorem info_of_stepDuties {c : Runner} (ha : w.runner? r = some a)
    (hc : ((stepDuties (perform depth) r a).left w).runner? r = some c) :
    c.info = a.info := by
  obtain ⟨b, hb, hinfo⟩ := (stepDuties_unclocked depth r a w).info
    (fun hd info heq => hd (heq ▸ rfl)) (lt_of_runner? ha) hc
  cases ha.symm.trans hb
  exact hinfo

/-- Advancing the clock counts the step even if the time cannot be advanced. -/
theorem run_advance_of_late (ha : w.runner? r = some a)
    (ht : a.info.simTime.add? a.info.dt = none) :
    (advance r).run w = .error clockOverflow (w.setClock r a.info.count) := by
  have hcounted : a.info.count.simTime.add? a.info.count.dt = none := ht
  unfold advance setClock
  rw [run_get_bind, ha]
  simp only [hcounted]
  rfl

/-- Advancing the clock of a runner that is there counts one step and adds its
length. -/
theorem clock_of_advance (h : (advance r).run w = .ok () w')
    (ha : w.runner? r = some a) :
    ∃ t, a.info.simTime.add? a.info.dt = some t ∧
      w' = w.setRunner r
        (some { a with info := { a.info.count with simTime := t } }) := by
  cases ht : a.info.simTime.add? a.info.dt with
  | some t =>
      rw [advance_ok ha ht] at h
      cases h
      exact ⟨t, rfl, rfl⟩
  | none =>
      rw [run_advance_of_late ha ht] at h
      cases h

/-- A step that is done goes through all its phases, counts once and adds its
length to the simulated time. -/
theorem clock_of_step (h : (step r).run w = .ok true w')
    (ha : w.runner? r = some a) :
    (stepPhases (perform (w.weight + systemsWeight a.systems + 1)) r a).run w =
      .ok () w' ∧
      ∃ b t, w'.runner? r = some b ∧ a.info.simTime.add? a.info.dt = some t ∧
        b.info = { a.info.count with simTime := t } := by
  obtain ⟨x, -, -, -, hx, hgo, -⟩ := phases_of_step h
  cases ha.symm.trans hx
  have hrunning := (step_stepping ha).2
  rw [left_of_ok h] at hrunning
  obtain ⟨b, hb, -⟩ := hrunning
  rw [run_step ha hgo] at h
  obtain ⟨⟨⟩, v', hphases, hdone⟩ := run_bind_eq_ok_iff.1 h
  cases hdone
  refine ⟨hphases, ?_⟩
  rw [stepPhases_eq] at hphases
  obtain ⟨⟨⟩, v, hduties, hadvance⟩ := run_bind_eq_ok_iff.1 hphases
  cases hc : v.runner? r with
  | none =>
      unfold advance at hadvance
      rw [run_get_bind, hc] at hadvance
      cases hadvance
      rw [hc] at hb
      cases hb
  | some c =>
      have hinfo : c.info = a.info :=
        info_of_stepDuties ha (by rw [left_of_ok hduties, hc])
      obtain ⟨t, ht, rfl⟩ := clock_of_advance hadvance hc
      rw [runner?_setRunner_of hc, if_pos rfl] at hb
      cases hb
      rw [hinfo] at ht
      exact ⟨_, t, by rw [runner?_setRunner_of hc, if_pos rfl], ht,
        by rw [hinfo]⟩

/-! ## Steps that break off -/

/-- The way in which a step of a runner performs actions: with enough depth for
all of them. -/
def World.performerFor (w : World) (a : Runner) : Performer :=
  perform (w.weight + systemsWeight a.systems + 1)

/-- A step of a runner breaks off in a phase, after it has gone through the
phases before. -/
inductive Breaks (r : Nat) (a : Runner) (w : World) (cause : Panic)
    (w' : World) : Phase → Prop
  | turns (broke :
      (a.systems.forM (updateSystem (w.performerFor a) r a.info)).run w =
      .error cause w') : Breaks r a w cause w' .turns
  | removals {u v : World} {removed : List Entity}
      (turns :
        (a.systems.forM (updateSystem (w.performerFor a) r a.info)).run w =
          .ok () u)
      (swept : (applyRemovals r).run u = .ok removed v)
      (broke : (removed.forM (announceRemoval (w.performerFor a) a.bus)).run v =
        .error cause w') : Breaks r a w cause w' .removals
  | snapshot {u v x : World} {removed : List Entity}
      (turns :
        (a.systems.forM (updateSystem (w.performerFor a) r a.info)).run w =
          .ok () u)
      (swept : (applyRemovals r).run u = .ok removed v)
      (announced :
        (removed.forM (announceRemoval (w.performerFor a) a.bus)).run v =
          .ok () x)
      (broke : (announceSnapshot (w.performerFor a) r a.bus a.info).run x =
        .error cause w') :
        Breaks r a w cause w' .snapshot
  | clock {v : World}
      (duties : (stepDuties (w.performerFor a) r a).run w = .ok () v)
      (late : Duration.bound ≤ a.info.simTime.nanoseconds +
        a.info.dt.nanoseconds)
      (overflow : cause = clockOverflow)
      (counted : w' = v.setClock r a.info.count) :
        Breaks r a w cause w' .clock

/-- Advancing the clock breaks off when the time would pass its bound, and has
counted by then. -/
theorem advance_eq_error_iff : (advance r).run w = .error cause w' ↔
    ∃ b, w.runner? r = some b ∧
    Duration.bound ≤ b.info.simTime.nanoseconds + b.info.dt.nanoseconds ∧
      cause = clockOverflow ∧ w' = w.setClock r b.info.count := by
  cases hb : w.runner? r with
  | none =>
      have hrun : (advance r).run w = .ok () w := by
        unfold advance
        rw [run_get_bind, hb]
        rfl
      simp [hrun]
  | some b =>
      cases ht : b.info.simTime.add? b.info.dt with
      | some t =>
          have hin : ¬ Duration.bound ≤ b.info.simTime.nanoseconds +
              b.info.dt.nanoseconds := by
            rw [← Duration.add?_eq_none_iff, ht]
            simp
          simp [advance_ok hb ht, hin]
      | none =>
          have hlate := (Duration.add?_eq_none_iff _ _).1 ht
          simp [run_advance_of_late hb ht, hlate, eq_comm]

theorem breaks_clock_iff : Breaks r a w cause w' .clock ↔
    ∃ v, (stepDuties (w.performerFor a) r a).run w = .ok () v ∧
      Duration.bound ≤ a.info.simTime.nanoseconds + a.info.dt.nanoseconds ∧
        cause = clockOverflow ∧ w' = v.setClock r a.info.count := by
  constructor
  · intro h
    cases h with
    | clock hduties hlate hcause hw' => exact ⟨_, hduties, hlate, hcause, hw'⟩
  · rintro ⟨v, hduties, hlate, hcause, hw'⟩
    exact .clock hduties hlate hcause hw'

/-- What comes before the clock breaks off in one of its three phases. -/
theorem stepDuties_eq_error_iff :
    (stepDuties (w.performerFor a) r a).run w = .error cause w' ↔
    ∃ phase, phase ≠ .clock ∧ Breaks r a w cause w' phase := by
  constructor
  · intro h
    rcases run_bind_eq_error_iff.1 h with hturns | ⟨⟨⟩, u, hturns, h⟩
    · exact ⟨.turns, by decide, .turns hturns⟩
    rcases run_bind_eq_error_iff.1 h with hswept | ⟨removed, v, hswept, h⟩
    · cases hswept
    rcases run_bind_eq_error_iff.1 h with hannounced | ⟨⟨⟩, x, hannounced, h⟩
    · exact ⟨.removals, by decide, .removals hturns hswept hannounced⟩
    · exact ⟨.snapshot, by decide, .snapshot hturns hswept hannounced h⟩
  · rintro ⟨phase, hphase, h⟩
    cases h with
    | turns broke => exact run_bind_eq_error_iff.2 (.inl broke)
    | removals turns swept broke =>
        refine run_bind_eq_error_iff.2 (.inr ⟨(), _, turns, ?_⟩)
        refine run_bind_eq_error_iff.2 (.inr ⟨_, _, swept, ?_⟩)
        exact run_bind_eq_error_iff.2 (.inl broke)
    | snapshot turns swept announced broke =>
        refine run_bind_eq_error_iff.2 (.inr ⟨(), _, turns, ?_⟩)
        refine run_bind_eq_error_iff.2 (.inr ⟨_, _, swept, ?_⟩)
        exact run_bind_eq_error_iff.2 (.inr ⟨(), _, announced, broke⟩)
    | clock => exact absurd rfl hphase

/-- What comes before the clock keeps the runner with its clock. -/
theorem exists_after_stepDuties (ha : w.runner? r = some a) :
    ∃ c, ((stepDuties (w.performerFor a) r a).left w).runner? r = some c ∧
      c.info = a.info := by
  obtain ⟨-, c, hc, -⟩ :=
    stepDuties_stepping (w.weight + systemsWeight a.systems + 1) a w
    ⟨a, ha, rfl⟩
  exact ⟨c, hc, info_of_stepDuties ha hc⟩

/-- A step breaks off if its runner is neither paused nor stopped and one of the
phases does. -/
theorem step_eq_error_iff (ha : w.runner? r = some a) :
    (step r).run w = .error cause w' ↔
    (a.stopped || a.paused) = false ∧ ∃ phase, Breaks r a w cause w' phase := by
  cases hgo : a.stopped || a.paused with
  | true =>
      have hskip : (step r).run w = .ok false w :=
        run_step_skipped fun b hb => by
        cases ha.symm.trans hb
        exact hgo
      simp [hskip]
  | false =>
      obtain ⟨c, hc, hinfo⟩ := exists_after_stepDuties ha
      have hrun : (step r).run w =
          ((stepDuties (w.performerFor a) r a >>= fun _ => advance r)
          >>= fun _ => pure true).run w := by
        rw [run_step ha hgo, stepPhases_eq]
        rfl
      rw [hrun]
      constructor
      · intro h
        rcases run_bind_eq_error_iff.1 h with h | ⟨⟨⟩, v, -, hdone⟩
        · rcases run_bind_eq_error_iff.1 h with
            hduties | ⟨⟨⟩, v, hduties, hadvance⟩
          · obtain ⟨phase, -, hbreaks⟩ := stepDuties_eq_error_iff.1 hduties
            exact ⟨rfl, phase, hbreaks⟩
          · obtain ⟨b, hb, hlate, hcause, hw'⟩ :=
              advance_eq_error_iff.1 hadvance
            rw [left_of_ok hduties] at hc
            cases hb.symm.trans hc
            rw [hinfo] at hlate hw'
            exact ⟨rfl, .clock, .clock hduties hlate hcause hw'⟩
        · cases hdone
      · rintro ⟨-, phase, h⟩
        refine run_bind_eq_error_iff.2 (.inl ?_)
        by_cases hphase : phase = .clock
        · subst hphase
          obtain ⟨v, hduties, hlate, hcause, hw'⟩ := breaks_clock_iff.1 h
          rw [left_of_ok hduties] at hc
          refine run_bind_eq_error_iff.2 (.inr ⟨(), _, hduties, ?_⟩)
          rw [← hinfo] at hlate hw'
          exact advance_eq_error_iff.2 ⟨c, hc, hlate, hcause, hw'⟩
        · have hduties := stepDuties_eq_error_iff.2 ⟨phase, hphase, h⟩
          exact run_bind_eq_error_iff.2 (.inl hduties)

/-- Breaking off leaves the clock as it was, except that the clock itself has
counted. -/
theorem Breaks.info {phase : Phase} (h : Breaks r a w cause w' phase)
    (ha : w.runner? r = some a) :
    ∃ b, w'.runner? r = some b ∧ b.info = a.info.brokenIn phase := by
  obtain ⟨c, hc, hinfo⟩ := exists_after_stepDuties ha
  by_cases hphase : phase = .clock
  · subst hphase
    obtain ⟨v, hduties, -, -, rfl⟩ := breaks_clock_iff.1 h
    rw [left_of_ok hduties] at hc
    exact ⟨{ c with info := a.info.count },
      by simp [setClock, hc, runner?_setRunner_of hc], rfl⟩
  · have hsame : a.info.brokenIn phase = a.info := by
      cases phase with
      | clock => exact absurd rfl hphase
      | _ => rfl
    rw [left_of_error (stepDuties_eq_error_iff.2 ⟨phase, hphase, h⟩)] at hc
    exact ⟨c, hc, hinfo.trans hsame.symm⟩

/-- A step of a runner goes through all its phases until the clock cannot be
advanced. -/
def World.overruns (w : World) (r : Nat) : Bool :=
  (w.runner? r).any fun a => !(a.stopped || a.paused) &&
    ((stepDuties (w.performerFor a) r a).run' w).isSome &&
      (a.info.simTime.add? a.info.dt).isNone

theorem overruns_iff (ha : w.runner? r = some a) : w.overruns r = true ↔
    (a.stopped || a.paused) = false ∧ ∃ cause w',
    Breaks r a w cause w' .clock := by
  have hreturns : ((stepDuties (w.performerFor a) r a).run' w).isSome = true ↔
      ∃ v, (stepDuties (w.performerFor a) r a).run w = .ok () v := by
    constructor
    · intro h
      obtain ⟨⟨⟩, hrun⟩ := Option.isSome_iff_exists.1 h
      exact ⟨_, run_of_run' hrun⟩
    · rintro ⟨v, hrun⟩
      unfold EStateM.run'
      rw [hrun]
      rfl
  have hbreaks : (∃ cause w', Breaks r a w cause w' .clock) ↔
      (∃ v, (stepDuties (w.performerFor a) r a).run w = .ok () v) ∧
        a.info.simTime.add? a.info.dt = none := by
    rw [Duration.add?_eq_none_iff]
    constructor
    · rintro ⟨cause, w', h⟩
      obtain ⟨v, hduties, hlate, -⟩ := breaks_clock_iff.1 h
      exact ⟨⟨v, hduties⟩, hlate⟩
    · rintro ⟨⟨v, hduties⟩, hlate⟩
      exact ⟨_, _, .clock hduties hlate rfl rfl⟩
  rw [hbreaks, ← hreturns]
  simp [World.overruns, ha, and_assoc]

/-- A step that broke off overran if it did so in advancing the clock. -/
theorem Breaks.overruns_iff {phase : Phase} (h : Breaks r a w cause w' phase)
    (ha : w.runner? r = some a) (hgo : (a.stopped || a.paused) = false) :
    w.overruns r = true ↔ phase = .clock := by
  rw [Linkage.overruns_iff ha]
  constructor
  · rintro ⟨-, cause', w'', hclock⟩
    obtain ⟨v, hduties, -⟩ := breaks_clock_iff.1 hclock
    by_contra hphase
    rw [stepDuties_eq_error_iff.2 ⟨phase, hphase, h⟩] at hduties
    cases hduties
  · rintro rfl
    exact ⟨hgo, cause, w', h⟩

/-- A step of a runner adds its length to the simulated time if it is completed,
and counts if it is completed or overran. -/
theorem info_of_step (ha : w.runner? r = some a) : ∃ b,
    ((step r).left w).runner? r = some b ∧ b.info.dt = a.info.dt ∧
      b.info.simTime.nanoseconds = a.info.simTime.nanoseconds +
        (if w.stepReply r = some true then a.info.dt.nanoseconds else 0) ∧
      b.info.iterations = a.info.iterations +
        (if w.stepReply r = some true then 1 else 0) +
        (if w.overruns r = true then 1 else 0) := by
  cases hrun : (step r).run w with
  | ok done w' =>
      have hreply : w.stepReply r = some done := by
        unfold stepReply
        rw [hrun]
      have hwithin : ¬ w.overruns r = true := by
        rw [overruns_iff ha]
        rintro ⟨hgo, cause, v, h⟩
        rw [(step_eq_error_iff ha).2 ⟨hgo, .clock, h⟩] at hrun
        cases hrun
      rw [hreply, if_neg hwithin]
      cases done with
      | true =>
          obtain ⟨-, b, t, hb, ht, hinfo⟩ := clock_of_step hrun ha
          obtain ⟨hsum, -⟩ := (Duration.add?_eq_some_iff _ _ _).1 ht
          rw [left_of_ok hrun]
          exact ⟨b, hb, by rw [hinfo]; rfl, by simp [hinfo, hsum],
            by simp [hinfo, StepInfo.count]⟩
      | false =>
          rw [left_of_skipped hreply]
          exact ⟨a, ha, rfl, by simp, by simp⟩
  | error cause w' =>
      have hreply : w.stepReply r = none := by
        unfold stepReply
        rw [hrun]
      obtain ⟨hgo, phase, hbreaks⟩ := (step_eq_error_iff ha).1 hrun
      obtain ⟨b, hb, hinfo⟩ := hbreaks.info ha
      have hlate := hbreaks.overruns_iff ha hgo
      rw [left_of_error hrun, hreply]
      refine ⟨b, hb, ?_⟩
      rw [hinfo]
      cases phase <;> simp [hlate, StepInfo.brokenIn, StepInfo.count]

end Step

/-! ## Sessions -/

namespace Session

variable {requests : List Request} {r k m n : Nat} {dt : Duration}
  {a b : Runner}

/-- How many steps of a runner are carried out before a moment. -/
def stepsBefore (requests : List Request) (r k : Nat) : Nat :=
  (List.range k).countP fun i => decide (Steps requests r i)

theorem stepsBefore_succ (requests : List Request) (r k : Nat) :
    stepsBefore requests r (k + 1) =
      stepsBefore requests r k + if Steps requests r k then 1 else 0 :=
  Nat.count_succ (Steps requests r) k

theorem stepsBefore_mono (requests : List Request) (r : Nat) (hmk : m ≤ k) :
    stepsBefore requests r m ≤ stepsBefore requests r k :=
  Nat.count_monotone (Steps requests r) hmk

/-- At the moment a step of a runner breaks off because its clock cannot be
advanced. -/
def Overruns (requests : List Request) (r k : Nat) : Prop :=
  (moments {} requests)[k]? = some (.step r) ∧
  (worldAt requests k).overruns r = true

instance (requests : List Request) (r k : Nat) :
    Decidable (Overruns requests r k) :=
  decidable_of_iff ((moments {} requests)[k]?.bind Moment.runner? = some r ∧
      (worldAt requests k).overruns r = true) <| by
    simp [Overruns, Option.bind_eq_some_iff, Moment.runner?_eq_some_iff]

/-- How many steps of a runner overran before a moment. -/
def overrunsBefore (requests : List Request) (r k : Nat) : Nat :=
  Nat.count (Overruns requests r) k

theorem overrunsBefore_succ (requests : List Request) (r k : Nat) :
    overrunsBefore requests r (k + 1) =
      overrunsBefore requests r k + if Overruns requests r k then 1 else 0 :=
  Nat.count_succ (Overruns requests r) k

/-- A runner that is yet to be made does not step. -/
theorem not_steps_of_length_le (h : (worldAt requests k).runners.length ≤ r) :
    ¬ Steps requests r k := by
  intro hsteps
  obtain ⟨a, ha, -⟩ := exists_of_steps hsteps
  have := lt_of_runner? ha
  omega

theorem exists_of_overruns (h : Overruns requests r k) :
    ∃ a, (worldAt requests k).runner? r = some a := by
  cases ha : (worldAt requests k).runner? r with
  | none =>
      have hover := h.2
      simp [World.overruns, ha] at hover
  | some a => exact ⟨a, rfl⟩

theorem stepsBefore_of_length_le (h : (worldAt requests k).runners.length ≤ r) :
    stepsBefore requests r (k + 1) = 0 := by
  refine Nat.count_iff_forall_not.2 fun i hi => ?_
  have hgrown := (path_worldAt requests (Nat.le_of_lt_succ hi)).onward.runners
  exact not_steps_of_length_le (by omega)

theorem overrunsBefore_of_length_le
    (h : (worldAt requests k).runners.length ≤ r) :
    overrunsBefore requests r (k + 1) = 0 := by
  refine Nat.count_iff_forall_not.2 fun i hi hover => ?_
  have hgrown := (path_worldAt requests (Nat.le_of_lt_succ hi)).onward.runners
  obtain ⟨a, ha⟩ := exists_of_overruns hover
  have := lt_of_runner? ha
  omega

/-- A runner that has just been made has not stepped yet. -/
theorem info_of_made {u v : World} {P : World → Deed → Prop}
    (hP : ∀ {w d}, P w d → ∃ bus, d = .makeRunner bus dt) (h : Path P u v)
    (hr : u.runners.length ≤ r) (hb : v.runner? r = some b) :
    b.info = .after dt 0 := by
  have hzero : StepInfo.after dt 0 = { dt } := by
    simp [StepInfo.after, Duration.zero]
  rw [hzero]
  induction h generalizing b with
  | refl =>
      have := lt_of_runner? hb
      omega
  | react _ reaction ih =>
      obtain ⟨c, hc, hstill⟩ := reaction.runner? hb
      have hsame : b.info = c.info := by
        show b.still.info = c.still.info
        rw [hstill]
      exact hsame.trans (ih hc)
  | deed _ allowed ih =>
      obtain ⟨bus, rfl⟩ := hP allowed
      cases former_of_deed hb with
      | made deed _ fresh =>
          cases deed
          rw [fresh]
      | kept hc _ hclock =>
          rcases hclock with hsame | ⟨info, heq⟩
          · exact hsame.trans (ih hc)
          · cases heq

/-- At a moment at which it does not step the clock of a runner stays. -/
theorem info_of_not_step {moment : Moment}
    (hk : (moments {} requests)[k]? = some moment) (hne : moment ≠ .step r)
    (hr : r < (worldAt requests k).runners.length)
    (hb : (worldAt requests (k + 1)).runner? r = some b) :
    ∃ a, (worldAt requests k).runner? r = some a ∧ b.info = a.info := by
  rw [worldAt_succ hk] at hb
  refine (moment.path (worldAt requests k)).info
    (fun {v d} hd info heq => ?_) hr hb
  subst heq
  cases moment with
  | step q =>
      cases hd
      exact hne rfl
  | request asked =>
      obtain ⟨-, hplain⟩ := request_of_moment hk
      obtain ⟨ref, operation⟩ := asked
      cases hd <;> cases hplain
  | collect => exact hd

/-- A request for a runner makes one. -/
theorem length_of_made (w : World) (ref : StoreRef) (bus own : Option Nat)
    (dt : Duration) :
    (stepWorld w ⟨ref, .makeRunner bus dt own⟩).2.runners.length =
      w.runners.length + 1 := by
  have hbus : ∃ b v, (busFor bus).run w = .ok b v ∧ v.runners = w.runners := by
    cases bus with
    | none => exact ⟨_, _, rfl, rfl⟩
    | some n =>
        refine ⟨_, _, rfl, ?_⟩
        show (w.busNumbered n).2.runners = w.runners
        unfold busNumbered
        split <;> rfl
  obtain ⟨b, v, hrun, hrunners⟩ := hbus
  rw [stepWorld_left]
  show ((perform ref (.makeRunner bus dt own)).left w).runners.length = _
  unfold perform
  rw [left_bind, hrun]
  rw [← hrunners]
  cases own <;> exact List.length_append

section Made

variable {ref : StoreRef} {bus own : Option Nat}
  (hmade : (moments {} requests)[m]? =
    some (.request ⟨ref, .makeRunner bus dt own⟩))
  (hnext : (worldAt requests m).runners.length = r)
include hmade hnext

/-- From its making on the runner has its place. -/
theorem lt_length_of_made (hmk : m < k) :
    r < (worldAt requests k).runners.length := by
  have hmore : (worldAt requests (m + 1)).runners.length = r + 1 := by
    rw [worldAt_succ hmade, ← hnext]
    exact length_of_made _ ref bus own dt
  have hgrown := (path_worldAt requests (Nat.succ_le_of_lt hmk)).onward.runners
  rw [Nat.succ_eq_add_one, hmore] at hgrown
  exact hgrown

/-- The clock of a runner tells how many of its steps were completed or overran,
and the time that was simulated by those that were completed. -/
theorem clock_at (hmk : m < k) (ha : (worldAt requests k).runner? r = some a) :
    a.info.dt = dt ∧ a.info.simTime.nanoseconds =
      stepsBefore requests r k * dt.nanoseconds ∧
      a.info.iterations = stepsBefore requests r k +
        overrunsBefore requests r k := by
  induction hmk generalizing a with
  | refl =>
      rw [stepsBefore_of_length_le (Nat.le_of_eq hnext),
        overrunsBefore_of_length_le (Nat.le_of_eq hnext)]
      rw [Nat.succ_eq_add_one, worldAt_succ hmade] at ha
      have hfresh := info_of_made (fun {v d} hd => by
        cases hd with
        | makeRunner b _ => exact ⟨b, rfl⟩)
        (Moment.path (worldAt requests m)
          (.request ⟨ref, .makeRunner bus dt own⟩))
        (Nat.le_of_eq hnext) ha
      simp [hfresh, StepInfo.after]
  | @step k hmk ih =>
      have hlt := lt_length_of_made hmade hnext hmk
      rw [Nat.succ_eq_add_one] at ha ⊢
      rw [stepsBefore_succ, overrunsBefore_succ]
      by_cases hstep : (moments {} requests)[k]? = some (.step r)
      · rw [worldAt_succ hstep] at ha
        obtain ⟨b, hb⟩ : ∃ b, (worldAt requests k).runner? r = some b := by
          obtain ⟨b, hb, -⟩ :=
            (Moment.path (worldAt requests k) (.step r)).hears hlt ha
          exact ⟨b, hb⟩
        obtain ⟨c, hc, hlength, htime, hcount⟩ := info_of_step hb
        cases ha.symm.trans hc
        obtain ⟨hdt, hbefore, hcounted⟩ := ih hb
        have hsteps : Steps requests r k ↔
            (worldAt requests k).stepReply r = some true :=
          and_iff_right hstep
        have hover : Overruns requests r k ↔
            (worldAt requests k).overruns r = true :=
          and_iff_right hstep
        simp only [hsteps, hover]
        refine ⟨hlength.trans hdt, ?_, ?_⟩
        · rw [htime, hbefore, hdt]
          split <;> simp [Nat.add_mul]
        · rw [hcount, hcounted]
          omega
      · have hno : ¬ Steps requests r k := fun h => hstep h.1
        have hwithin : ¬ Overruns requests r k := fun h => hstep h.1
        rw [if_neg hno, if_neg hwithin, Nat.add_zero, Nat.add_zero]
        cases hk : (moments {} requests)[k]? with
        | none =>
            rw [worldAt_of_none hk] at ha
            exact ih ha
        | some moment =>
            obtain ⟨b, hb, hinfo⟩ :=
              info_of_not_step hk (fun heq => hstep (heq ▸ hk)) hlt ha
            rw [hinfo]
            exact ih hb

omit hmade in
/-- A runner that is there has been made before. -/
theorem lt_of_runner (ha : (worldAt requests k).runner? r = some a) :
    m < k := by
  have hlt := lt_of_runner? ha
  by_contra hkm
  have hgrown := (path_worldAt requests (Nat.le_of_not_lt hkm)).onward.runners
  omega

/-- A step that is completed ends within the bound of the simulated time. -/
theorem lt_bound_of_steps (h : Steps requests r k) :
    (stepsBefore requests r k + 1) * dt.nanoseconds < Duration.bound := by
  obtain ⟨a, ha, hrun⟩ := exists_of_steps h
  obtain ⟨hdt, htime, -⟩ := clock_at hmade hnext (lt_of_runner hnext ha) ha
  obtain ⟨-, b, t, -, ht, -⟩ := clock_of_step hrun ha
  obtain ⟨hsum, hlt⟩ := (Duration.add?_eq_some_iff _ _ _).1 ht
  rw [Nat.add_one_mul, ← htime, ← hdt, hsum]
  exact hlt

/-- A step that overran would have ended past the bound of the simulated
time. -/
theorem bound_le_of_overruns (h : Overruns requests r k) :
    Duration.bound ≤ (stepsBefore requests r k + 1) * dt.nanoseconds := by
  obtain ⟨a, ha⟩ := exists_of_overruns h
  obtain ⟨hdt, htime, -⟩ := clock_at hmade hnext (lt_of_runner hnext ha) ha
  obtain ⟨-, cause, w', hbreaks⟩ := (overruns_iff ha).1 h.2
  obtain ⟨-, -, hlate, -⟩ := breaks_clock_iff.1 hbreaks
  rw [Nat.add_one_mul, ← htime, ← hdt]
  exact hlate

end Made

/-- The clock of a runner with a step length at a moment of a session. -/
structure Tallied (requests : List Request) (r k : Nat) (dt : Duration)
    (a : Runner) : Prop where
  length : a.info.dt = dt
  time : a.info.simTime.nanoseconds = stepsBefore requests r k * dt.nanoseconds
  count : a.info.iterations = stepsBefore requests r k +
    overrunsBefore requests r k
  fits : a.info.simTime.nanoseconds = a.info.iterations * dt.nanoseconds ↔
    overrunsBefore requests r k = 0
  stuck : overrunsBefore requests r k ≠ 0 → ∀ {i : Nat}, k ≤ i →
    ¬ Steps requests r i

theorem tallied_of_made {ref : StoreRef} {bus own : Option Nat}
    (hmade : (moments {} requests)[m]? =
      some (.request ⟨ref, .makeRunner bus dt own⟩))
    (hnext : (worldAt requests m).runners.length = r) (hmk : m < k)
    (ha : (worldAt requests k).runner? r = some a) :
    Tallied requests r k dt a := by
  obtain ⟨hdt, htime, hcount⟩ := clock_at hmade hnext hmk ha
  have hbound : overrunsBefore requests r k ≠ 0 →
      Duration.bound ≤ (stepsBefore requests r k + 1) * dt.nanoseconds := by
    intro hover
    obtain ⟨i, hi, hat⟩ := Nat.count_ne_iff_exists.1 hover
    have hmono := stepsBefore_mono requests r (Nat.le_of_lt hi)
    calc Duration.bound ≤ (stepsBefore requests r i + 1) * dt.nanoseconds :=
          bound_le_of_overruns hmade hnext hat
      _ ≤ (stepsBefore requests r k + 1) * dt.nanoseconds :=
          Nat.mul_le_mul_right _ (Nat.succ_le_succ hmono)
  refine { length := hdt, time := htime, count := hcount,
           fits := ?_, stuck := ?_ }
  · rw [htime, hcount, Nat.add_mul]
    constructor
    · intro hsame
      by_contra hover
      have hpos : 0 < dt.nanoseconds := by
        by_contra hzero
        have hnone : dt.nanoseconds = 0 := by omega
        have hpast := hbound hover
        rw [hnone, Nat.mul_zero] at hpast
        exact absurd hpast (by decide)
      have hmore := Nat.mul_pos (Nat.pos_of_ne_zero hover) hpos
      omega
    · intro hover
      rw [hover, Nat.zero_mul, Nat.add_zero]
  · intro hover i hki hsteps
    have hpast := hbound hover
    have hwithin := lt_bound_of_steps hmade hnext hsteps
    have hmono : (stepsBefore requests r k + 1) * dt.nanoseconds ≤
        (stepsBefore requests r i + 1) * dt.nanoseconds :=
      Nat.mul_le_mul_right _
        (Nat.succ_le_succ (stepsBefore_mono requests r hki))
    omega

/-- A step that breaks off leaves the clock of its runner as it was exactly if
it did not overrun: breaking off in the turn of a system or in a listener does
not touch the clock, but where the clock itself cannot be advanced the step has
been counted. So before and after the step, in every session, the simulated time
is that of the completed steps, and the count is ahead of them by the steps that
overran, after which none is completed. -/
theorem clock_of_broken_step {w w' : World} {cause : Panic}
    (ha : w.runner? r = some a) (h : (step r).run w = .error cause w') :
    ∃ phase b, Breaks r a w cause w' phase ∧ w'.runner? r = some b ∧
      b.info = a.info.brokenIn phase ∧
      (b.info = a.info ↔ w.overruns r = false) ∧
      ∀ {requests : List Request} {m k : Nat} {ref : StoreRef}
        {bus own : Option Nat} {dt : Duration},
        (moments {} requests)[m]? =
          some (.request ⟨ref, .makeRunner bus dt own⟩) →
          (worldAt requests m).runners.length = r →
            (moments {} requests)[k]? = some (.step r) →
              worldAt requests k = w →
              Tallied requests r k dt a ∧ Tallied requests r (k + 1) dt b := by
  obtain ⟨hgo, phase, hbreaks⟩ := (step_eq_error_iff ha).1 h
  obtain ⟨b, hb, hinfo⟩ := hbreaks.info ha
  refine ⟨phase, b, hbreaks, hb, hinfo, ?_, ?_⟩
  · have hcounted : a.info.count ≠ a.info := fun heq =>
      Nat.succ_ne_self _ (congrArg StepInfo.iterations heq)
    have hsame : a.info.brokenIn phase = a.info ↔ phase ≠ .clock := by
      cases phase <;> simp [StepInfo.brokenIn, hcounted]
    rw [hinfo, hsame, ← Bool.not_eq_true]
    exact not_congr (hbreaks.overruns_iff ha hgo).symm
  · rintro requests m k ref bus own dt hmade hnext hk rfl
    have hmk := lt_of_runner hnext ha
    have hafter : (worldAt requests (k + 1)).runner? r = some b := by
      rw [worldAt_succ hk, ← hb, ← left_of_error h]
      rfl
    exact ⟨tallied_of_made hmade hnext hmk ha,
      tallied_of_made hmade hnext (Nat.lt_succ_of_lt hmk) hafter⟩

/-- The first step of a runner breaks off in a listener for the snapshot, which
leaves the clock alone, the second is completed and takes the time to its bound,
the third overruns. -/
theorem clock_of_overrun :
    let dt : Duration := ⟨Duration.bound - 1⟩
    let requests : List Request := [⟨.runner 0, .makeRunner (some 0) dt none⟩,
      ⟨.runner 0, .act (.connect 0 .syncStoreToGui "eye" [.panic "blind"] 1)⟩,
      ⟨.runner 0, .step 0⟩, ⟨.runner 0, .step 0⟩, ⟨.runner 0, .step 0⟩]
    ∃ a b phase cause w', Breaks 0 a (worldAt requests 6) cause w' phase ∧
      (b.info = a.info ↔ (worldAt requests 6).overruns 0 = false) ∧
        Tallied requests 0 6 dt a ∧ Tallied requests 0 7 dt b ∧
          stepsBefore requests 0 7 = 1 ∧ overrunsBefore requests 0 7 = 1 := by
  intro dt requests
  have hmade : (moments {} requests)[0]? =
      some (.request ⟨.runner 0, .makeRunner (some 0) dt none⟩) := rfl
  have hnext : (worldAt requests 0).runners.length = 0 := rfl
  have hrunner : ((worldAt requests 6).runner? 0).isSome = true := by
    decide +kernel
  obtain ⟨a, ha⟩ := Option.isSome_iff_exists.1 hrunner
  have hbroken : (worldAt requests 6).stepReply 0 = none := by decide +kernel
  have hstep : (moments {} requests)[6]?.bind Moment.runner? = some 0 := by
    decide +kernel
  obtain ⟨moment, hk, hmoment⟩ := Option.bind_eq_some_iff.1 hstep
  rw [Moment.runner?_eq_some_iff] at hmoment
  subst hmoment
  obtain ⟨cause, hrun⟩ := exists_error_of_stepReply hbroken
  obtain ⟨phase, b, hbreaks, -, -, hsame, htallied⟩ :=
    clock_of_broken_step ha hrun
  obtain ⟨hbefore, hafter⟩ := htallied hmade hnext hk rfl
  exact ⟨a, b, phase, cause, _, hbreaks, hsame, hbefore, hafter,
    by decide +kernel, by decide +kernel⟩

/-- The first step of a runner takes the simulated time to its bound. The second
breaks off when the clock cannot be advanced, and is counted all the same. -/
theorem counts_overrun :
    let dt : Duration := ⟨Duration.bound - 1⟩
    let requests : List Request := [⟨.runner 0, .makeRunner none dt none⟩,
      ⟨.runner 0, .step 0⟩, ⟨.runner 0, .step 0⟩]
    (worldAt requests 3).stepReply 0 = none ∧
      ((worldAt requests 3).runner? 0).map Runner.info = some (.after dt 1) ∧
      ((worldAt requests 4).runner? 0).map Runner.info =
        some { StepInfo.after dt 1 with iterations := 2 } ∧
      stepsBefore requests 0 4 = 1 := by
  decide +kernel

end Session

end Linkage
