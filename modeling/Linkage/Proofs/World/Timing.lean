import Linkage.Proofs.World.Clock

/-!
# The clock and the switches of a runner

A runner counts the steps that it carries out, and its simulated time is their
number times the length of a step. A step begins unless the last signal to pause
or to resume that the runner has heard said to pause, or it has ever heard one
to stop; and a step that has begun is carried out to its end, whatever is heard
in the meantime. All systems are told the same clock, that of the steps before.

The laws hold at every moment of a session, with steps of other runners, signals
from hosts, listeners and systems, and any other operation in between.

## Main results

* `run_of_steps`: what a number of steps in a row comes to.
* `Session.info_at`: the clock at every moment.
* `Session.timely_of_made`: clock, switches and steps of a runner over a whole
  session.
-/

namespace Linkage

open Act

/-! ## One step -/

open World

section Step

variable {r depth : Nat} {w w' : World} {a : Runner}

/-- A step that does not break off is done exactly if neither switch is on when
it begins, and otherwise leaves everything as it is. -/
theorem stepReply_eq_some_iff (hr : w.runner? r = some a) {done : Bool}
    (h : w.stepReply r = some done) :
    done = true ↔ a.paused = false ∧ a.stopped = false := by
  have hrun := run_of_stepReply h
  cases hgo : a.stopped || a.paused with
  | true =>
      rw [run_step_skipped fun b hb => by rw [hr] at hb; cases hb; exact hgo]
        at hrun
      obtain rfl : false = done := (EStateM.Result.ok.inj hrun).1
      rcases Bool.or_eq_true_iff.1 hgo with hstopped | hpaused
      · simp [hstopped]
      · simp [hpaused]
  | false =>
      rw [run_step hr hgo] at hrun
      obtain ⟨⟨⟩, v, -, hdone⟩ := run_bind_eq_ok_iff.1 hrun
      cases hdone
      obtain ⟨hstopped, hpaused⟩ := Bool.or_eq_false_iff.1 hgo
      simp [hstopped, hpaused]

/-- What the switches say, by what they have heard. -/
theorem Runner.Switched.running_iff (h : a.Switched) :
    a.paused = false ∧ a.stopped = false ↔
    a.heard.findSome? Signal.pause? ≠ some true ∧
    ¬ a.heard.any Signal.isStop = true := by
  rw [h.paused, h.stopped]
  cases a.heard.findSome? Signal.pause? with
  | none => simp
  | some paused => cases paused <;> simp

/-- The clock of a runner that has carried out a number of steps, after one
more. -/
theorem after_of_step {dt : Duration} {n : Nat}
    (h : (step r).run w = .ok true w') (ha : w.runner? r = some a)
    (hinfo : a.info = .after dt n) :
    ∃ b, w'.runner? r = some b ∧ b.info = .after dt (n + 1) := by
  obtain ⟨-, b, t, hb, ht, hclock⟩ := clock_of_step h ha
  refine ⟨b, hb, ?_⟩
  rw [hinfo] at ht hclock
  obtain ⟨hsum, -⟩ := (Duration.add?_eq_some_iff _ _ _).1 ht
  have htime : t = ⟨(n + 1) * dt.nanoseconds⟩ := by
    cases t
    simp only [StepInfo.after] at hsum
    rw [Nat.succ_mul, hsum]
  rw [hclock, htime]
  rfl

end Step

/-! ## Steps in a row -/

/-- A number of steps of a runner, all of them done, lead from one world to
another. -/
inductive Strides (r : Nat) : Nat → World → World → Prop
  | rest (w : World) : Strides r 0 w w
  | stride {n : Nat} {u v w : World} (first : (step r).run u = .ok true v)
      (later : Strides r n v w) : Strides r (n + 1) u w

/-- Steps in a row are counted, the clock advances with each, and if there are
fewer than were asked for a switch has gone on. -/
theorem run_of_steps {r : Nat} {dt : Duration} {limit : Nat} :
    ∀ {n count total : Nat}
    {w v : World} {a : Runner}, (runSteps r limit count).run w = .ok total v →
      w.runner? r = some a → a.info = .after dt n →
      ∃ done b, total = count + done ∧ done ≤ limit ∧ Strides r done w v ∧
        v.runner? r = some b ∧ b.info = .after dt (n + done) ∧
          (done < limit → b.paused = true ∨ b.stopped = true) := by
  induction limit with
  | zero =>
      intro n count total w v a h ha hinfo
      cases h
      exact ⟨0, a, rfl, Nat.le_refl _, .rest w, ha, hinfo,
        fun h => absurd h (Nat.lt_irrefl _)⟩
  | succ limit ih =>
      intro n count total w v a h ha hinfo
      obtain ⟨done, u, hstep, hrest⟩ := run_bind_eq_ok_iff.1 h
      cases done with
      | true =>
          obtain ⟨b, hb, hclock⟩ := after_of_step hstep ha hinfo
          obtain ⟨more, c, htotal, hle, hstrides, hc, hclock', hless⟩ :=
            ih hrest hb hclock
          refine ⟨more + 1, c, by omega, by omega,
            .stride hstep hstrides, hc, ?_, ?_⟩
          · rw [hclock', Nat.add_right_comm]
            rfl
          · intro hlt
            exact hless (by omega)
      | false =>
          cases hrest
          have hreply : w.stepReply r = some false := by
            unfold stepReply
            rw [hstep]
          obtain rfl : w = v :=
            (left_of_skipped hreply).symm.trans (left_of_ok hstep)
          refine ⟨0, a, rfl, Nat.zero_le _, .rest w, ha, hinfo, fun _ => ?_⟩
          have hoff := stepReply_eq_some_iff ha hreply
          cases hp : a.paused with
          | true => exact .inl rfl
          | false =>
              cases hs : a.stopped with
              | true => exact .inr rfl
              | false => exact absurd (hoff.2 ⟨hp, hs⟩) (by simp)

/-! ## Sessions -/

namespace Session

variable {requests : List Request} {r k m n : Nat} {dt : Duration}
  {a b : Runner}

/-- At the moment a step of a runner breaks off. -/
def BreaksOff (requests : List Request) (r k : Nat) : Prop :=
  (moments {} requests)[k]? = some (.step r) ∧
  (worldAt requests k).stepReply r = none

instance (requests : List Request) (r k : Nat) :
    Decidable (BreaksOff requests r k) :=
  decidable_of_iff ((moments {} requests)[k]?.bind Moment.runner? = some r ∧
      (worldAt requests k).stepReply r = none) <| by
    simp [BreaksOff, Option.bind_eq_some_iff, Moment.runner?_eq_some_iff]

theorem breaksOff_of_overruns (h : Overruns requests r k) :
    BreaksOff requests r k := by
  obtain ⟨a, ha⟩ := exists_of_overruns h
  obtain ⟨hgo, cause, w', hbreaks⟩ := (overruns_iff ha).1 h.2
  refine ⟨h.1, ?_⟩
  unfold stepReply
  rw [(step_eq_error_iff ha).2 ⟨hgo, .clock, hbreaks⟩]

/-- A step that does not break off is carried out, or everything stays as it
is. -/
theorem steps_or_stays (hk : (moments {} requests)[k]? = some (.step r))
    (hunbroken : ¬ BreaksOff requests r k) :
    Steps requests r k ∨ worldAt requests (k + 1) = worldAt requests k := by
  cases hreply : (worldAt requests k).stepReply r with
  | none => exact absurd ⟨hk, hreply⟩ hunbroken
  | some done =>
      cases done with
      | true => exact .inl ⟨hk, hreply⟩
      | false =>
          right
          rw [worldAt_succ hk]
          exact left_of_skipped hreply

/-- The clock of a runner tells how many of its steps were carried out, as long
as none of them broke off. -/
theorem info_at {ref : StoreRef} {bus own : Option Nat}
    (hmade : (moments {} requests)[m]? =
      some (.request ⟨ref, .makeRunner bus dt own⟩))
    (hnext : (worldAt requests m).runners.length = r) (hmk : m < k)
    (hunbroken : ∀ i < k, ¬ BreaksOff requests r i)
    (ha : (worldAt requests k).runner? r = some a) :
    a.info = .after dt (stepsBefore requests r k) := by
  obtain ⟨hdt, htime, hcount⟩ := clock_at hmade hnext hmk ha
  have hnone : overrunsBefore requests r k = 0 :=
    Nat.count_iff_forall_not.2 fun i hi hover =>
      hunbroken i hi (breaksOff_of_overruns hover)
  rw [hnone, Nat.add_zero] at hcount
  rw [← hcount] at htime
  unfold StepInfo.after
  rw [← hcount, ← htime, ← hdt]

/-- The clock and the switches of a runner with a step length at a moment of a
session, and what becomes of a step that is asked for there, or of several in a
row. -/
structure Timely (requests : List Request) (r k : Nat) (dt : Duration)
    (a : Runner) : Prop where
  clock : a.info = .after dt (stepsBefore requests r k)
  switched : a.Switched
  keeps : ∀ {i : Nat} {b : Runner}, i ≤ k →
    (worldAt requests i).runner? r = some b →
    b.heard <:+ a.heard
  starts : (moments {} requests)[k]? = some (.step r) → (Steps requests r k ↔
    a.heard.findSome? Signal.pause? ≠ some true ∧
    ¬ a.heard.any Signal.isStop = true)
  refuses : (moments {} requests)[k]? = some (.step r) → ¬ Steps requests r k →
    worldAt requests (k + 1) = worldAt requests k
  hands : Steps requests r k → ∀ {p : Nat} {system : System},
    a.systems[p]? = some system →
    (updateSystem (Linkage.perform
      ((worldAt requests k).weight + systemsWeight a.systems + 1)) r
      (.after dt (stepsBefore requests r k)) system).run
        ((worldAt requests k).atTurn r p) =
        .ok () ((worldAt requests k).atTurn r (p + 1))
  finishes : Steps requests r k →
    (stepPhases (Linkage.perform
      ((worldAt requests k).weight + systemsWeight a.systems + 1)) r
      a).run (worldAt requests k) = .ok () (worldAt requests (k + 1))
  runs : ∀ {limit total : Nat} {v : World},
    (runSteps r limit 0).run (worldAt requests k) = .ok total v →
      total ≤ limit ∧ Strides r total (worldAt requests k) v ∧
        ∃ b, v.runner? r = some b ∧
        b.info = .after dt (stepsBefore requests r k + total) ∧
          (total < limit → b.paused = true ∨ b.stopped = true)

/-- In a session in which no step of a runner breaks off, whatever else is done
and whoever gives the signals to pause, to resume and to stop: the clock counts
the steps that are done, and all systems are told the same one; a step is done
exactly if by then the last signal to pause or to resume was not to pause and
none was to stop, a signal that is heard stays heard, a step that is done goes
through all its phases whatever is heard in it, and a step that is refused
changes nothing; and a number of steps in a row is cut short by a switch
only. -/
theorem timely_of_made {ref : StoreRef} {bus own : Option Nat}
    (hmade : (moments {} requests)[m]? =
      some (.request ⟨ref, .makeRunner bus dt own⟩))
    (hnext : (worldAt requests m).runners.length = r) (hmk : m < k)
    (hunbroken : ∀ i ≤ k, ¬ BreaksOff requests r i)
    (ha : (worldAt requests k).runner? r = some a) :
    Timely requests r k dt a := by
  have hswitched : a.Switched := (reachable_worldAt requests k).switched ha
  have hclock := info_at hmade hnext hmk
    (fun i hi => hunbroken i (Nat.le_of_lt hi)) ha
  have hdone : Steps requests r k →
      (step r).run (worldAt requests k) =
        .ok true (worldAt requests (k + 1)) := by
    intro hsteps
    obtain ⟨-, -, hrun⟩ := exists_of_steps hsteps
    exact hrun
  refine { clock := hclock, switched := hswitched, keeps := ?_, starts := ?_,
           refuses := ?_,
           hands := ?_, finishes := fun hsteps =>
             (clock_of_step (hdone hsteps) ha).1, runs := ?_ }
  · intro i b hik hb
    obtain ⟨c, hc, hears⟩ :=
      (path_worldAt requests hik).hears (lt_of_runner? hb) ha
    cases hb.symm.trans hc
    exact hears.heard
  · intro hk
    rw [← hswitched.running_iff]
    cases hreply : (worldAt requests k).stepReply r with
    | none => exact absurd ⟨hk, hreply⟩ (hunbroken k (Nat.le_refl k))
    | some done =>
        rw [← stepReply_eq_some_iff ha hreply, Steps, hreply, Option.some.injEq]
        exact and_iff_right hk
  · intro hk hno
    exact (steps_or_stays hk (hunbroken k (Nat.le_refl k))).resolve_left hno
  · intro hsteps p system hp
    rw [← hclock]
    exact run_turn_of_step (hdone hsteps) ha hp
  · intro limit total v hrun
    obtain ⟨done, b, htotal, hle, hstrides, hb, hinfo, hless⟩ :=
      run_of_steps hrun ha hclock
    obtain rfl : total = done := htotal.trans (Nat.zero_add done)
    exact ⟨hle, hstrides, b, hb, hinfo, hless⟩

/-- A script gives the signal to pause in the second of five steps in a row.
That step is finished, the next is refused. The run goes on when it is resumed,
and ends when a listener that hears of a removal gives the signal to stop. -/
theorem timely_of_pause_in_step :
    let script : List Scheduled := [⟨.emit 0 (.pause true), some 1⟩,
      ⟨.onStore (.create (some "spare")), some 2⟩,
      ⟨.onStore (.remove (.label "spare")), some 2⟩]
    let requests : List Request :=
      [⟨.runner 0, .makeRunner (some 0) defaultStep none⟩,
      ⟨.runner 0, .act (.onStore (.create (some "host")))⟩,
      ⟨.runner 0, .addSystem 0 (.script "cook" [] script) (.label "host")
        (jointElement "hook" "cart" "eye")⟩,
      ⟨.runner 0, .act (.connect 0 .removeFromStore "ear" [.emit 0 .stop] 1)⟩,
      ⟨.runner 0, .run 0 5⟩, ⟨.runner 0, .pause 0 false⟩, ⟨.runner 0, .run 0 5⟩]
    ∃ a, (worldAt requests 10).runner? 0 = some a ∧
      Timely requests 0 10 defaultStep a ∧
      stepsBefore requests 0 10 = 3 ∧
        (moments {} requests)[10]?.bind Moment.runner? = some 0 ∧
        a.heard.map Signal.event = [.stop, .pause, .pause] := by
  intro script requests
  have hmade : (moments {} requests)[0]? =
      some (.request ⟨.runner 0, .makeRunner (some 0) defaultStep none⟩) := rfl
  have hnext : (worldAt requests 0).runners.length = 0 := rfl
  have hunbroken : ∀ i ≤ 10, ¬ BreaksOff requests 0 i := by decide +kernel
  have hrunner : ((worldAt requests 10).runner? 0).isSome = true := by
    decide +kernel
  obtain ⟨a, ha⟩ := Option.isSome_iff_exists.1 hrunner
  have hheard : ∀ b ∈ (worldAt requests 10).runner? 0,
      b.heard.map Signal.event = [.stop, .pause, .pause] := by decide +kernel
  exact ⟨a, ha, timely_of_made hmade hnext (by decide) hunbroken ha,
    by decide +kernel, by decide +kernel, hheard a ha⟩

end Session

end Linkage
