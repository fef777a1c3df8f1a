import Linkage.Proofs.World.Paths

/-!
# The moments of a session

A request to step a runner several times comes to single steps, the last of
which is the first that is not carried out. A session is therefore a sequence of
moments: in each of them a runner is stepped once, or a request of another kind
is carried out, or what was logged and traced is taken. Laws about the steps of
a runner are stated for the moments of a session, so they hold of every step,
whether it was requested alone or as one of several.

## Main results

* `carried_moments`: a session goes the way of its moments.
* `heeds_moment`: every request meets the same world in its moment.
* `Moment.path`: what happens in a moment is a path of deeds.
* `worldAt_keeps`: what every moment keeps holds between any two moments.
-/

namespace Linkage

open Act

namespace World

/-- What a step of a runner returns, unless it breaks off. -/
def stepReply (w : World) (r : Nat) : Option Bool :=
  match (step r).run w with
  | .ok done _ => some done
  | .error _ _ => none

theorem run_of_stepReply {w : World} {r : Nat} {done : Bool}
    (h : w.stepReply r = some done) :
    (step r).run w = .ok done ((step r).left w) := by
  unfold stepReply at h
  unfold left
  cases hrun : (step r).run w with
  | ok b v =>
      rw [hrun] at h
      cases h
      rfl
  | error cause v =>
      rw [hrun] at h
      cases h

/-- A step that returns nothing breaks off. -/
theorem exists_error_of_stepReply {w : World} {r : Nat}
    (h : w.stepReply r = none) :
    ∃ cause, (step r).run w = .error cause ((step r).left w) := by
  unfold stepReply at h
  unfold left
  cases hrun : (step r).run w with
  | ok b v =>
      rw [hrun] at h
      cases h
  | error cause v => exact ⟨cause, rfl⟩

/-- A step that is not carried out, but does not break off either, leaves
everything as it is. -/
theorem left_of_skipped {w : World} {r : Nat} (h : w.stepReply r = some false) :
    (step r).left w = w := by
  by_cases hgo : ∃ runner, w.runner? r = some runner ∧
    (runner.stopped || runner.paused) = false
  · obtain ⟨runner, hr, hgo⟩ := hgo
    have hrun := run_of_stepReply h
    rw [run_step hr hgo, run_bind_eq_ok_iff] at hrun
    obtain ⟨⟨⟩, v, -, hdone⟩ := hrun
    cases hdone
  · exact left_of_ok (run_step_skipped fun runner hr => by
      by_contra hno
      exact hgo ⟨runner, hr, by simpa using hno⟩)

end World

open World

namespace Session

/-- The world after the requests of a session. -/
def after (w : World) (requests : List Request) : World :=
  requests.foldl (fun w request => (stepWorld w request).2) w

/-- Every request of a session is one that is allowed in the world that it
meets. -/
def Heeds (P : World → Request → Prop) : World → List Request → Prop
  | _, [] => True
  | w, request :: rest => P w request ∧ Heeds P (stepWorld w request).2 rest

instance decidableHeeds (P : World → Request → Prop)
    [∀ w request, Decidable (P w request)] :
    ∀ w requests, Decidable (Heeds P w requests)
  | _, [] => .isTrue trivial
  | w, request :: rest =>
      have := decidableHeeds P (stepWorld w request).2 rest
      inferInstanceAs
        (Decidable (P w request ∧ Heeds P (stepWorld w request).2 rest))

/-- What happens in a session at a time. -/
inductive Moment where
  | step (r : Nat)
  | request (asked : Request)
  | collect

namespace Moment

/-- The world after a moment. -/
def carry (w : World) : Moment → World
  | .step r => (Linkage.step r).left w
  | .request asked => (stepWorld w asked).2
  | .collect => { w with log := [], trace := [] }

/-- A deed of a moment that begins in a world. -/
def Does (start : World) : Moment → World → Deed → Prop
  | .step r, v, d => StepDeed r v d
  | .request asked, v, d => RequestDeed start asked.store asked.operation v d
  | .collect, _, _ => False

theorem path (w : World) (m : Moment) : Path (m.Does w) w (m.carry w) := by
  cases m with
  | step r => exact step_path r w
  | request asked => exact stepWorld_path w asked
  | collect =>
      exact .of_reaction
        (.of_same (.of_buses_eq rfl) rfl rfl rfl rfl rfl rfl rfl)

end Moment

/-- The steps that a request for a number of them comes to. -/
def stepMoments (r : Nat) : Nat → World → List Moment
  | 0, _ => []
  | n + 1, w =>
      .step r :: if w.stepReply r = some true then
        stepMoments r n ((step r).left w) else []

/-- The moments of a request. -/
def momentsOf (w : World) (request : Request) : List Moment :=
  match request.operation with
  | .step r => [.step r, .collect]
  | .run r n => stepMoments r n w ++ [.collect]
  | _ => [.request request]

/-- The moments of a session. -/
def moments : World → List Request → List Moment
  | _, [] => []
  | w, request :: rest =>
      momentsOf w request ++ moments (stepWorld w request).2 rest

/-- The world after some moments. -/
def carried (w : World) (l : List Moment) : World := l.foldl Moment.carry w

theorem carried_append (w : World) (l later : List Moment) :
    carried w (l ++ later) = carried (carried w l) later :=
  List.foldl_append

/-! ## Requests and their moments -/

theorem stepWorld_left (w : World) (request : Request) :
    (stepWorld w request).2 =
    { (perform request.store request.operation).left w with log := [],
                                                            trace := [] } := by
  unfold stepWorld left
  cases (perform request.store request.operation).run w <;> rfl

/-- Several steps in a row go the way of single ones. -/
theorem carried_stepMoments (r n : Nat) (w : World) (count : Nat) :
    carried w (stepMoments r n w) = (runSteps r n count).left w := by
  induction n generalizing w count with
  | zero => rfl
  | succ n ih =>
      have hcons : carried w (stepMoments r (n + 1) w) =
          carried ((step r).left w)
          (if w.stepReply r = some true then stepMoments r n ((step r).left w)
          else []) := rfl
      rw [hcons, runSteps, left_bind]
      cases hreply : w.stepReply r with
      | none =>
          obtain ⟨cause, hrun⟩ := exists_error_of_stepReply hreply
          rw [hrun, if_neg (by simp)]
          rfl
      | some done =>
          rw [run_of_stepReply hreply]
          cases done with
          | false => rfl
          | true =>
              rw [if_pos rfl]
              exact ih _ _

/-- A request for steps on behalf of a runner leaves what the steps leave. -/
theorem left_onRunner {r : Nat} {m : Act Reply} {w : World}
    (h : w.runner? r = none → m.left w = w) :
    (onRunner r fun _ => m).left w = m.left w := by
  unfold onRunner
  rw [left_get_bind]
  cases hr : w.runner? r with
  | none => exact (h hr).symm
  | some runner => rfl

/-- A request goes the way of its moments. -/
theorem carried_momentsOf (w : World) (request : Request) :
    carried w (momentsOf w request) = (stepWorld w request).2 := by
  obtain ⟨ref, operation⟩ := request
  cases operation with
  | step r =>
      rw [stepWorld_left]
      have hleft : (perform ref (.step r)).left w = (step r).left w := by
        refine (left_onRunner fun hnone => ?_).trans ?_
        · rw [left_bind, run_step_of_none hnone]
          rfl
        · rw [left_bind]
          unfold left
          cases (step r).run w <;> rfl
      rw [hleft]
      rfl
  | run r n =>
      rw [stepWorld_left]
      have hleft : (perform ref (.run r n)).left w =
          (runSteps r n 0).left w := by
        refine (left_onRunner fun hnone => ?_).trans ?_
        · have hsteps : (runSteps r n 0).run w = .ok 0 w := by
            cases n with
            | zero => rfl
            | succ n =>
                unfold runSteps
                rw [run_bind, run_step_of_none hnone]
                rfl
          rw [left_bind, hsteps]
          rfl
        · rw [left_bind]
          unfold left
          cases (runSteps r n 0).run w <;> rfl
      rw [hleft, ← carried_stepMoments]
      exact carried_append _ _ _
  | _ => rfl

/-- A session goes the way of its moments. -/
theorem carried_moments (w : World) (requests : List Request) :
    carried w (moments w requests) = after w requests := by
  induction requests generalizing w with
  | nil => rfl
  | cons request rest ih =>
      have hcons : moments w (request :: rest) =
          momentsOf w request ++ moments (stepWorld w request).2 rest := rfl
      rw [hcons, carried_append, carried_momentsOf, ih]
      rfl

/-! ## Requests in their moments -/

/-- Whether an operation has a runner step. -/
def isStepping : Operation → Bool
  | .step _ => true
  | .run .. => true
  | _ => false

theorem mem_stepMoments {r n : Nat} {w : World} {m : Moment}
    (h : m ∈ stepMoments r n w) :
    m = .step r := by
  induction n generalizing w with
  | zero => cases h
  | succ n ih =>
      rcases List.mem_cons.1 h with rfl | htail
      · rfl
      · split at htail
        · exact ih htail
        · cases htail

/-- The only moment in which a request is carried out as such is the first one
of a request that has no runner step. -/
theorem request_of_momentsOf {w : World} {request asked : Request} {k : Nat}
    (h : (momentsOf w request)[k]? = some (.request asked)) :
    k = 0 ∧ asked = request ∧ isStepping asked.operation = false := by
  obtain ⟨ref, operation⟩ := request
  have hsingle : ∀ {l : List Moment}, l = [.request ⟨ref, operation⟩] →
      l[k]? = some (.request asked) → k = 0 ∧ asked = ⟨ref, operation⟩ := by
    rintro l rfl hk
    cases k with
    | zero => exact ⟨rfl, by simpa using hk.symm⟩
    | succ k => simp at hk
  cases operation with
  | step r =>
      have hmem := List.mem_of_getElem? h
      simp [momentsOf] at hmem
  | run r n =>
      rcases List.mem_append.1 (List.mem_of_getElem? h) with hmem | hmem
      · cases mem_stepMoments hmem
      · simp at hmem
  | _ =>
      obtain ⟨rfl, rfl⟩ := hsingle rfl h
      exact ⟨rfl, rfl, rfl⟩

/-- A request that is carried out as such is one of the session and has no
runner step. -/
theorem request_of_moment {w : World} {requests : List Request} {k : Nat}
    {request : Request}
    (h : (moments w requests)[k]? = some (.request request)) :
    request ∈ requests ∧ isStepping request.operation = false := by
  have hmem := List.mem_of_getElem? h
  clear h
  induction requests generalizing w with
  | nil => cases hmem
  | cons first rest ih =>
      rcases List.mem_append.1 hmem with hfirst | hrest
      · obtain ⟨i, hi⟩ := List.mem_iff_getElem?.1 hfirst
        obtain ⟨-, rfl, hplain⟩ := request_of_momentsOf hi
        exact ⟨List.mem_cons_self, hplain⟩
      · obtain ⟨hin, hplain⟩ := ih hrest
        exact ⟨List.mem_cons_of_mem _ hin, hplain⟩

/-- A request that is carried out as such meets the same world as in the
session. -/
theorem heeds_moment {P : World → Request → Prop} {w : World}
    {requests : List Request} (h : Heeds P w requests) {k : Nat}
    {request : Request}
    (hk : (moments w requests)[k]? = some (.request request)) :
    P (carried w ((moments w requests).take k)) request := by
  induction requests generalizing w k with
  | nil => cases hk
  | cons first rest ih =>
      have hcons : moments w (first :: rest) =
          momentsOf w first ++ moments (stepWorld w first).2 rest := rfl
      rw [hcons] at hk ⊢
      rcases Nat.lt_or_ge k (momentsOf w first).length with hlt | hge
      · rw [List.getElem?_append_left hlt] at hk
        obtain ⟨rfl, rfl, -⟩ := request_of_momentsOf hk
        exact h.1
      · rw [List.getElem?_append_right hge] at hk
        rw [List.take_append, List.take_of_length_le hge, carried_append,
          carried_momentsOf]
        exact ih h.2 hk

/-! ## From one moment to the next -/

/-- The world at a moment of a session. -/
def worldAt (requests : List Request) (k : Nat) : World :=
  carried {} ((moments {} requests).take k)

/-- At the moment a step of a runner is carried out. -/
def Steps (requests : List Request) (r k : Nat) : Prop :=
  (moments {} requests)[k]? = some (.step r) ∧
  (worldAt requests k).stepReply r = some true

/-- The runner that a moment steps. -/
def Moment.runner? : Moment → Option Nat
  | .step r => some r
  | _ => none

theorem Moment.runner?_eq_some_iff (m : Moment) (r : Nat) :
    m.runner? = some r ↔ m = .step r := by
  cases m <;> simp [Moment.runner?]

instance (requests : List Request) (r k : Nat) :
    Decidable (Steps requests r k) :=
  decidable_of_iff ((moments {} requests)[k]?.bind Moment.runner? = some r ∧
      (worldAt requests k).stepReply r = some true) <| by
    simp [Steps, Option.bind_eq_some_iff, Moment.runner?_eq_some_iff]

variable {requests : List Request} {r k n : Nat}

theorem worldAt_succ {m : Moment} (h : (moments {} requests)[k]? = some m) :
    worldAt requests (k + 1) = m.carry (worldAt requests k) := by
  unfold worldAt
  rw [List.take_add_one, h, carried_append]
  rfl

theorem worldAt_of_none (h : (moments {} requests)[k]? = none) :
    worldAt requests (k + 1) = worldAt requests k := by
  have hlength := List.getElem?_eq_none_iff.1 h
  unfold worldAt
  rw [List.take_of_length_le hlength,
    List.take_of_length_le (Nat.le_succ_of_le hlength)]

/-- The last moment leaves the world that the session leaves. -/
theorem worldAt_length (requests : List Request) :
    worldAt requests (moments {} requests).length = after {} requests := by
  unfold worldAt
  rw [List.take_length, carried_moments]

/-- What every moment keeps holds between any two moments. -/
theorem worldAt_keeps {R : World → World → Prop} (hR : Chained R)
    (hkeeps : ∀ {i : Nat} {m : Moment}, k ≤ i →
      (moments {} requests)[i]? = some m →
      R (worldAt requests i) (m.carry (worldAt requests i))) (hkn : k ≤ n) :
    R (worldAt requests k) (worldAt requests n) := by
  induction hkn with
  | refl => exact hR.refl _
  | @step n hkn ih =>
      refine hR.trans ih ?_
      cases hm : (moments {} requests)[n]? with
      | none =>
          rw [worldAt_of_none hm]
          exact hR.refl _
      | some m =>
          rw [worldAt_succ hm]
          exact hkeeps hkn hm

/-- From one moment to a later one there is a path. -/
theorem path_worldAt (requests : List Request) (hkn : k ≤ n) :
    Path (fun _ _ => True) (worldAt requests k) (worldAt requests n) :=
  worldAt_keeps (path_reactive fun _ _ => True).toChained
    (fun _ _ => (Moment.path _ _).mono fun _ _ _ => trivial) hkn

theorem reachable_worldAt (requests : List Request) (k : Nat) :
    (worldAt requests k).Reachable := path_worldAt requests (Nat.zero_le k)

/-- Every world that a session leaves is reachable. -/
theorem reachable_after (requests : List Request) :
    (after {} requests).Reachable := by
  rw [← worldAt_length]
  exact reachable_worldAt requests _

theorem sound_worldAt (requests : List Request) (k : Nat) :
    (worldAt requests k).Sound :=
  (reachable_worldAt requests k).sound

/-- Every world that a session leaves is sound. -/
theorem sound_after (requests : List Request) : (after {} requests).Sound := by
  rw [← worldAt_length]
  exact sound_worldAt requests _

/-- A step that is carried out leads to the world of the next moment. -/
theorem exists_of_steps (h : Steps requests r k) : ∃ runner,
    (worldAt requests k).runner? r = some runner ∧
      (step r).run (worldAt requests k) =
        .ok true (worldAt requests (k + 1)) := by
  have hrun := run_of_stepReply h.2
  obtain ⟨runner, -, -, -, hr, -⟩ := phases_of_step hrun
  refine ⟨runner, hr, ?_⟩
  rw [worldAt_succ h.1]
  exact hrun

/-- A step that is carried out leaves the runner there. -/
theorem runner_after_steps (h : Steps requests r k) :
    ∃ runner, (worldAt requests (k + 1)).runner? r = some runner := by
  obtain ⟨runner, hr, -⟩ := exists_of_steps h
  obtain ⟨runner', hr', -⟩ := (step_stepping hr).2
  rw [worldAt_succ h.1]
  exact ⟨runner', hr'⟩

end Session

end Linkage
