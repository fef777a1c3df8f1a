import Linkage.Proofs.World.Onward

/-!
# The turns of a step

The systems of a runner take their turns in a step one after the other. Between
two turns there is a world, the one that the next system meets, and the worlds
between the turns, the removals and the end of the step are lined up here.

## Main results

* `turn_of_step`: a turn leads from the world that a system meets to the one
  that the next meets.
* `end_of_step`: after the last turn the removals are applied, and the rest is
  reaction.
-/

namespace Linkage

open Act

namespace World

/-- The world that the system at a place of a runner meets in a step: the
systems before it have taken their turns. -/
def atTurn (w : World) (r p : Nat) : World :=
  match w.runner? r with
  | none => w
  | some runner => ((runner.systems.take p).forM (updateSystem
      (perform (w.weight + systemsWeight runner.systems + 1)) r
        runner.info)).left w

variable {w w' : World} {r p q j : Nat} {runner : Runner}

theorem atTurn_of_runner (h : w.runner? r = some runner) (p : Nat) :
    w.atTurn r p = ((runner.systems.take p).forM (updateSystem
      (perform (w.weight + systemsWeight runner.systems + 1)) r
        runner.info)).left w := by
  unfold atTurn
  rw [h]

@[simp] theorem atTurn_zero (w : World) (r : Nat) : w.atTurn r 0 = w := by
  unfold atTurn
  split <;> rfl

/-- After the last turn no system is left to take one. -/
theorem atTurn_of_length_le (h : w.runner? r = some runner)
    (hp : runner.systems.length ≤ p) :
    w.atTurn r (p + 1) = w.atTurn r p := by
  rw [atTurn_of_runner h, atTurn_of_runner h, List.take_of_length_le hp,
    List.take_of_length_le (Nat.le_succ_of_le hp)]

/-- Up to a turn a step does deeds of a step, and the runner keeps its
systems. -/
theorem atTurn_stepping (h : w.runner? r = some runner) (p : Nat) :
    Path (StepDeed r) w (w.atTurn r p) ∧
    Running r runner.systems (w.atTurn r p) := by
  have hR := stepping_reactive r runner.systems
  have hkeeps := Keeps.forM hR.toChained
      (runner.systems.take p) fun system hs =>
    updateSystem_stepping (w.weight + systemsWeight runner.systems + 1)
      runner.info (List.mem_of_mem_take hs)
  rw [atTurn_of_runner h]
  exact hkeeps w ⟨runner, h, rfl⟩

theorem atTurn_path (w : World) (r p : Nat) :
    Path (StepDeed r) w (w.atTurn r p) := by
  cases h : w.runner? r with
  | none =>
      unfold atTurn
      rw [h]
      exact .refl w
  | some runner => exact (atTurn_stepping h p).1

/-- A system other than the joint leaves the joint alone in its turn. -/
theorem updateSystem_steady (depth r : Nat) (info : StepInfo) {system : System}
    (h : system.joint? ≠ some j) :
    Keeps (Steady j) (updateSystem (perform depth) r info system) := by
  have hR := steady_reactive j
  cases system with
  | joint i =>
      exact fun w => steady_turn fun hij => absurd (congrArg some hij) h
  | inert => exact Keeps.pure hR.toChained ()
  | script name update =>
      refine (record_keeps hR _).bind hR.toChained fun _ => ?_
      refine playSystem_keeps hR name _ depth 0 update fun a _ op _ w => ?_
      rcases left_callStore (.runner r) op w with
        heq | ⟨s, reply, names, s', -, -, heq⟩
      · rw [heq]
        exact hR.refl w
      · rw [heq]
        exact .of_joints (congrArg (·[j]?) (joints_setStore w _ s'))

end World

namespace Act

variable {α : Type} {f : α → Act Unit} {w w' : World}

theorem forM_append (f : α → Act Unit) (l l' : List α) :
    (l ++ l').forM f = l.forM f >>= fun _ => l'.forM f :=
  List.forM_append

/-- When all calls of a list return, the first ones do. -/
theorem run_forM_take {l : List α}
    (h : (l.forM f).run w = .ok () w') (p : Nat) :
    ((l.take p).forM f).run w = .ok () (((l.take p).forM f).left w) := by
  have hsplit : l.forM f = (l.take p).forM f >>= fun _ =>
      (l.drop p).forM f := by
    rw [← forM_append, List.take_append_drop]
  rw [hsplit] at h
  obtain ⟨⟨⟩, v, hfirst, -⟩ := run_bind_eq_ok_iff.1 h
  rw [hfirst, left_of_ok hfirst]

/-- When all calls of a list return, each of them returns where the ones before
it end. -/
theorem run_forM_at {l : List α} (h : (l.forM f).run w = .ok () w')
    {p : Nat} {a : α} (hp : l[p]? = some a) :
    (f a).run (((l.take p).forM f).left w) =
      .ok () (((l.take (p + 1)).forM f).left w) := by
  have htake : l.take (p + 1) = l.take p ++ [a] := by
    rw [List.take_add_one, hp]
    rfl
  have hnext := run_forM_take h (p + 1)
  rw [htake, forM_append] at hnext
  rw [htake, forM_append]
  obtain ⟨⟨⟩, v, hfirst, hlast⟩ := run_bind_eq_ok_iff.1 hnext
  rw [left_of_ok hfirst]
  obtain ⟨⟨⟩, v', hlast, hdone⟩ :=
    run_bind_eq_ok_iff.1 (show (f a >>= fun _ => pure ()).run v = _ from hlast)
  cases hdone
  exact hlast

end Act

open World

section Step

variable {w w' : World} {r p q j : Nat} {runner : Runner}
  (h : (step r).run w = .ok true w') (hr : w.runner? r = some runner)
include h hr

theorem run_turns : ∃ w₁ w₂ info, (runner.systems.forM (updateSystem
      (perform (w.weight + systemsWeight runner.systems + 1)) r
        runner.info)).run w = .ok () w₁ ∧
    ((applyRemovals r).left w₁).Reaction w₂ ∧ w' = w₂.setClock r info := by
  obtain ⟨x, w₁, w₂, info, hx, -, hturns, hreaction, heq⟩ := phases_of_step h
  rw [hr] at hx
  cases hx
  exact ⟨w₁, w₂, info, hturns, hreaction, heq⟩

/-- In a step that is done every system takes its turn without breaking off. -/
theorem run_turn_of_step {system : System}
    (hp : runner.systems[p]? = some system) :
    (updateSystem (perform (w.weight + systemsWeight runner.systems + 1)) r
      runner.info system).run (w.atTurn r p) = .ok () (w.atTurn r (p + 1)) := by
  obtain ⟨w₁, -, -, hturns, -⟩ := run_turns h hr
  rw [atTurn_of_runner hr, atTurn_of_runner hr]
  exact run_forM_at hturns hp

/-- In a step that is done a turn leads from the world that a system meets to
the one that the next one meets. -/
theorem turn_of_step {system : System} (hp : runner.systems[p]? = some system) :
    w.atTurn r (p + 1) =
      (updateSystem (perform (w.weight + systemsWeight runner.systems + 1)) r
      runner.info system).left (w.atTurn r p) :=
  (left_of_ok (run_turn_of_step h hr hp)).symm

/-- After the last turn of a step that is done the removals are applied,
listeners react, and the clock is set. -/
theorem end_of_step (hp : runner.systems.length ≤ p) : ∃ w₂ info,
    ((applyRemovals r).left (w.atTurn r p)).Reaction w₂ ∧
    w' = w₂.setClock r info := by
  obtain ⟨w₁, w₂, info, hturns, hreaction, heq⟩ := run_turns h hr
  refine ⟨w₂, info, ?_, heq⟩
  rw [atTurn_of_runner hr, List.take_of_length_le hp, left_of_ok hturns]
  exact hreaction

theorem turn_path (p : Nat) :
    Path (StepDeed r) (w.atTurn r p) (w.atTurn r (p + 1)) := by
  cases hp : runner.systems[p]? with
  | none =>
      rw [atTurn_of_length_le hr (List.getElem?_eq_none_iff.1 hp)]
      exact .refl _
  | some system =>
      rw [turn_of_step h hr hp]
      exact (updateSystem_stepping _ runner.info (List.mem_of_getElem? hp) _
        (atTurn_stepping hr p).2).1

theorem turns_path (p n : Nat) :
    Path (StepDeed r) (w.atTurn r p) (w.atTurn r (p + n)) := by
  induction n with
  | zero => exact .refl _
  | succ n ih => exact ih.trans (turn_path h hr (p + n))

/-- From any turn on a step does deeds of a step. -/
theorem rest_path (p : Nat) : Path (StepDeed r) (w.atTurn r p) w' := by
  have hlast : runner.systems.length ≤ p + runner.systems.length :=
    Nat.le_add_left _ _
  obtain ⟨w₂, info, hreaction, rfl⟩ := end_of_step h hr hlast
  have hturns := turns_path h hr p runner.systems.length
  have hswept : Path (StepDeed r) (w.atTurn r p)
      ((applyRemovals r).left (w.atTurn r (p + runner.systems.length))) :=
    .deed (d := .sweep r) hturns .sweep
  exact .deed (d := .clock r info) (.react hswept hreaction) (.clock info)

end Step

end Linkage
