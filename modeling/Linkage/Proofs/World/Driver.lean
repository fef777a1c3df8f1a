import Linkage.Proofs.World.Moments
import Linkage.Proofs.World.Onward

/-!
# Runners from one deed to the next

Systems, hosts and steps change the store, the systems and the clock of a
runner. What connects it to its bus they leave alone, and its switches are
flipped by listeners only, who leave nothing out: the switches always follow
what they have heard, and what was heard once stays heard.

## Main results

* `World.former_of_deed`: what a runner was before a deed.
* `World.Path.hears`: along every path a runner hears at least what it has
  heard.
* `World.Reachable.switched`: the switches of a runner follow what they have
  heard.
-/

namespace Linkage

open Act

/-- The runner without its store, its systems and its clock. -/
def Runner.driver (x : Runner) : Runner := { x with info := {}, store := {},
                                                    systems := [] }

theorem Runner.Hears.of_driver {a b : Runner} (h : b.driver = a.driver) :
    a.Hears b := by
  have hheard : b.heard = a.heard := by
    show b.driver.heard = a.driver.heard
    rw [h]
  have hpaused : b.paused = a.paused := by
    show b.driver.paused = a.driver.paused
    rw [h]
  have hstopped : b.stopped = a.stopped := by
    show b.driver.stopped = a.driver.stopped
    rw [h]
  refine { heard := hheard ▸ List.suffix_refl _, switched := fun ha => ?_ }
  exact { paused := by rw [hpaused, hheard, ha.paused]
          stopped := by rw [hstopped, hheard, ha.stopped] }

namespace World

variable {u v w : World} {r : Nat} {a b : Runner}

/-- What a runner was before a deed: it has just been made, or it was there with
the same driver, and with the same clock unless the deed set it. -/
inductive Former (w : World) (r : Nat) (d : Deed) (b : Runner) : Prop
  | made {bus pause stop : Nat} {dt : Duration} (deed : d = .makeRunner bus dt)
      (last : r = w.runners.length)
      (fresh : b = ⟨bus, pause, stop, { dt }, {}, [], false, false, []⟩)
  | kept {a : Runner} (before : w.runner? r = some a)
      (driver : b.driver = a.driver)
      (clock : b.info = a.info ∨ ∃ info, d = .clock r info)

theorem Former.of_same {d : Deed} (ha : w.runner? r = some a)
    (hdriver : b.driver = a.driver) (hinfo : b.info = a.info) :
    w.Former r d b := .kept ha hdriver (.inl hinfo)

theorem Former.setStore {d : Deed} {ref : StoreRef} {s : Store}
    (hb : (w.setStore ref s).runner? r = some b) : w.Former r d b := by
  rw [runner?_setStore, Option.map_eq_some_iff] at hb
  obtain ⟨a, ha, rfl⟩ := hb
  split
  · exact .of_same ha rfl rfl
  · exact .of_same ha rfl rfl

theorem Former.register {d : Deed} {q : Nat} {system : System}
    (hb : (w.register q system).runner? r = some b) : w.Former r d b := by
  rcases runner?_register hb with hb | ⟨-, a, ha, rfl⟩
  · exact .of_same hb rfl rfl
  · exact .of_same ha rfl rfl

/-- Only making it makes a runner, and only setting its clock sets it. -/
theorem former_of_deed {d : Deed} (hb : (d.apply w).runner? r = some b) :
    w.Former r d b := by
  have hsame : w.runner? r = some b → w.Former r d b :=
    fun h => .of_same h rfl rfl
  cases d with
  | call ref op =>
      simp only [Deed.apply] at hb
      rcases left_callStore ref op w with heq | ⟨s, reply, names, s', -, -, heq⟩
      · exact hsame (heq ▸ hb)
      · rw [heq] at hb
        exact .setStore hb
  | copy ref target =>
      simp only [Deed.apply] at hb
      cases hs : w.store? ref with
      | none =>
          rw [hs] at hb
          exact hsame hb
      | some s =>
          rw [hs] at hb
          exact .setStore hb
  | turn i ref =>
      simp only [Deed.apply] at hb
      rcases left_updateJoint i ref w with heq | ⟨slot, s, y, -, -, -, heq⟩
      · exact hsame (heq ▸ hb)
      · rw [heq, runner?_settle] at hb
        exact .setStore hb
  | configure i ref e element =>
      simp only [Deed.apply, runner?_configureJoint] at hb
      exact hsame hb
  | sweep q =>
      simp only [Deed.apply] at hb
      rcases left_applyRemovals q w with ⟨-, heq⟩ | ⟨s, -, heq⟩
      · exact hsame (heq ▸ hb)
      · rw [heq] at hb
        exact .setStore hb
  | clock q info =>
      simp only [Deed.apply, setClock] at hb
      cases hq : w.runner? q with
      | none =>
          rw [hq] at hb
          exact hsame hb
      | some x =>
          simp only [hq, runner?_setRunner_of hq] at hb
          split at hb
          · next heq =>
            subst heq
            cases hb
            exact .kept hq rfl (.inr ⟨info, rfl⟩)
          · exact hsame hb
  | makeJoint label transport =>
      obtain ⟨names, -, heq⟩ := left_addJoint label transport w
      simp only [Deed.apply, heq] at hb
      exact hsame hb
  | enrol q label transport e element =>
      obtain ⟨entries, heq⟩ := left_enrol q label transport e element w
      obtain ⟨names, -, hadd⟩ := left_addJoint label transport w
      simp only [Deed.apply, heq] at hb
      rcases runner?_register hb with hb | ⟨-, a, ha, rfl⟩
      · rw [runner?_configureJoint, hadd] at hb
        exact hsame hb
      · rw [runner?_configureJoint, hadd] at ha
        have hbefore : w.runner? r = some a := ha
        exact .of_same hbefore rfl rfl
  | enlistScript q name update => exact .register hb
  | enlistInert q => exact .register hb
  | makeRunner bus dt =>
      have hrunner : ((makeRunner bus dt).left w).runner? r =
          if r = w.runners.length then some ⟨bus,
            ((w.bus bus).connect .pause (.pauseSwitch w.runners.length)).1,
            (((w.bus bus).connect .pause
              (.pauseSwitch w.runners.length)).2.connect .stop
              (.stopSwitch w.runners.length)).1,
            { dt }, {}, [], false, false, []⟩
          else w.runner? r := runner?_append w _ r
      simp only [Deed.apply, hrunner] at hb
      split at hb
      · next hr =>
        cases hb
        exact .made rfl hr rfl
      · exact hsame hb
  | dropRunner q =>
      simp only [Deed.apply] at hb
      rcases left_dropRunner q w with heq | ⟨x, hq, heq⟩
      · exact hsame (heq ▸ hb)
      · have hrunner : ((dropRunner q).left w).runner? r =
            if r = q then none else w.runner? r := by
          rw [heq]
          exact runner?_setRunner_of hq none r
        rw [hrunner] at hb
        split at hb
        · cases hb
        · exact hsame hb

/-- Along a path a runner hears at least what it has heard. -/
theorem Path.hears {P : World → Deed → Prop} (h : Path P u v)
    (hr : r < u.runners.length) (hb : v.runner? r = some b) :
    ∃ a, u.runner? r = some a ∧ a.Hears b := by
  induction h generalizing b with
  | refl => exact ⟨b, hb, .refl b⟩
  | react _ reaction ih =>
      obtain ⟨c, hc, hcb⟩ := reaction.switches hb
      obtain ⟨a, ha, hac⟩ := ih hc
      exact ⟨a, ha, hac.trans hcb⟩
  | deed before _ ih =>
      cases former_of_deed hb with
      | made _ last _ =>
          have hgrown := before.onward.runners
          omega
      | kept hc hdriver _ =>
          obtain ⟨a, ha, hac⟩ := ih hc
          exact ⟨a, ha, hac.trans (.of_driver hdriver)⟩

/-- Along a path on which nothing sets the clock of a runner it stays the
same. -/
theorem Path.info {P : World → Deed → Prop} (h : Path P u v)
    (hP : ∀ {w d}, P w d → ∀ info, d ≠ .clock r info)
    (hr : r < u.runners.length) (hb : v.runner? r = some b) :
    ∃ a, u.runner? r = some a ∧ b.info = a.info := by
  induction h generalizing b with
  | refl => exact ⟨b, hb, rfl⟩
  | react _ reaction ih =>
      obtain ⟨c, hc, hstill⟩ := reaction.runner? hb
      obtain ⟨a, ha, hinfo⟩ := ih hc
      exact ⟨a, ha, (congrArg Runner.info hstill.symm).trans hinfo⟩
  | deed before allowed ih =>
      cases former_of_deed hb with
      | made _ last _ =>
          have hgrown := before.onward.runners
          omega
      | kept hc _ hclock =>
          obtain ⟨a, ha, hinfo⟩ := ih hc
          rcases hclock with hsame | ⟨info, rfl⟩
          · exact ⟨a, ha, hsame.trans hinfo⟩
          · exact absurd rfl (hP allowed info)

/-- The switches of a runner follow what they have heard. -/
theorem Reachable.switched (h : w.Reachable) (ha : w.runner? r = some a) :
    a.Switched := by
  unfold Reachable at h
  induction h generalizing a with
  | refl => cases ha
  | react _ reaction ih =>
      obtain ⟨b, hb, hears⟩ := reaction.switches ha
      exact hears.switched (ih hb)
  | deed _ _ ih =>
      cases former_of_deed ha with
      | made _ _ fresh =>
          rw [fresh]
          exact { paused := rfl, stopped := rfl }
      | kept before driver _ =>
          exact (Runner.Hears.of_driver driver).switched (ih before)

end World

end Linkage
