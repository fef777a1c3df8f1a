import Linkage.Proofs.Bus.Guests

/-!
# Announcements that runners hear

A pause or a stop that is announced on a bus is meant for the runners of this
bus. The listeners found there are their seats and guests; guests with manners
take no seat away while they are called, so each runner of the bus hears the
announcement once, and no other runner hears it.

## Main results

* `Runner.paused_hearAll`, `Runner.stopped_hearAll`: the switches by what was
  heard.
* `Hub.tells_of_emitOn`: an announcement is heard by all runners of the bus.
-/

namespace Linkage

open Act World

/-! ## What a runner hears -/

namespace Runner

/-- The runner after one of its switches was called. -/
def hear (a : Runner) : Signal → Runner
  | .pause paused => { a with paused, heard := .pause paused :: a.heard }
  | .stop => { a with stopped := true, heard := .stop :: a.heard }
  | _ => a

/-- The runner after its switches were called with signals, one after the
other. -/
def hearAll (a : Runner) (signals : List Signal) : Runner :=
  signals.foldl hear a

theorem driver_hear (a : Runner) (s : Signal) :
    (a.hear s).driver = a.driver.hear s := by
  cases s <;> rfl

theorem fitting_hear (a : Runner) (s : Signal) :
    (a.hear s).fitting = a.fitting := by
  cases s <;> rfl

theorem connection_hear (a : Runner) (s : Signal) (c : Switch) :
    (a.hear s).connection c = a.connection c := by
  cases s <;> cases c <;> rfl

/-- The last signal to pause or to resume decides about one switch. -/
theorem paused_hearAll (a : Runner) (signals : List Signal) :
    (a.hearAll signals).paused =
      ((signals.filterMap Signal.pause?).getLast?).getD a.paused := by
  induction signals generalizing a with
  | nil => rfl
  | cons s signals ih =>
      have hcons : a.hearAll (s :: signals) = (a.hear s).hearAll signals := rfl
      rw [hcons, ih]
      cases s with
      | pause paused =>
          rw [show (Signal.pause paused :: signals).filterMap Signal.pause? =
            paused :: signals.filterMap Signal.pause? from rfl,
            List.getLast?_cons]
          rfl
      | _ => rfl

/-- Any signal to stop decides about the other. -/
theorem stopped_hearAll (a : Runner) (signals : List Signal) :
    (a.hearAll signals).stopped = (a.stopped || signals.any Signal.isStop) := by
  induction signals generalizing a with
  | nil => simp [hearAll]
  | cons s signals ih =>
      have hcons : a.hearAll (s :: signals) = (a.hear s).hearAll signals := rfl
      rw [hcons, ih, List.any_cons]
      cases s with
      | stop => simp [hear, Signal.isStop]
      | _ => simp [hear, Signal.isStop]

end Runner

/-- A switch that is called with its signal. -/
theorem run_call_switch (performer : Performer) {s : Signal} {c : Switch}
    (hs : s.event.switch? = some c) {w v : World} {r : Nat} {a : Runner}
    (ha : w.runner? r = some a)
    (h : (call performer (c.callback r) (.signal s)).run w = .ok () v) :
    ∃ log, v = { w.setRunner r (some (a.hear s)) with log } := by
  cases s with
  | pause paused =>
      cases hs
      have hv : v = w.switchPause r paused := by
        cases h
        rfl
      rw [hv, switchPause, ha]
      show ∃ log, (if a.paused = paused then _ else _) = _
      split
      · exact ⟨w.log, rfl⟩
      · exact ⟨_, rfl⟩
  | stop =>
      cases hs
      have hv : v = w.switchStop r := by
        cases h
        rfl
      rw [hv, switchStop, ha]
      show ∃ log, (if a.stopped = true then _ else _) = _
      split
      · exact ⟨w.log, rfl⟩
      · exact ⟨_, rfl⟩
  | _ => cases hs

namespace Hub

variable {h : Hub} {u v w : World} {b depth n : Nat} {s : Signal} {c : Switch}

/-! ## Announcements -/

/-- From the first world an announcement leads to the second one: some runners
hear it, and otherwise there are visits only. -/
structure Tells (h : Hub) (s : Signal) (told : Nat → Runner → Bool)
    (w v : World) : Prop where
  orderly : h.Orderly v
  length : v.runners.length = w.runners.length
  drivers : ∀ r, (v.runner? r).map Runner.driver =
    ((w.runner? r).map Runner.driver).map fun d =>
      if told r d then d.hear s else d
  numbers : ∀ {n b : Nat}, w.busNumbers.get? n = some b →
    v.busNumbers.get? n = some b
  calls : ∀ b, ∃ calls, GuestCalls (w.bus b) calls ∧
    v.bus b = (w.bus b).serveAll calls

theorem map_driver_of_drivers (hd : v.drivers = w.drivers) (r : Nat) :
    (v.runner? r).map Runner.driver = (w.runner? r).map Runner.driver := by
  rw [map_runner?, map_runner?]
  exact congrArg (fun l => (l[r]?).join) hd

theorem Visits.tells (hv : h.Visits w v) {told : Nat → Runner → Bool}
    (htold : ∀ r d, w.runner? r = some d → told r d.driver = false) :
    h.Tells s told w v := by
  refine { orderly := hv.orderly,
           length := length_of_fittings (fittings_of_drivers hv.drivers),
           drivers := fun r => ?_, numbers := hv.numbers, calls := hv.calls }
  rw [map_driver_of_drivers hv.drivers]
  cases hr : w.runner? r with
  | none => rfl
  | some d => simp [htold r d hr]

/-- A runner that hears something stays where it sits. -/
theorem Orderly.hear (hw : h.Orderly w) {r : Nat} {a : Runner}
    (ha : w.runner? r = some a) (s : Signal) (log : Log) :
    h.Orderly { w.setRunner r (some (a.hear s)) with log } := by
  have hfittings : (w.setRunner r (some (a.hear s))).fittings = w.fittings := by
    have hr : w.runners[r]? = some (some a) := by
      simpa [runner?, Option.join_eq_some_iff] using ha
    refine List.ext_getElem? fun i => ?_
    simp only [fittings, setRunner, List.getElem?_map, List.getElem?_set]
    by_cases hi : r = i
    · subst hi
      rw [if_pos rfl, if_pos (lt_of_runner? ha), hr]
      exact congrArg (fun x => some (some x)) (Runner.fitting_hear a s)
    · rw [if_neg hi]
  exact hw.congr rfl rfl hw.scripts rfl hfittings

/-- A listener that is not a guest is a seat of a runner. -/
theorem Orderly.exists_seat (hw : h.Orderly w) (hs : s.event.switch? = some c)
    {x : Nat × Callback} (hx : x ∈ w.listeners b s.event)
    (hguest : x.2.isGuest = false) :
    ∃ r a, w.runner? r = some a ∧ a.bus = b ∧
      x = (a.connection c, c.callback r) := by
  have hseat : x ∈ w.seats b s.event := by
    rw [← hw.seated]
    exact List.mem_filter.2 ⟨hx, by simp [hguest]⟩
  obtain ⟨r, a, ha, hx⟩ := mem_seats_iff.1 hseat
  obtain ⟨hb, c', hc', hx⟩ := Runner.seat?_eq_some_iff.1 hx
  cases hs.symm.trans hc'
  exact ⟨r, a, ha, hb, hx⟩

theorem isGuest_callback (c : Switch) (r : Nat) :
    (c.callback r).isGuest = false := by
  cases c <;> rfl

theorem callback_injective {r q : Nat} (h : c.callback r = c.callback q) :
    r = q := by
  cases c <;> exact (by cases h; rfl)

/-- A runner of the bus has its seat there. -/
theorem Orderly.seat_mem (hw : h.Orderly w) (hs : s.event.switch? = some c)
    {r : Nat} {a : Runner} (ha : w.runner? r = some a) :
    (a.connection c, c.callback r) ∈ w.listeners b s.event ↔ a.bus = b := by
  constructor
  · intro hx
    obtain ⟨q, a', ha', hb, heq⟩ := hw.exists_seat hs hx (isGuest_callback c r)
    obtain rfl := callback_injective (congrArg Prod.snd heq)
    cases ha.symm.trans ha'
    exact hb
  · intro hb
    have hseat : (a.connection c, c.callback r) ∈ w.seats b s.event :=
      mem_seats_iff.2 ⟨r, a, ha, Runner.seat?_eq_some_iff.2 ⟨hb, c, hs, rfl⟩⟩
    rw [← hw.seated] at hseat
    exact (List.mem_filter.1 hseat).1

/-- A listener that is called tells at most its own runner. -/
theorem tells_of_call (hw : h.Orderly w) (hs : s.event.switch? = some c)
    {x : Nat × Callback} (hx : x.2.isGuest = false → x ∈ w.listeners b s.event)
    (hrun : (call (perform depth) x.2 (.signal s)).run w = .ok () v) :
    h.Tells s (fun r d => decide ((d.connection c, c.callback r) = x)) w v := by
  cases hguest : x.2.isGuest with
  | true =>
      have hvisits : h.Visits w v :=
        (call_civil (fun a ha => perform_civil depth none a ha) hguest _).of_ok
          hrun hw
      refine hvisits.tells fun r d _ => decide_eq_false ?_
      rintro rfl
      cases (isGuest_callback c r).symm.trans hguest
  | false =>
      obtain ⟨r, a, ha, -, rfl⟩ := hw.exists_seat hs (hx hguest) hguest
      obtain ⟨log, rfl⟩ := run_call_switch _ hs ha hrun
      refine { orderly := hw.hear ha s log, length := by simp [setRunner],
               drivers := fun q => ?_,
               numbers := id, calls := fun b => ⟨[], trivial, rfl⟩ }
      have hrunner :
          ({ w.setRunner r (some (a.hear s)) with log } : World).runner? q =
          if q = r then some (a.hear s) else w.runner? q :=
            runner?_setRunner_of ha _ q
      rw [hrunner]
      by_cases hq : q = r
      · subst hq
        have htold : (a.driver.connection c, c.callback q) =
            (a.connection c, c.callback q) := by
          cases c <;> rfl
        rw [if_pos rfl, ha]
        show some (a.hear s).driver =
          some (if _ then a.driver.hear s else a.driver)
        rw [if_pos (decide_eq_true htold), Runner.driver_hear]
      · rw [if_neg hq]
        cases hrun : w.runner? q with
        | none => rfl
        | some d =>
            have hother : ¬ (d.driver.connection c, c.callback q) =
                (a.connection c, c.callback r) :=
              fun heq => hq (callback_injective (congrArg Prod.snd heq))
            show some d.driver = some (if _ then d.driver.hear s else d.driver)
            rw [if_neg (by simpa only [decide_eq_true_eq] using hother)]

/-- Announcements one after the other. -/
theorem Tells.trans {told told' : Nat → Runner → Bool}
    (huv : h.Tells s told u v) (hvw : h.Tells s told' v w)
    (hapart : ∀ r d, u.runner? r = some d → told r d.driver = true →
      told' r (d.driver.hear s) = false) :
    h.Tells s (fun r d => told r d || told' r d) u w := by
  refine { orderly := hvw.orderly, length := hvw.length.trans huv.length,
           drivers := fun r => ?_,
           numbers := fun hget => hvw.numbers (huv.numbers hget),
           calls := fun b =>
             exists_guestCalls_trans (huv.calls b) (hvw.calls b) }
  rw [hvw.drivers, huv.drivers]
  cases hr : u.runner? r with
  | none => rfl
  | some d =>
      cases htold : told r d.driver with
      | true => simp [htold, hapart r d hr htold]
      | false => simp [htold]

/-- A delivery tells the runners whose seats it goes over. -/
theorem tells_of_deliverOn (hs : s.event.switch? = some c)
    (hu : BusesSound u.buses) {l : List (Nat × Callback)} :
    ∀ {n : Nat} {w : World}, h.Orderly w → u.Rewired w → l.Nodup →
      (∀ x ∈ l, x ∈ u.listeners b s.event) →
      (∀ x ∈ l, x.2.isGuest = false → x ∈ w.listeners b s.event) →
      (deliverOn (perform depth) b s l).run w = .ok n v →
      h.Tells s (fun r d => decide ((d.connection c, c.callback r) ∈ l))
        w v := by
  have hrewires := perform_rewires depth
  induction l with
  | nil =>
      intro n w hw _ _ _ _ hrun
      cases hrun
      exact (Visits.refl hw).tells fun r d _ => by simp
  | cons x rest ih =>
      intro n w hw huw hnodup hstart hseats hrun
      obtain ⟨hx, hrest⟩ := List.nodup_cons.1 hnodup
      have hlater := fun y (hy : y ∈ rest) =>
        hstart y (List.mem_cons_of_mem x hy)
      have hmore := fun y (hy : y ∈ rest) =>
        hseats y (List.mem_cons_of_mem x hy)
      have hmem : (fun (r : Nat) (d : Runner) =>
          decide ((d.connection c, c.callback r) = x) ||
          decide ((d.connection c, c.callback r) ∈ rest)) =
          fun (r : Nat) (d : Runner) =>
            decide ((d.connection c, c.callback r) ∈ x :: rest) := by
        funext r d
        simp [List.mem_cons]
      rw [run_deliverOn_cons] at hrun
      by_cases hflag : (w.bus b).flag ⟨s.event, x.1⟩ = true
      · rw [if_pos hflag] at hrun
        obtain ⟨⟨⟩, w₁, hcall, hrun⟩ := run_bind_eq_ok_iff.1 hrun
        obtain ⟨k, w₂, hrun, hdone⟩ := run_bind_eq_ok_iff.1 hrun
        cases hdone
        have hfirst := tells_of_call hw hs (hseats x List.mem_cons_self) hcall
        have huw₁ := rewired_chained.trans huw (call_rewires hrewires hcall)
        have hthere : ∀ y ∈ rest, y.2.isGuest = false →
            y ∈ w₁.listeners b s.event := by
          intro y hy hguest
          obtain ⟨r, d, hd, hb, rfl⟩ :=
            hw.exists_seat hs (hmore y hy hguest) hguest
          have hne : ¬ (d.connection c, c.callback r) = x := by
            rintro rfl
            exact hx hy
          have hsame : (d.driver.connection c, c.callback r) =
              (d.connection c, c.callback r) := by
            cases c <;> rfl
          have hdriver := hfirst.drivers r
          rw [hd] at hdriver
          simp only [Option.map_some] at hdriver
          rw [if_neg (by rw [hsame]; simpa using hne)] at hdriver
          obtain ⟨d', hd', heq⟩ := Option.map_eq_some_iff.1 hdriver
          have hplace : (d'.connection c, d'.bus) =
              (d.connection c, d.bus) := by
            have hconnection : (d'.driver.connection c, d'.driver.bus) =
                (d.driver.connection c, d.driver.bus) := by rw [heq]
            cases c <;> exact hconnection
          rw [← (Prod.mk.inj hplace).1]
          exact (hfirst.orderly.seat_mem hs hd').2
            ((Prod.mk.inj hplace).2.trans hb)
        have hall :=
          hfirst.trans (ih hfirst.orderly huw₁ hrest hlater hthere hrun)
          fun r d _ htold => by
            rw [Runner.connection_hear]
            rw [decide_eq_true_eq] at htold
            exact decide_eq_false (htold ▸ hx)
        exact hmem ▸ hall
      · rw [if_neg hflag] at hrun
        have hguest : x.2.isGuest = true := by
          by_contra hno
          have hthere := hseats x List.mem_cons_self (by simpa using hno)
          exact hflag ((flag_iff hu huw (hstart x List.mem_cons_self)).2 hthere)
        have hnone : h.Tells s
            (fun r d => decide ((d.connection c, c.callback r) = x)) w w := by
          refine (Visits.refl hw).tells fun r d _ => decide_eq_false ?_
          rintro rfl
          cases (isGuest_callback c r).symm.trans hguest
        have hall := hnone.trans (ih hw huw hrest hlater hmore hrun)
            fun r d _ htold => by
          rw [Runner.connection_hear]
          rw [decide_eq_true_eq] at htold
          exact decide_eq_false (htold ▸ hx)
        exact hmem ▸ hall

/-- An announcement of a pause or a stop on a bus is heard by its runners, all
of them and nobody else, once each. -/
theorem tells_of_emitOn (hw : h.Orderly w) (hs : s.event.switch? = some c)
    (hrun : (emitOn (perform depth) b s).run w = .ok n v) :
    h.Tells s (fun _ d => decide (d.bus = b)) w v := by
  rw [run_emitOn] at hrun
  have hnodup : (w.listeners b s.event).Nodup := by
    refine (hw.sound b s.event).sorted.imp ?_
    rintro x y hlt rfl
    exact Nat.lt_irrefl _ hlt
  have htells := tells_of_deliverOn hs hw.sound hw (rewired_chained.refl w)
    hnodup (fun _ hx => hx) (fun _ hx _ => hx) hrun
  refine { htells with drivers := fun r => ?_ }
  rw [htells.drivers]
  cases hr : w.runner? r with
  | none => rfl
  | some d =>
      have hiff := hw.seat_mem (b := b) hs hr
      have hplace : (d.driver.connection c, c.callback r) =
          (d.connection c, c.callback r) := by
        cases c <;> rfl
      have hbus : d.driver.bus = d.bus := rfl
      simp only [Option.map_some, hplace, hbus, hiff]

end Hub

end Linkage
