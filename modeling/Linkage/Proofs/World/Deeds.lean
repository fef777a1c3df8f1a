import Linkage.Proofs.World.Soundness
import Linkage.Session

/-!
# Deeds

Apart from reactions of listeners, whatever an operation of a session does to a
world is one of a few deeds after the other: calls on stores, turns and
configurations of joints, the phases of a step that sweep out the removed
entities and set the clock, and the making and dropping of joints, systems and
runners. A joint that is added to a runner is made, configured and registered in
one deed, so that no joint is ever registered twice.

## Main results

* `World.Sound.deed`: every deed keeps a world sound.
-/

namespace Linkage

open Act

namespace World

variable {w : World}

/-- Register a system with a runner. -/
def register (w : World) (r : Nat) (system : System) : World :=
  match w.runner? r with
  | none => w
  | some runner =>
      w.setRunner r (some { runner with systems := runner.systems ++ [system] })

/-- Set the clock of a runner. -/
def setClock (w : World) (r : Nat) (info : StepInfo) : World :=
  match w.runner? r with
  | none => w
  | some runner => w.setRunner r (some { runner with info })

end World

/-- Something done to a world that is no reaction. -/
inductive Deed
  | call (ref : StoreRef) (op : StoreAction)
  | copy (ref : StoreRef) (target : Nat)
  | turn (j : Nat) (ref : StoreRef)
  | configure (j : Nat) (ref : StoreRef) (e : Entity) (element : Element)
  | sweep (r : Nat)
  | clock (r : Nat) (info : StepInfo)
  | makeJoint (label : Option String) (transport : TransportRef)
  | enrol (r : Nat) (label : Option String)
      (transport : TransportRef) (e : Entity) (element : Element)
  | enlistScript (r : Nat) (name : String) (update : List Scheduled)
  | enlistInert (r : Nat)
  | makeRunner (b : Nat) (dt : Duration)
  | dropRunner (r : Nat)

/-- Do a deed. -/
def Deed.apply (w : World) : Deed → World
  | .call ref op => (callStore ref op).left w
  | .copy ref target =>
      match w.store? ref with
      | none => w
      | some s => w.setStore (.standalone target) s
  | .turn j ref => (updateJoint j ref).left w
  | .configure j ref e element => (configureJoint j ref e element).left w
  | .sweep r => (applyRemovals r).left w
  | .clock r info => w.setClock r info
  | .makeJoint label transport => (Session.addJoint label transport).left w
  | .enrol r label transport e element =>
      (Session.addJoint label transport >>= fun j =>
        addSystem r (.joint j) e element).left w
  | .enlistScript r name update => w.register r (.script name update)
  | .enlistInert r => w.register r .inert
  | .makeRunner b dt => (Linkage.makeRunner b dt).left w
  | .dropRunner r => (Linkage.dropRunner r).left w

namespace World

variable {w : World}

/-! ## Deeds on stores -/

/-- A call on a store replaces the store, if it is there, by what the call
leaves of it. -/
theorem left_callStore (ref : StoreRef) (op : StoreAction) (w : World) :
    (callStore ref op).left w = w ∨
      ∃ s reply names s', w.store? ref = some s ∧
        op.run? w.names s = some (reply, names, s') ∧
        (callStore ref op).left w = { w.setStore ref s' with names } := by
  unfold callStore
  rw [left_change]
  cases hs : w.store? ref with
  | none => exact .inl rfl
  | some s =>
      cases hr : op.run? w.names s with
      | none => exact .inl (by simp [hr])
      | some done =>
          obtain ⟨reply, names, s'⟩ := done
          exact .inr ⟨s, reply, names, s', rfl, hr, by simp [hr]⟩

theorem sound_of_run? {op : StoreAction} {names names' : Names} {s s' : Store}
    {reply : Reply} (h : op.run? names s = some (reply, names', s'))
    (hs : s.Sound) : s'.Sound := by
  rcases (StoreAction.run?_cases h).2 with
    ⟨calls, rfl, -⟩ | ⟨ref, e, -, -, rfl⟩ |
    ⟨a, b, c, kind, e, joint, -, rfl⟩ | ⟨-, rfl⟩
  · exact hs.serveAll calls
  · exact hs.requestRemoval e
  · exact hs.setJoint e joint
  · exact hs.applyRemovals

theorem Sound.setNames (h : w.Sound) {names : Names}
    (hn : names.joints = w.names.joints) :
    ({ w with names } : World).Sound :=
  { buses := h.buses
    stores := fun {ref s} hs =>
      h.stores (show w.store? ref = some s by cases ref <;> exact hs)
    owned := h.owned.of_runners (Nat.le_refl _) fun {r b} hb =>
      .inr ⟨b, hb, rfl⟩
    wired := h.wired.congr rfl (fun _ => rfl) hn rfl }

theorem Sound.callStore (h : w.Sound) (ref : StoreRef) (op : StoreAction) :
    ((callStore ref op).left w).Sound := by
  rcases left_callStore ref op w with heq | ⟨s, reply, names, s', hs, hr, heq⟩
  · rw [heq]
    exact h
  · rw [heq]
    have hnames : names.joints = (w.setStore ref s').names.joints := by
      rw [names_setStore]
      exact (StoreAction.run?_cases hr).1.2
    exact (h.setStore hs (sound_of_run? hr (h.stores hs))).setNames hnames

/-- Sweeping a store applies the removals asked for. -/
theorem left_applyRemovals (r : Nat) (w : World) :
    (w.store? (.runner r) = none ∧ (applyRemovals r).left w = w) ∨
      ∃ s, w.store? (.runner r) = some s ∧
        (applyRemovals r).left w =
          w.setStore (.runner r) s.applyRemovals.2 := by
  unfold applyRemovals
  rw [left_change]
  cases hs : w.store? (.runner r) with
  | none => exact .inl ⟨rfl, rfl⟩
  | some s => exact .inr ⟨s, rfl, rfl⟩

theorem run_applyRemovals {r : Nat} {s : Store}
    (hs : w.store? (.runner r) = some s) :
    (applyRemovals r).run w =
      .ok s.pending (w.setStore (.runner r) s.applyRemovals.2) := by
  rw [applyRemovals, run_change]
  simp only [hs]
  rfl

theorem store?_applyRemovals {r : Nat} {s : Store}
    (hs : w.store? (.runner r) = some s) :
    ((applyRemovals r).left w).store? (.runner r) = some s.applyRemovals.2 := by
  rw [left_of_ok (run_applyRemovals hs), store?_setStore _ hs, if_pos rfl]

theorem Sound.sweep (h : w.Sound) (r : Nat) :
    ((applyRemovals r).left w).Sound := by
  rcases left_applyRemovals r w with ⟨-, heq⟩ | ⟨s, hs, heq⟩
  · rw [heq]
    exact h
  · rw [heq]
    exact h.setStore hs (h.stores hs).applyRemovals

theorem Sound.copy (h : w.Sound) (ref : StoreRef) (target : Nat) :
    ((Deed.copy ref target).apply w).Sound := by
  simp only [Deed.apply]
  cases hs : w.store? ref with
  | none => exact h
  | some s => exact h.setStore rfl (h.stores hs)

/-! ## Deeds on runners -/

/-- The clock of a runner is no part of its store. -/
theorem store?_setClock (w : World) (r : Nat) (info : StepInfo)
    (ref : StoreRef) :
    (w.setClock r info).store? ref = w.store? ref := by
  unfold World.setClock
  cases hr : w.runner? r with
  | none => rfl
  | some runner =>
      cases ref with
      | standalone n => rfl
      | runner q =>
          simp only [store?, runner?_setRunner_of hr]
          split
          · next hq => simp [hq, hr]
          · rfl

theorem joints_setClock (w : World) (r : Nat) (info : StepInfo) :
    (w.setClock r info).joints = w.joints := by
  unfold World.setClock
  split <;> rfl

theorem Sound.setClock (h : w.Sound) (r : Nat) (info : StepInfo) :
    (w.setClock r info).Sound := by
  unfold World.setClock
  cases hr : w.runner? r with
  | none => exact h
  | some runner =>
      have hs : w.store? (.runner r) = some runner.store := by simp [store?, hr]
      exact h.setRunner hr rfl (h.stores hs)

/-- Registering a system changes nothing but a runner. -/
theorem register_eq (w : World) (r : Nat) (system : System) :
    ∃ runners, runners.length = w.runners.length ∧
      w.register r system = { w with runners } := by
  unfold World.register
  split
  · exact ⟨w.runners, rfl, rfl⟩
  · exact ⟨_, List.length_set, rfl⟩

theorem joints_register (w : World) (r : Nat) (system : System) :
    (w.register r system).joints = w.joints := by
  obtain ⟨runners, -, heq⟩ := register_eq w r system
  rw [heq]

/-- A runner is as it was before a system was registered, or has that system
besides. -/
theorem runner?_register {r q : Nat} {system : System} {b : Runner}
    (hb : (w.register r system).runner? q = some b) : w.runner? q = some b ∨
      (q = r ∧ ∃ a, w.runner? q = some a ∧
        b = { a with systems := a.systems ++ [system] }) := by
  unfold World.register at hb
  cases hr : w.runner? r with
  | none =>
      rw [hr] at hb
      exact .inl hb
  | some a =>
      simp only [hr, runner?_setRunner_of hr] at hb
      split at hb
      · next hq =>
        cases hb
        exact .inr ⟨hq, a, hq ▸ hr, rfl⟩
      · exact .inl hb

theorem store?_register {r : Nat} {system : System} {ref : StoreRef} {s : Store}
    (hs : (w.register r system).store? ref = some s) :
    w.store? ref = some s := by
  cases ref with
  | standalone n =>
      obtain ⟨runners, -, heq⟩ := register_eq w r system
      rw [heq] at hs
      exact hs
  | runner q =>
      obtain ⟨b, hb, rfl⟩ := Option.map_eq_some_iff.1 hs
      rcases runner?_register hb with hb | ⟨-, a, ha, rfl⟩
      · simp [store?, hb]
      · simp [store?, ha]

/-- The joints of a runner that has one system more. -/
theorem jointIds_concat (a : Runner) (system : System) :
    Runner.jointIds { a with systems := a.systems ++ [system] } =
      a.jointIds ++ system.joint?.toList := by
  cases h : system.joint? <;> simp [Runner.jointIds, List.filterMap_append, h]

/-- Registering a system keeps a world sound if it keeps the joints owned. -/
theorem Sound.register_of_owned (h : w.Sound) (r : Nat) {system : System}
    (howned : (w.register r system).Owned) : (w.register r system).Sound := by
  have hstores : ∀ {ref : StoreRef} {s : Store},
      (w.register r system).store? ref = some s →
      s.Sound := fun hs => h.stores (store?_register hs)
  obtain ⟨runners, -, heq⟩ := register_eq w r system
  rw [heq] at howned hstores ⊢
  exact { buses := h.buses, stores := hstores, owned := howned,
          wired := h.wired.congr rfl (fun _ => rfl) rfl rfl }

theorem Sound.register (h : w.Sound) (r : Nat) {system : System}
    (hs : system.joint? = none) :
    (w.register r system).Sound := by
  refine h.register_of_owned r (h.owned.of_runners ?_ fun {q b} hb => ?_)
  · exact Nat.le_of_eq (congrArg List.length (joints_register w r system).symm)
  · rcases runner?_register hb with hb | ⟨-, a, ha, rfl⟩
    · exact .inr ⟨b, hb, rfl⟩
    · refine .inr ⟨a, ha, ?_⟩
      rw [jointIds_concat, hs]
      exact List.append_nil _

/-- Registering a joint that no runner has. -/
theorem Sound.registerJoint (h : w.Sound) (r : Nat) {j : Nat}
    (hj : j < w.joints.length)
    (hfresh : ∀ {q : Nat} {a : Runner}, w.runner? q = some a → j ∉ a.jointIds) :
    (w.register r (.joint j)).Sound := by
  have hcases : ∀ {q i : Nat} {b : Runner},
      (w.register r (.joint j)).runner? q = some b →
      i ∈ b.jointIds → (∃ a, w.runner? q = some a ∧ i ∈ a.jointIds) ∨
      (q = r ∧ i = j) := by
    intro q i b hb hi
    rcases runner?_register hb with hb | ⟨hq, a, ha, rfl⟩
    · exact .inl ⟨b, hb, hi⟩
    · rw [jointIds_concat, List.mem_append] at hi
      rcases hi with hi | hi
      · exact .inl ⟨a, ha, hi⟩
      · exact .inr ⟨hq, by simpa [System.joint?] using hi⟩
  refine h.register_of_owned r { lt := ?_, nodup := ?_, apart := ?_ }
  · intro q b i hb hi
    rw [joints_register]
    rcases hcases hb hi with ⟨a, ha, hi⟩ | ⟨-, rfl⟩
    · exact h.owned.lt ha hi
    · exact hj
  · intro q b hb
    rcases runner?_register hb with hb | ⟨-, a, ha, rfl⟩
    · exact h.owned.nodup hb
    · rw [jointIds_concat]
      refine List.nodup_append.2 ⟨h.owned.nodup ha, List.nodup_singleton j, ?_⟩
      intro i hi k hk heq
      rw [List.mem_singleton.1 hk] at heq
      exact hfresh ha (heq ▸ hi)
  · intro q p a b i ha hb hia hib
    rcases hcases ha hia with ⟨a', ha', hia⟩ | ⟨hq, hij⟩
    · rcases hcases hb hib with ⟨b', hb', hib⟩ | ⟨-, hij⟩
      · exact h.owned.apart ha' hb' hia hib
      · exact absurd (hij ▸ hia) (hfresh ha')
    · rcases hcases hb hib with ⟨b', hb', hib⟩ | ⟨hp, -⟩
      · exact absurd (hij ▸ hib) (hfresh hb')
      · exact hq.trans hp.symm

/-- Putting a bus in place whose channels are sound. -/
theorem busesSound_setBus (h : BusesSound w.buses) (b : Nat)
    {bus : Bus Callback} (hbus : ∀ e, (bus.channel e).Sound) :
    BusesSound (w.setBus b bus).buses := by
  intro c e
  show ((busAt (w.buses.set b bus) c).channel e).Sound
  rw [busAt_set]
  split
  · exact hbus e
  · exact h c e

theorem sound_connect {bus : Bus Callback}
    (h : ∀ e, (bus.channel e).Sound) (e : Event) (k : Callback) :
    ∀ f, ((bus.connect e k).2.channel f).Sound := by
  intro f
  rw [Bus.channel_connect]
  split
  · exact (h f).connect k
  · exact h f

theorem sound_disconnect {bus : Bus Callback} (h : ∀ e, (bus.channel e).Sound)
    (c : Connection) : ∀ f, ((bus.disconnect c).2.channel f).Sound := by
  intro f
  rw [Bus.channel_disconnect]
  split
  · exact (h f).disconnect c.id
  · exact h f

theorem runner?_append (w : World) (runner : Runner) (r : Nat) :
    ({ w with runners := w.runners ++ [some runner] } : World).runner? r =
      if r = w.runners.length then some runner else w.runner? r := by
  simp only [runner?]
  rcases Nat.lt_trichotomy r w.runners.length with hlt | rfl | hgt
  · have hne : r ≠ w.runners.length := by omega
    rw [List.getElem?_append_left hlt, if_neg hne]
  · simp
  · have hne : r ≠ w.runners.length := by omega
    rw [List.getElem?_eq_none (by simp; omega), if_neg hne,
      List.getElem?_eq_none (by omega)]

/-- A new runner has an empty store and no systems. -/
theorem left_makeRunner (b : Nat) (dt : Duration) (w : World) :
    ∃ runner : Runner, runner.store = {} ∧ runner.systems = [] ∧
      (makeRunner b dt).left w = { w.setBus b (((w.bus b).connect .pause
        (.pauseSwitch w.runners.length)).2.connect .stop
          (.stopSwitch w.runners.length)).2 with
          runners := w.runners ++ [some runner] } :=
  ⟨_, rfl, rfl, rfl⟩

theorem Sound.makeRunner (h : w.Sound) (b : Nat) (dt : Duration) :
    ((makeRunner b dt).left w).Sound := by
  obtain ⟨runner, hstore, hsystems, heq⟩ := left_makeRunner b dt w
  have hrunner : ∀ r, ((Linkage.makeRunner b dt).left w).runner? r =
      if r = w.runners.length then some runner else w.runner? r := by
    intro r
    rw [heq]
    exact runner?_append w runner r
  refine { buses := ?_, stores := ?_, owned := ?_, wired := ?_ }
  · rw [heq]
    exact busesSound_setBus h.buses b
      (sound_connect (sound_connect (h.buses b) _ _) _ _)
  · intro ref s hs
    cases ref with
    | standalone n =>
        rw [heq] at hs
        have hbefore : w.store? (.standalone n) = some s := hs
        exact h.stores hbefore
    | runner q =>
        simp only [store?, hrunner] at hs
        split at hs
        · cases hs
          rw [hstore]
          exact Store.sound_empty
        · have hbefore : w.store? (.runner q) = some s := hs
          exact h.stores hbefore
  · refine h.owned.of_runners (Nat.le_of_eq (by rw [heq]; rfl))
      fun {q a} ha => ?_
    rw [hrunner] at ha
    split at ha
    · cases ha
      exact .inl (by simp [Runner.jointIds, hsystems])
    · exact .inr ⟨a, ha, rfl⟩
  · rw [heq]
    exact h.wired.congr rfl (fun _ => rfl) rfl rfl

/-- A dropped runner disconnects its switches. -/
theorem left_dropRunner (r : Nat) (w : World) :
    (dropRunner r).left w = w ∨ ∃ runner, w.runner? r = some runner ∧
      (dropRunner r).left w =
        (w.setBus runner.bus (((w.bus runner.bus).disconnect
        ⟨.pause, runner.pauseConnection⟩).2.disconnect ⟨.stop,
          runner.stopConnection⟩).2).setRunner r none := by
  unfold dropRunner
  rw [left_change]
  cases hr : w.runner? r with
  | none => exact .inl rfl
  | some runner => exact .inr ⟨runner, rfl, rfl⟩

/-- A runner that was dropped is gone. -/
theorem runner?_dropRunner (r : Nat) (w : World) :
    ((dropRunner r).left w).runner? r = none := by
  unfold dropRunner
  rw [left_change]
  cases hr : w.runner? r with
  | none => exact hr
  | some runner => exact (runner?_setRunner_of hr none r).trans (if_pos rfl)

theorem Sound.dropRunner (h : w.Sound) (r : Nat) :
    ((dropRunner r).left w).Sound := by
  rcases left_dropRunner r w with heq | ⟨runner, hr, heq⟩
  · rw [heq]
    exact h
  · have hrunner : ∀ q, ((Linkage.dropRunner r).left w).runner? q =
        if q = r then none else w.runner? q := by
      intro q
      rw [heq]
      exact runner?_setRunner_of hr none q
    refine { buses := ?_, stores := ?_, owned := ?_, wired := ?_ }
    · rw [heq]
      exact busesSound_setBus h.buses _
        (sound_disconnect (sound_disconnect (h.buses _) _) _)
    · intro ref s hs
      cases ref with
      | standalone n =>
          rw [heq] at hs
          have hbefore : w.store? (.standalone n) = some s := hs
          exact h.stores hbefore
      | runner q =>
          simp only [store?, hrunner] at hs
          split at hs
          · cases hs
          · have hbefore : w.store? (.runner q) = some s := hs
            exact h.stores hbefore
    · refine h.owned.of_runners (Nat.le_of_eq (by rw [heq]; rfl))
        fun {q a} ha => ?_
      rw [hrunner] at ha
      split at ha
      · cases ha
      · exact .inr ⟨a, ha, rfl⟩
    · rw [heq]
      exact h.wired.congr rfl (fun _ => rfl) rfl rfl

/-! ## Deeds on joints -/

theorem Sound.turn (h : w.Sound) (j : Nat) (ref : StoreRef) :
    ((updateJoint j ref).left w).Sound := by
  rcases left_updateJoint j ref w with heq | ⟨slot, s, y, hslot, hs, hturn, heq⟩
  · rw [heq]
    exact h
  · rw [heq]
    exact h.settle hslot hs hturn

theorem left_configureJoint (j : Nat) (ref : StoreRef) (e : Entity)
    (element : Element) (w : World) :
    (configureJoint j ref e element).left w = w ∨ ∃ slot s log,
      w.joints[j]? = some slot ∧
      w.store? ref = some s ∧ (configureJoint j ref e element).left w =
        (w.setController j (slot.controller.configure e element s).1).report
          log := by
  unfold configureJoint
  rw [left_modify]
  cases hslot : w.joints[j]? with
  | none => exact .inl rfl
  | some slot =>
      cases hs : w.store? ref with
      | none => exact .inl rfl
      | some s => exact .inr ⟨slot, s, _, rfl, rfl, rfl⟩

/-- A configuration changes neither the phase of a controller nor its flag, and
the topic of one that listens stays. -/
theorem configure_same {c : Controller} (h : c.Sound) (e : Entity)
    (element : Element) (s : Store) :
    (c.configure e element s).1.initialized = c.initialized ∧
      (c.configure e element s).1.joint = c.joint ∧
      (c.configure e element s).1.requested = c.requested ∧
      (c.initialized = true → (c.configure e element s).1 = c) := by
  rcases Controller.configure_cases c e element s with
    heq | ⟨hc, heq⟩ | ⟨found, hc, -, heq⟩
  · rw [heq]
    exact ⟨rfl, rfl, rfl, fun _ => rfl⟩
  · have hi := h.not_initialized hc
    rw [heq]
    exact ⟨rfl, rfl, rfl, fun h => absurd h (by simp [hi])⟩
  · have hi := h.not_initialized hc
    rw [heq]
    exact ⟨rfl, rfl, rfl, fun h => absurd h (by simp [hi])⟩

theorem Sound.configure (h : w.Sound) (j : Nat) (ref : StoreRef) (e : Entity)
    (element : Element) : ((configureJoint j ref e element).left w).Sound := by
  rcases left_configureJoint j ref e element w with
    heq | ⟨slot, s, log, hslot, hs, heq⟩
  · rw [heq]
    exact h
  · have hsound := h.wired.controllers hslot
    obtain ⟨hinit, hjoint, hrequested, hsame⟩ :=
      configure_same hsound e element s
    rw [heq]
    refine { buses := h.buses, stores := ?_, owned := ?_, wired := ?_ }
    · intro other s' hs'
      have hbefore : w.store? other = some s' := by
        cases other <;> exact hs'
      exact h.stores hbefore
    · exact h.owned.of_runners (Nat.le_of_eq (length_setController w j _).symm)
        fun {r b} hb => .inr ⟨b, hb, rfl⟩
    · refine h.wired.setController hslot (hsound.configure e element s)
        hinit ?_ ?_ rfl (fun _ => rfl) rfl rfl
      · intro hi
        rw [hsame hi]
      · intro hheld
        refine ⟨fun hgone => hheld ⟨hinit.trans hgone.1, hjoint.trans hgone.2⟩,
          hrequested⟩

/-- The joints and labels after a joint is made. -/
theorem left_addJoint (label : Option String)
    (transport : TransportRef) (w : World) :
    ∃ names, (∀ l j, names.joints.get? l = some j →
        j = w.joints.length ∨ w.names.joints.get? l = some j) ∧
      (Session.addJoint label transport).left w =
        { w with joints := w.joints ++ [{ transport }], names } := by
  cases label with
  | none => exact ⟨w.names, fun _ _ h => .inr h, rfl⟩
  | some label =>
      refine ⟨_, ?_, rfl⟩
      intro l j hl
      rw [SortedMap.get?_insert] at hl
      split at hl
      · exact .inl (Option.some.inj hl).symm
      · exact .inr hl

/-- No command has reached a joint that is not there yet. -/
theorem Wired.not_reached (h : w.Wired) :
    ¬ Reached w.joints.length w.history := by
  rintro ⟨o, ho, hcommands⟩
  cases o with
  | asked i =>
      have hi : i = w.joints.length := by
        simpa [Occurrence.commands] using hcommands
      exact Nat.lt_irrefl _ (hi ▸ h.asked ho)
  | handed t name k =>
      have hk : k = .detach w.joints.length := by
        simpa [Occurrence.commands] using hcommands
      obtain ⟨slot, u, hslot, -⟩ := h.handed (hk ▸ ho)
      simp at hslot

theorem Wired.makeJoint (h : w.Wired) (transport : TransportRef) {names : Names}
    (hn : ∀ l j, names.joints.get? l = some j →
      j = w.joints.length ∨ w.names.joints.get? l = some j) :
    ({ w with joints := w.joints ++ [{ transport }], names } :
      World).Wired := by
  have hcases : ∀ {j : Nat} {slot : JointSlot},
      (w.joints ++ [({ transport } : JointSlot)])[j]? = some slot →
        w.joints[j]? = some slot ∨
        (j = w.joints.length ∧ slot = { transport }) := by
    intro j slot hslot
    rcases Nat.lt_trichotomy j w.joints.length with hlt | rfl | hgt
    · rw [List.getElem?_append_left hlt] at hslot
      exact .inl hslot
    · rw [List.getElem?_concat_length] at hslot
      exact .inr ⟨rfl, (Option.some.inj hslot).symm⟩
    · rw [List.getElem?_eq_none (by simp; omega)] at hslot
      cases hslot
  have hold : ∀ {j : Nat} {slot : JointSlot}, w.joints[j]? = some slot →
      (w.joints ++ [({ transport } : JointSlot)])[j]? = some slot := by
    intro j slot hslot
    rw [List.getElem?_append_left (List.getElem?_eq_some_iff.1 hslot).1]
    exact hslot
  refine { controllers := ?_, labels := ?_, subscriptions := ?_,
           handed := ?_, asked := ?_,
           flags := ?_ }
  · intro j slot hslot
    rcases hcases hslot with hslot | ⟨-, rfl⟩
    · exact h.controllers hslot
    · exact Controller.sound_new
  · intro l j hl
    show j < (w.joints ++ [({ transport } : JointSlot)]).length
    rw [List.length_append]
    rcases hn l j hl with rfl | hl
    · simp
    · exact Nat.lt_add_right 1 (h.labels hl)
  · intro t u j
    refine (h.subscriptions t u j).trans ?_
    constructor
    · rintro ⟨slot, hslot, hlistens⟩
      exact ⟨slot, hold hslot, hlistens⟩
    · rintro ⟨slot, hslot, hlistens⟩
      rcases hcases hslot with hslot | ⟨-, rfl⟩
      · exact ⟨slot, hslot, hlistens⟩
      · exact absurd hlistens.2.1 (by simp)
  · intro t name j hmem
    obtain ⟨slot, u, hslot, hadmits⟩ := h.handed hmem
    exact ⟨slot, u, hold hslot, hadmits⟩
  · intro j hmem
    show j < (w.joints ++ [({ transport } : JointSlot)]).length
    rw [List.length_append]
    exact Nat.lt_add_right 1 (h.asked hmem)
  · intro j slot hslot hheld
    rcases hcases hslot with hslot | ⟨rfl, rfl⟩
    · exact h.flags hslot hheld
    · simpa using h.not_reached

theorem Sound.makeJoint (h : w.Sound) (label : Option String)
    (transport : TransportRef) :
    ((Session.addJoint label transport).left w).Sound := by
  obtain ⟨names, hn, heq⟩ := left_addJoint label transport w
  rw [heq]
  refine { buses := h.buses, stores := ?_, owned := ?_,
           wired := h.wired.makeJoint transport hn }
  · intro other s hs
    have hbefore : w.store? other = some s := by
      cases other <;> exact hs
    exact h.stores hbefore
  · exact h.owned.of_runners (by simp) fun {r b} hb => .inr ⟨b, hb, rfl⟩

/-- A joint is enrolled by making, configuring and registering it. -/
theorem left_enrol (r : Nat) (label : Option String)
    (transport : TransportRef) (e : Entity) (element : Element) (w : World) :
    ∃ entries, (Session.addJoint label transport >>= fun j =>
        addSystem r (.joint j) e element).left w =
      ((configureJoint w.joints.length (.runner r) e element).left
        (((Session.addJoint label transport).left w).report entries)).register r
          (.joint w.joints.length) := by
  refine
    ⟨[⟨.debug,
      s!"configuring system '{(NewSystem.joint w.joints.length).system.name}'"⟩], ?_⟩
  have hleft : (Session.addJoint label transport >>= fun j =>
        addSystem r (.joint j) e element).left w =
      (change fun v => match v.runner? r with
        | none => (0, v)
        | some runner => (runner.systems.length, v.setRunner r
            (some { runner with
              systems := runner.systems ++
                [System.joint w.joints.length] }))).left
        ((configureJoint w.joints.length (.runner r) e element).left
          (((Session.addJoint label transport).left w).report [⟨.debug,
            s!"configuring system '{(NewSystem.joint w.joints.length).system.name}'"⟩])) := rfl
  rw [hleft, left_change]
  unfold register
  split <;> rfl

theorem Sound.report (h : w.Sound) (entries : Log) : (w.report entries).Sound :=
  h.reaction (.of_same (.of_buses_eq rfl) rfl rfl rfl rfl rfl rfl rfl)

/-- Configuring a joint changes no runner. -/
theorem runner?_configureJoint (j : Nat) (ref : StoreRef) (e : Entity)
    (element : Element) (w : World) (r : Nat) :
    ((configureJoint j ref e element).left w).runner? r = w.runner? r := by
  rcases left_configureJoint j ref e element w with
    heq | ⟨slot, s, log, -, -, heq⟩
  · rw [heq]
  · rw [heq]
    rfl

/-- Configuring a joint changes no store. -/
theorem store?_configureJoint (j : Nat) (ref : StoreRef) (e : Entity)
    (element : Element) (w : World) (other : StoreRef) :
    ((configureJoint j ref e element).left w).store? other =
      w.store? other := by
  rcases left_configureJoint j ref e element w with
    heq | ⟨slot, s, log, -, -, heq⟩
  · rw [heq]
  · rw [heq]
    cases other <;> rfl

theorem length_configureJoint (j : Nat) (ref : StoreRef) (e : Entity)
    (element : Element) (w : World) :
    ((configureJoint j ref e element).left w).joints.length =
      w.joints.length := by
  rcases left_configureJoint j ref e element w with
    heq | ⟨slot, s, log, -, -, heq⟩
  · rw [heq]
  · rw [heq]
    exact length_setController w j _

theorem Sound.enrol (h : w.Sound) (r : Nat) (label : Option String)
    (transport : TransportRef) (e : Entity) (element : Element) :
    ((Session.addJoint label transport >>= fun j =>
      addSystem r (.joint j) e element).left w).Sound := by
  obtain ⟨entries, heq⟩ := left_enrol r label transport e element w
  obtain ⟨names, hn, hadd⟩ := left_addJoint label transport w
  rw [heq]
  have hmade := (h.makeJoint label transport).report entries
  refine (hmade.configure w.joints.length (.runner r) e element).registerJoint
    r ?_ ?_
  · rw [length_configureJoint, hadd]
    simp [World.report]
  · intro q a ha
    rw [runner?_configureJoint, hadd] at ha
    have hbefore : w.runner? q = some a := ha
    intro hmem
    exact Nat.lt_irrefl _ (h.owned.lt hbefore hmem)

/-- Every deed keeps a world sound. -/
theorem Sound.deed (h : w.Sound) (d : Deed) : (d.apply w).Sound := by
  cases d with
  | call ref op => exact h.callStore ref op
  | copy ref target => exact h.copy ref target
  | turn j ref => exact h.turn j ref
  | configure j ref e element => exact h.configure j ref e element
  | sweep r => exact h.sweep r
  | clock r info => exact h.setClock r info
  | makeJoint label transport => exact h.makeJoint label transport
  | enrol r label transport e element =>
      exact h.enrol r label transport e element
  | enlistScript r name update => exact h.register r rfl
  | enlistInert r => exact h.register r rfl
  | makeRunner b dt => exact h.makeRunner b dt
  | dropRunner r => exact h.dropRunner r

theorem sound_empty : Sound {} :=
  { buses := fun b e => by
      rw [channelAt_of_length_le (Nat.zero_le b)]
      exact Channel.sound_empty
    stores := by
      intro ref s hs
      cases ref with
      | standalone n =>
          cases hs
          exact Store.sound_empty
      | runner r => simp [store?, runner?] at hs
    owned := { lt := by simp [runner?], nodup := by simp [runner?],
               apart := by simp [runner?] }
    wired := wired_empty }

end World

end Linkage
