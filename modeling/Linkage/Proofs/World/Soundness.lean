import Linkage.Proofs.Store.Calls
import Linkage.Proofs.World.Reaction
import Linkage.World.Stepping

/-!
# Sound worlds

Four things hold of every world that a session reaches: its buses and its stores
are sound, every joint is a system of at most one runner and at one position
there, and commands and joints agree. Each kind of change keeps them; what
listeners do keeps them because it is a reaction.

## Main results

* `World.Sound.reaction`, `World.Sound.setStore`, `World.Sound.setRunner`:
  changes around joints.
* `World.Sound.settle`, `World.Sound.setController`, `World.Sound.addJoint`:
  changes of joints.
-/

namespace Linkage

open Act

/-- The joint that a system is. -/
def System.joint? : System → Option Nat
  | .joint j => some j
  | _ => none

theorem System.eq_joint {system : System} {j : Nat}
    (h : system.joint? = some j) :
    system = .joint j := by
  cases system with
  | joint i => rw [Option.some.inj h]
  | script name update => cases h
  | inert => cases h

/-- The joints among the systems of a runner. -/
def Runner.jointIds (x : Runner) : List Nat := x.systems.filterMap System.joint?

namespace World

variable {w w' : World}

/-- Every joint is a system of at most one runner, and once. -/
structure Owned (w : World) : Prop where
  lt : ∀ {r : Nat} {runner : Runner} {j : Nat}, w.runner? r = some runner →
    j ∈ runner.jointIds → j < w.joints.length
  nodup : ∀ {r : Nat} {runner : Runner}, w.runner? r = some runner →
    runner.jointIds.Nodup
  apart : ∀ {r q : Nat} {a b : Runner} {j : Nat}, w.runner? r = some a →
    w.runner? q = some b →
    j ∈ a.jointIds → j ∈ b.jointIds → r = q

/-- What holds of every world that a session reaches. -/
structure Sound (w : World) : Prop where
  buses : BusesSound w.buses
  stores : ∀ {ref : StoreRef} {s : Store}, w.store? ref = some s → s.Sound
  owned : w.Owned
  wired : w.Wired

/-! ## Places -/

theorem store?_of_runner? {r : Nat} {runner : Runner}
    (h : w.runner? r = some runner) :
    w.store? (.runner r) = some runner.store :=
  congrArg (Option.map Runner.store) h

theorem runner?_setStore (w : World) (ref : StoreRef) (s : Store) (r : Nat) :
    (w.setStore ref s).runner? r =
      (w.runner? r).map fun x => if ref = .runner r then { x with store := s }
      else x := by
  cases ref with
  | standalone n => simp [setStore, runner?]
  | runner q =>
      simp only [setStore]
      cases hq : w.runner? q with
      | none =>
          by_cases h : q = r
          · subst h
            simp [hq]
          · simp [h]
      | some runner =>
          simp only [runner?_setRunner_of hq]
          by_cases h : r = q
          · subst h
            simp [hq]
          · have hne : q ≠ r := fun heq => h heq.symm
            simp [h, hne]

theorem store?_setStore (w : World) {ref : StoreRef} {s : Store}
    (h : w.store? ref = some s) (s' : Store) (other : StoreRef) :
    (w.setStore ref s').store? other = if other = ref then some s'
    else w.store? other := by
  cases other with
  | runner r =>
      simp only [store?, runner?_setStore, Option.map_map]
      by_cases href : ref = .runner r
      · subst href
        have hsome : ∃ runner, w.runner? r = some runner := by
          simp only [store?, Option.map_eq_some_iff] at h
          exact ⟨_, h.choose_spec.1⟩
        obtain ⟨runner, hrunner⟩ := hsome
        simp [hrunner]
      · simp only [href, if_false, if_neg (Ne.symm href)]
        rfl
  | standalone n =>
      cases ref with
      | runner r =>
          have hstores : (w.setStore (.runner r) s').stores = w.stores := by
            simp only [setStore]
            split <;> rfl
          simp [store?, hstores]
      | standalone m =>
          by_cases hn : n = m <;> simp [setStore, store?,
            SortedMap.get?_insert, hn]

@[simp] theorem buses_setStore (w : World) (ref : StoreRef) (s : Store) :
    (w.setStore ref s).buses = w.buses := by
  unfold setStore
  split
  · rfl
  · split <;> rfl

@[simp] theorem joints_setStore (w : World) (ref : StoreRef) (s : Store) :
    (w.setStore ref s).joints = w.joints := by
  unfold setStore
  split
  · rfl
  · split <;> rfl

@[simp] theorem transports_setStore (w : World) (ref : StoreRef) (s : Store) :
    (w.setStore ref s).transports = w.transports := by
  unfold setStore
  split
  · rfl
  · split <;> rfl

@[simp] theorem names_setStore (w : World) (ref : StoreRef) (s : Store) :
    (w.setStore ref s).names = w.names := by
  unfold setStore
  split
  · rfl
  · split <;> rfl

@[simp] theorem log_setStore (w : World) (ref : StoreRef) (s : Store) :
    (w.setStore ref s).log = w.log := by
  unfold setStore
  split
  · rfl
  · split <;> rfl

@[simp] theorem history_setStore (w : World) (ref : StoreRef) (s : Store) :
    (w.setStore ref s).history = w.history := by
  unfold setStore
  split
  · rfl
  · split <;> rfl

@[simp] theorem transport_setStore (w : World) (ref : StoreRef)
    (s : Store) (t : Nat) :
    (w.setStore ref s).transport t = w.transport t :=
  transport_congr (transports_setStore w ref s) t

/-! ## Changes around joints -/

/-- Ownership goes by the joints that runners have. -/
theorem Owned.of_runners (h : w.Owned)
    (hlength : w.joints.length ≤ w'.joints.length)
    (hr : ∀ {r : Nat} {b : Runner}, w'.runner? r = some b →
      b.jointIds = [] ∨ ∃ a, w.runner? r = some a ∧ b.jointIds = a.jointIds) :
      w'.Owned := by
  have hmem : ∀ {r : Nat} {b : Runner} {j : Nat}, w'.runner? r = some b →
      j ∈ b.jointIds →
      ∃ a, w.runner? r = some a ∧ j ∈ a.jointIds := by
    intro r b j hb hj
    rcases hr hb with hnone | ⟨a, ha, heq⟩
    · simp [hnone] at hj
    · exact ⟨a, ha, heq ▸ hj⟩
  refine { lt := ?_, nodup := ?_, apart := ?_ }
  · intro r runner j hrunner hj
    obtain ⟨a, ha, hj⟩ := hmem hrunner hj
    exact Nat.lt_of_lt_of_le (h.lt ha hj) hlength
  · intro r runner hrunner
    rcases hr hrunner with hnone | ⟨a, ha, heq⟩
    · simp [hnone]
    · exact heq ▸ h.nodup ha
  · intro r q a b j ha hb hja hjb
    obtain ⟨a', ha', hja⟩ := hmem ha hja
    obtain ⟨b', hb', hjb⟩ := hmem hb hjb
    exact h.apart ha' hb' hja hjb

theorem Owned.setStore (h : w.Owned) (ref : StoreRef) (s : Store) :
    (w.setStore ref s).Owned := by
  refine h.of_runners (by simp) fun {r b} hb => .inr ?_
  rw [runner?_setStore, Option.map_eq_some_iff] at hb
  obtain ⟨a, ha, rfl⟩ := hb
  refine ⟨a, ha, ?_⟩
  split <;> rfl

theorem Sound.setStore (h : w.Sound) {ref : StoreRef} {s s' : Store}
    (hs : w.store? ref = some s) (hs' : s'.Sound) :
    (w.setStore ref s').Sound := by
  refine { buses := by simpa using h.buses, stores := ?_,
           owned := h.owned.setStore ref s',
           wired := h.wired.congr (by simp) (by simp) (by simp) (by simp) }
  intro other t ht
  rw [store?_setStore w hs] at ht
  split at ht
  · cases ht
    exact hs'
  · exact h.stores ht

/-- A reaction leaves every runner there, but for its switches. -/
theorem Limited.runner? (h : w.Limited w') {r : Nat} {b : Runner}
    (hb : w'.runner? r = some b) :
    ∃ a, w.runner? r = some a ∧ a.still = b.still := by
  have hr : w'.runners[r]? = some (some b) := by
    simpa [World.runner?, Option.join_eq_some_iff] using hb
  have hstill := congrArg (·[r]?) h.runners
  simp only [List.getElem?_map, hr, Option.map_some] at hstill
  obtain ⟨o, ho, hmap⟩ := Option.map_eq_some_iff.1 hstill.symm
  obtain ⟨a, rfl, ha⟩ := Option.map_eq_some_iff.1 hmap
  exact ⟨a, by simp [World.runner?, ho], ha⟩

theorem Limited.symm_runner? (h : w.Limited w') {r : Nat} {a : Runner}
    (ha : w.runner? r = some a) :
    ∃ b, w'.runner? r = some b ∧ b.still = a.still := by
  have hr : w.runners[r]? = some (some a) := by
    simpa [World.runner?, Option.join_eq_some_iff] using ha
  have hstill := congrArg (·[r]?) h.runners
  simp only [List.getElem?_map, hr, Option.map_some] at hstill
  obtain ⟨o, ho, hmap⟩ := Option.map_eq_some_iff.1 hstill
  obtain ⟨b, rfl, hb⟩ := Option.map_eq_some_iff.1 hmap
  exact ⟨b, by simp [World.runner?, ho], hb⟩

theorem Limited.store? (h : w.Limited w') (ref : StoreRef) :
    w'.store? ref = w.store? ref := by
  cases ref with
  | standalone n => simp [World.store?, h.stores]
  | runner r =>
      simp only [World.store?]
      cases hb : w'.runner? r with
      | some b =>
          obtain ⟨a, ha, heq⟩ := h.runner? hb
          simp [ha, Runner.store_of_still heq]
      | none =>
          cases ha : w.runner? r with
          | none => rfl
          | some a =>
              obtain ⟨b, hb', -⟩ := h.symm_runner? ha
              simp [hb] at hb'

theorem Sound.reaction (h : w.Sound) (hr : w.Reaction w') : w'.Sound :=
  { buses := hr.buses.sound h.buses
    stores := fun hs => h.stores ((hr.store? _).symm.trans hs)
    owned := h.owned.of_runners (Nat.le_of_eq (length_of_still hr.joints).symm)
      fun hb => by
      obtain ⟨a, ha, heq⟩ := hr.runner? hb
      exact .inr ⟨a, ha,
        congrArg (·.filterMap System.joint?) (Runner.systems_of_still heq).symm⟩
    wired := hr.wired h.wired }

/-- Replacing a runner by one with the same joints and a sound store. -/
theorem Sound.setRunner (h : w.Sound) {r : Nat} {runner : Runner}
    (hr : w.runner? r = some runner) {runner' : Runner}
    (hids : runner'.jointIds = runner.jointIds) (hs : runner'.store.Sound) :
    (w.setRunner r (some runner')).Sound := by
  refine { buses := h.buses, stores := ?_, owned := ?_,
           wired := h.wired.congr rfl (fun _ => rfl) rfl rfl }
  · intro ref s hstore
    cases ref with
    | standalone n =>
        have hbefore : w.store? (.standalone n) = some s := hstore
        exact h.stores hbefore
    | runner q =>
        simp only [store?, runner?_setRunner_of hr] at hstore
        split at hstore
        · cases hstore
          exact hs
        · have hbefore : w.store? (.runner q) = some s := hstore
          exact h.stores hbefore
  · refine h.owned.of_runners (Nat.le_refl _) fun {q b} hb => ?_
    rw [runner?_setRunner_of hr] at hb
    split at hb
    · next hq =>
      cases hb
      exact .inr ⟨runner, hq ▸ hr, hids⟩
    · exact .inr ⟨b, hb, rfl⟩

/-! ## Changes of joints -/

theorem joints_setController (w : World) (j : Nat) (c : Controller) (i : Nat) :
    (w.setController j c).joints[i]? = (w.joints[i]?).map fun slot =>
      if j = i then { slot with controller := c } else slot :=
  List.getElem?_modify _ j w.joints i

theorem length_setController (w : World) (j : Nat) (c : Controller) :
    (w.setController j c).joints.length = w.joints.length :=
  List.length_modify _ _ _

section OneJoint

variable (h : w.Wired) {j : Nat} {slot : JointSlot}
  (hslot : w.joints[j]? = some slot) {c : Controller}
include h hslot

/-- What a new controller of a joint has to fit, apart from its subscription. -/
theorem Wired.replace (hsound : c.Sound)
    (hkeeps : slot.controller.initialized = true → c.initialized = true)
    (htopic : slot.controller.initialized = true →
      c.topic = slot.controller.topic)
    (hflags : ¬ c.HasLetGo →
      ¬ slot.controller.HasLetGo ∧ c.requested = slot.controller.requested)
    (hj : w'.joints = (w.setController j c).joints)
    (hn : w'.names.joints = w.names.joints) (hh : w'.history = w.history)
    (hsubscriptions : ∀ t u i, .detach i ∈ (w'.transport t).subscribers u ↔
      ∃ slot, w'.joints[i]? = some slot ∧ slot.Listens t u) : w'.Wired := by
  have hjoint : ∀ i, w'.joints[i]? = (w.joints[i]?).map fun slot =>
      if j = i then { slot with controller := c } else slot := by
    intro i
    rw [hj]
    exact joints_setController w j c i
  have hlength : w'.joints.length = w.joints.length := by
    rw [hj]
    exact length_setController w j c
  refine { controllers := ?_, labels := ?_,
           subscriptions := hsubscriptions, handed := ?_,
           asked := ?_, flags := ?_ }
  · intro i other hother
    rw [hjoint, Option.map_eq_some_iff] at hother
    obtain ⟨before, hbefore, rfl⟩ := hother
    split
    · exact hsound
    · exact h.controllers hbefore
  · rw [hn, hlength]
    exact h.labels
  · rw [hh]
    intro t name i hmem
    obtain ⟨before, u, hbefore, hname, htransport, hinit, hu⟩ := h.handed hmem
    refine ⟨if j = i then { before with controller := c } else before, u,
      ?_, hname, ?_⟩
    · rw [hjoint, hbefore]
      rfl
    · by_cases hij : j = i
      · subst hij
        rw [hslot] at hbefore
        cases hbefore
        rw [if_pos rfl]
        exact ⟨htransport, hkeeps hinit, (htopic hinit).trans hu⟩
      · rw [if_neg hij]
        exact ⟨htransport, hinit, hu⟩
  · rw [hh, hlength]
    exact h.asked
  · rw [hh]
    intro i other hother hheld
    rw [hjoint, Option.map_eq_some_iff] at hother
    obtain ⟨before, hbefore, rfl⟩ := hother
    by_cases hij : j = i
    · subst hij
      rw [hslot] at hbefore
      cases hbefore
      rw [if_pos rfl] at hheld ⊢
      obtain ⟨hbefore, hrequested⟩ := hflags hheld
      show c.requested = true ↔ _
      rw [hrequested]
      exact h.flags hslot hbefore
    · rw [if_neg hij] at hheld ⊢
      exact h.flags hbefore hheld

/-- A controller that has not just attached listens as before. -/
theorem Wired.setController (hsound : c.Sound)
    (hinit : c.initialized = slot.controller.initialized)
    (htopic : slot.controller.initialized = true →
      c.topic = slot.controller.topic)
    (hflags : ¬ c.HasLetGo →
      ¬ slot.controller.HasLetGo ∧ c.requested = slot.controller.requested)
    (hj : w'.joints = (w.setController j c).joints)
    (ht : ∀ t, w'.transport t = w.transport t)
    (hn : w'.names.joints = w.names.joints) (hh : w'.history = w.history) :
    w'.Wired := by
  refine h.replace hslot hsound (fun hi => hinit.trans hi) htopic
    hflags hj hn hh ?_
  intro t u i
  rw [ht, h.subscriptions t u i, hj, joints_setController]
  by_cases hij : j = i
  · subst hij
    have hlistens : slot.Listens t u ↔
        JointSlot.Listens { slot with controller := c } t u := by
      constructor
      · rintro ⟨htransport, hi, hu⟩
        exact ⟨htransport, hinit.trans hi, (htopic hi).trans hu⟩
      · rintro ⟨htransport, hi, hu⟩
        have hi' : slot.controller.initialized = true := hinit.symm.trans hi
        exact ⟨htransport, hi', (htopic hi').symm.trans hu⟩
    simp [hslot, hlistens]
  · simp [hij]

end OneJoint

/-- The world with what a turn of a joint leaves behind. -/
def settle (w : World) (j : Nat) (ref : StoreRef) (t : TransportRef)
    (y : Controller.Situation Callback) : World :=
  (((w.setController j y.controller).setStore ref y.store).setEndpoint t
    y.endpoint).report y.log

/-- What a joint acts on in its turn. -/
def situation (w : World) (slot : JointSlot) (s : Store) :
    Controller.Situation Callback :=
  { controller := slot.controller, store := s,
    endpoint := w.endpoint slot.transport }

/-- A turn is taken by a joint that exists, on a store that exists. -/
theorem left_updateJoint (j : Nat) (ref : StoreRef) (w : World) :
    (updateJoint j ref).left w = w ∨
      ∃ slot s y, w.joints[j]? = some slot ∧ w.store? ref = some s ∧
        Controller.Turn (Callback.detach j) (w.situation slot s) y ∧
        (updateJoint j ref).left w = w.settle j ref slot.transport y := by
  unfold updateJoint
  rw [left_modify]
  cases hslot : w.joints[j]? with
  | none => exact .inl rfl
  | some slot =>
      cases hs : w.store? ref with
      | none => exact .inl rfl
      | some s =>
          exact .inr ⟨slot, s, _, rfl, rfl,
            Controller.preUpdate_turn (Callback.detach j) _, rfl⟩

theorem setEndpoint_eq (w : World) (t : TransportRef) (e : Endpoint Callback) :
    ∃ transports, w.setEndpoint t e = { w with transports } := by
  unfold setEndpoint
  split
  · exact ⟨_, rfl⟩
  · exact ⟨w.transports, rfl⟩

section Settle

variable (w : World) (j : Nat) (ref : StoreRef) (t : TransportRef)
  (y : Controller.Situation Callback)

theorem joints_settle : (w.settle j ref t y).joints =
    (w.setController j y.controller).joints := by
  obtain ⟨transports, h⟩ :=
    setEndpoint_eq ((w.setController j y.controller).setStore ref y.store)
    t y.endpoint
  unfold settle
  rw [h]
  exact joints_setStore _ ref y.store

theorem names_settle : (w.settle j ref t y).names = w.names := by
  obtain ⟨transports, h⟩ :=
    setEndpoint_eq ((w.setController j y.controller).setStore ref y.store)
    t y.endpoint
  unfold settle
  rw [h]
  exact names_setStore _ ref y.store

theorem history_settle : (w.settle j ref t y).history = w.history := by
  obtain ⟨transports, h⟩ :=
    setEndpoint_eq ((w.setController j y.controller).setStore ref y.store)
    t y.endpoint
  unfold settle
  rw [h]
  exact history_setStore _ ref y.store

theorem buses_settle : (w.settle j ref t y).buses = w.buses := by
  obtain ⟨transports, h⟩ :=
    setEndpoint_eq ((w.setController j y.controller).setStore ref y.store)
    t y.endpoint
  unfold settle
  rw [h]
  exact buses_setStore _ ref y.store

theorem runner?_settle (r : Nat) :
    (w.settle j ref t y).runner? r = (w.setStore ref y.store).runner? r := by
  obtain ⟨transports, h⟩ :=
    setEndpoint_eq ((w.setController j y.controller).setStore ref y.store)
    t y.endpoint
  have hsame : (w.settle j ref t y).runner? r =
      ((w.setController j y.controller).setStore ref y.store).runner? r := by
    simp [settle, h, report, runner?]
  rw [hsame, runner?_setStore, runner?_setStore]
  rfl

theorem store?_settle {s : Store} (hs : w.store? ref = some s)
    (other : StoreRef) :
    (w.settle j ref t y).store? other = if other = ref then some y.store
    else w.store? other := by
  obtain ⟨transports, h⟩ :=
    setEndpoint_eq ((w.setController j y.controller).setStore ref y.store)
    t y.endpoint
  have hsame : (w.settle j ref t y).store? other =
      ((w.setController j y.controller).setStore ref y.store).store? other := by
    cases other <;> simp [settle, h, report, store?, runner?]
  have hbefore : (w.setController j y.controller).store? ref = some s := hs
  rw [hsame, store?_setStore _ hbefore]
  rfl

theorem transport_settle (n : Nat) :
    (w.settle j ref t y).transport n =
      (w.setEndpoint t y.endpoint).transport n := by
  have hbefore :
      ((w.setController j y.controller).setStore ref y.store).transports =
      w.transports := transports_setStore _ ref y.store
  unfold settle setEndpoint
  split
  · show ((((w.setController j y.controller).setStore ref
      y.store).transports.insert _ _).get? n).getD {} = _
    rw [hbefore]
    rfl
  · exact transport_congr hbefore n

end Settle

/-- Putting back the endpoint of a transport changes no transport. -/
theorem transport_setEndpoint_self (w : World) (t : TransportRef) (n : Nat) :
    (w.setEndpoint t (w.endpoint t)).transport n = w.transport n := by
  cases t with
  | refusing => rfl
  | numbered m =>
      by_cases hn : n = m
      · subst hn
        simp [setEndpoint, endpoint, setTransport, transport]
      · simp [setEndpoint, endpoint, setTransport, transport,
          SortedMap.get?_insert, hn]

/-- A turn of a joint keeps commands and joints in agreement: it subscribes when
it attaches. -/
theorem Wired.settle (h : w.Wired) {j : Nat} {slot : JointSlot}
    {ref : StoreRef} {s : Store} {y : Controller.Situation Callback}
    (hslot : w.joints[j]? = some slot)
    (hturn : Controller.Turn (Callback.detach j) (w.situation slot s) y) :
    (w.settle j ref slot.transport y).Wired := by
  have hsound := h.controllers hslot
  have htopic : y.controller.topic = slot.controller.topic := hturn.topic
  have hnames := congrArg Names.joints (names_settle w j ref slot.transport y)
  rcases hturn.endpoint_cases with ⟨hendpoint, hinit⟩ |
    ⟨hendpoint, hvalid, hunattached, hattached⟩
  · refine h.setController hslot (hsound.turn hturn) hinit (fun _ => htopic)
      (fun hy => hturn.requested_eq hy) (joints_settle ..) (fun n => ?_) hnames
        (history_settle ..)
    rw [transport_settle, hendpoint]
    exact transport_setEndpoint_self w slot.transport n
  · have hno : ¬ slot.controller.initialized = true := by
      intro hi
      exact absurd (hi.symm.trans hunattached) (by simp)
    refine h.replace hslot (hsound.turn hturn) (fun hi => absurd hi hno)
      (fun hi => absurd hi hno)
      (fun hy => hturn.requested_eq hy) (joints_settle ..) hnames
        (history_settle ..) ?_
    intro t u i
    have hmem : .detach i ∈
        ((w.settle j ref slot.transport y).transport t).subscribers u ↔
        .detach i ∈ (w.transport t).subscribers u ∨
          (slot.transport = .numbered t ∧
            u = slot.controller.topic ∧ i = j) := by
      rw [transport_settle, hendpoint]
      unfold Controller.Situation.subscribed
      cases ht : slot.transport with
      | refusing => simp [setEndpoint, transport]
      | numbered n =>
          have hvalid' : Topic.isValid slot.controller.topic = true :=
            hsound.topic hvalid
          have hsub : ∃ e,
              (w.endpoint (.numbered n)).subscribe slot.controller.topic
              (.detach j) = .ok e := by
            simp [endpoint, Endpoint.subscribe, Transport.subscribe,
              hvalid', Except.map]
          obtain ⟨e, he⟩ := hsub
          simp only [situation, ht, he]
          rw [mem_subscribers_of_subscribe he rfl]
          simp
    rw [hmem, h.subscriptions t u i, joints_settle, joints_setController]
    by_cases hij : j = i
    · subst hij
      have hbefore : ¬ slot.Listens t u := fun hl => hno hl.2.1
      simp only [hslot, Option.map_some, if_true, Option.some.injEq,
        exists_eq_left', hbefore, false_or]
      constructor
      · rintro ⟨ht, hu, -⟩
        exact ⟨ht, hattached, htopic.trans hu.symm⟩
      · rintro ⟨ht, -, hu⟩
        exact ⟨ht, hu.symm.trans htopic, trivial⟩
    · simp [hij, Ne.symm hij]

/-- A turn of a joint keeps a world sound. -/
theorem Sound.settle (h : w.Sound) {j : Nat} {slot : JointSlot}
    {ref : StoreRef} {s : Store} {y : Controller.Situation Callback}
    (hslot : w.joints[j]? = some slot) (hs : w.store? ref = some s)
    (hturn : Controller.Turn (Callback.detach j) (w.situation slot s) y) :
    (w.settle j ref slot.transport y).Sound := by
  refine { buses := ?_, stores := ?_, owned := ?_,
           wired := h.wired.settle hslot hturn }
  · rw [buses_settle]
    exact h.buses
  · intro other t ht
    rw [store?_settle _ _ _ _ _ hs] at ht
    split at ht
    · cases ht
      exact hturn.store_sound (h.stores hs)
    · exact h.stores ht
  · refine (h.owned.setStore ref y.store).of_runners ?_ fun {r b} hb =>
      .inr ⟨b, ?_, rfl⟩
    · rw [joints_settle, joints_setStore]
      exact Nat.le_of_eq (length_setController w j y.controller).symm
    · rw [← runner?_settle w j ref slot.transport y]
      exact hb

end World

end Linkage
