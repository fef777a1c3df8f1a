import Linkage.Proofs.Bus.Emission
import Linkage.Proofs.World.Moments
import Mathlib.Data.List.Induction

/-!
# Connections

A run on a bus is a list of calls: connections, disconnections, questions, and
announcements, which find the listeners of their event as they begin and look
at each of them again at its turn. What a listener does while it is called
stands in the list between its turn and the next one.

A call concerns the channel of one event. What it answers depends on that
channel only and no other channel changes, so a run is a run on each channel
side by side.

## Main results

* `Bus.lawful`: a handle names one listener from its connection to its first
  disconnection, and what happens on the other channels does not matter.
* `turns_of_emitOn`: an announcement makes no calls but its own and those of the
  listeners that it runs.
* `connections_last`: the laws of connections for every run of calls, every
  announcement and every session.
-/

namespace Linkage

open Act

/-- A call on a bus. An announcement is the finding of its listeners and a turn
for each. -/
inductive BusCall (κ : Type)
  | connect (e : Event) (k : κ)
  | disconnect (c : Connection)
  | isConnected (c : Connection)
  | listenerCount (e : Event)
  | channel (e : Event)
  | emit (e : Event)
  | turn (c : Connection)
  deriving DecidableEq

/-- What a call on a bus is answered. -/
inductive BusAnswer (κ : Type)
  | issued (c : Connection)
  | flag (up : Bool)
  | count (n : Nat)
  | found (listeners : List (Nat × κ))
  | nothing
  deriving DecidableEq

/-- The event whose channel a call concerns. -/
def BusCall.event {κ : Type} : BusCall κ → Event
  | .connect e _ => e
  | .disconnect c => c.event
  | .isConnected c => c.event
  | .listenerCount e => e
  | .channel e => e
  | .emit e => e
  | .turn c => c.event

/-- The handle that an answer issues. -/
def BusAnswer.handle? {κ : Type} : BusAnswer κ → Option Connection
  | .issued c => some c
  | _ => none

/-! ## Calls on a channel -/

namespace Channel

variable {κ : Type}

/-- Answer a call on the channel it concerns. -/
def serve (c : Channel κ) : BusCall κ → BusAnswer κ × Channel κ
  | .connect e k => (.issued ⟨e, (c.connect k).1⟩, (c.connect k).2)
  | .disconnect d => (.flag (c.disconnect d.id).1, (c.disconnect d.id).2)
  | .isConnected d => (.flag (c.isConnected d.id), c)
  | .listenerCount _ => (.count c.count, c)
  | .channel _ => (.nothing, c)
  | .emit _ => (.found c.listeners, c)
  | .turn d => (.flag (c.flag d.id), c)

/-- Answer calls on one channel, one after the other. -/
def serveAll (c : Channel κ) (calls : List (BusCall κ)) : Channel κ :=
  calls.foldl (fun c call => (c.serve call).2) c

theorem Sound.serve {c : Channel κ} (h : c.Sound) (call : BusCall κ) :
    (c.serve call).2.Sound := by
  cases call with
  | connect e k => exact h.connect k
  | disconnect d => exact h.disconnect d.id
  | _ => exact h

theorem Sound.serveAll {c : Channel κ} (h : c.Sound)
    (calls : List (BusCall κ)) :
    (c.serveAll calls).Sound := by
  induction calls generalizing c with
  | nil => exact h
  | cons call calls ih => exact ih (h.serve call)

theorem nextId_le_serve (c : Channel κ) (call : BusCall κ) :
    c.nextId ≤ (c.serve call).2.nextId := by
  cases call with
  | connect e k => exact Nat.le_succ _
  | disconnect d => exact Nat.le_of_eq (nextId_disconnect c d.id).symm
  | _ => exact Nat.le_refl _

end Channel

/-! ## Calls on a bus -/

namespace Bus

variable {κ : Type}

/-- Answer a call. -/
def serve (b : Bus κ) : BusCall κ → BusAnswer κ × Bus κ
  | .connect e k => (.issued ⟨e, (b.connect e k).1⟩, (b.connect e k).2)
  | .disconnect c => (.flag (b.disconnect c).1, (b.disconnect c).2)
  | .isConnected c =>
      (.flag ((b.ensure c.event).isConnected c), b.ensure c.event)
  | .listenerCount e => (.count (b.listenerCount e), b)
  | .channel e => (.nothing, b.ensure e)
  | .emit e => (.found (b.channel e).listeners, b)
  | .turn c => (.flag (b.flag c), b)

/-- Answer calls, one after the other. -/
def serveAll (b : Bus κ) (calls : List (BusCall κ)) : Bus κ :=
  calls.foldl (fun b call => (b.serve call).2) b

/-- What calls are answered, one after the other. -/
def answers (b : Bus κ) : List (BusCall κ) → List (BusAnswer κ)
  | [] => []
  | call :: calls => (b.serve call).1 :: (b.serve call).2.answers calls

/-- The handles that calls are answered, in the order of the connections. -/
def handles (b : Bus κ) (calls : List (BusCall κ)) : List Connection :=
  (b.answers calls).filterMap BusAnswer.handle?

theorem serveAll_append (b : Bus κ) (calls later : List (BusCall κ)) :
    b.serveAll (calls ++ later) = (b.serveAll calls).serveAll later :=
  List.foldl_append

theorem answers_append (b : Bus κ) (calls later : List (BusCall κ)) :
    b.answers (calls ++ later) = b.answers calls ++
      (b.serveAll calls).answers later := by
  induction calls generalizing b with
  | nil => rfl
  | cons call calls ih => exact congrArg (_ :: ·) (ih _)

theorem handles_append (b : Bus κ) (calls later : List (BusCall κ)) :
    b.handles (calls ++ later) = b.handles calls ++
      (b.serveAll calls).handles later := by
  rw [handles, answers_append, List.filterMap_append]
  rfl

/-- No other channel changes. -/
theorem channel_serve (b : Bus κ) (call : BusCall κ) (e : Event) :
    (b.serve call).2.channel e =
      if call.event = e then ((b.channel e).serve call).2 else b.channel e := by
  cases call with
  | connect f k =>
      rw [show (b.serve (.connect f k)).2 = (b.connect f k).2 from rfl,
        channel_connect]
      simp only [BusCall.event, eq_comm, Channel.serve]
  | disconnect c =>
      rw [show (b.serve (.disconnect c)).2 = (b.disconnect c).2 from rfl,
        channel_disconnect]
      simp only [BusCall.event, eq_comm, Channel.serve]
  | isConnected c => simp [serve, Channel.serve, channel_ensure]
  | channel f => simp [serve, Channel.serve, channel_ensure]
  | listenerCount f => simp [serve, Channel.serve]
  | emit f => simp [serve, Channel.serve]
  | turn c => simp [serve, Channel.serve]

theorem channel_serve_self (b : Bus κ) (call : BusCall κ) :
    (b.serve call).2.channel call.event =
      ((b.channel call.event).serve call).2 := by
  rw [channel_serve, if_pos rfl]

theorem channel_serve_of_ne (b : Bus κ) {call : BusCall κ} {e : Event}
    (h : call.event ≠ e) :
    (b.serve call).2.channel e = b.channel e := by
  rw [channel_serve, if_neg h]

/-- The answer depends on the channel that the call concerns only. -/
theorem answer_serve (b : Bus κ) (call : BusCall κ) :
    (b.serve call).1 = ((b.channel call.event).serve call).1 := by
  cases call with
  | disconnect c =>
      simp only [serve, Channel.serve, BusCall.event, disconnect, channel]
      cases b.channel? c.event <;> rfl
  | isConnected c => simp [serve, Channel.serve, BusCall.event, isConnected,
      channel_ensure]
  | _ => rfl

/-- A run on a bus is on each channel the run of the calls that concern it. -/
theorem channel_serveAll (b : Bus κ) (calls : List (BusCall κ)) (e : Event) :
    (b.serveAll calls).channel e =
      (b.channel e).serveAll (calls.filter fun call => call.event = e) := by
  induction calls generalizing b with
  | nil => rfl
  | cons call calls ih =>
      have hstep : (b.serveAll (call :: calls)).channel e =
          ((b.serve call).2.channel e).serveAll
            (calls.filter fun call => call.event = e) :=
        ih (b.serve call).2
      rw [hstep, channel_serve]
      by_cases h : call.event = e
      · rw [if_pos h, List.filter_cons_of_pos (by simpa using h)]
        rfl
      · rw [if_neg h, List.filter_cons_of_neg (by simpa using h)]

/-- Calls on the other channels change nothing on a channel. -/
theorem channel_serveAll_filter (b : Bus κ)
    (calls : List (BusCall κ)) (e : Event) :
    (b.serveAll calls).channel e =
      (b.serveAll (calls.filter fun call => call.event = e)).channel e := by
  rw [channel_serveAll, channel_serveAll, List.filter_filter]
  simp only [Bool.and_self]

/-! ## Sound runs -/

theorem sound_serveAll {b : Bus κ} (h : ∀ e, (b.channel e).Sound)
    (calls : List (BusCall κ)) (e : Event) :
    ((b.serveAll calls).channel e).Sound := by
  rw [channel_serveAll]
  exact (h e).serveAll _

theorem sound_channel_empty (e : Event) : (({} : Bus κ).channel e).Sound := by
  have hempty : ({} : Bus κ).channel e = {} := rfl
  rw [hempty]
  exact Channel.sound_empty

theorem nextId_le_serveAll (b : Bus κ) (calls : List (BusCall κ)) (e : Event) :
    (b.channel e).nextId ≤ ((b.serveAll calls).channel e).nextId := by
  induction calls generalizing b with
  | nil => exact Nat.le_refl _
  | cons call calls ih =>
      refine Nat.le_trans ?_ (ih (b.serve call).2)
      rw [channel_serve]
      split
      · exact Channel.nextId_le_serve _ call
      · exact Nat.le_refl _

/-! ## Handles -/

/-- A listener whose number was given out before a call is there after it unless
the call disconnects it. -/
theorem mem_listeners_serve {b : Bus κ} {e : Event}
    (h : (b.channel e).Sound) {x : Nat × κ}
    (hissued : x.1 < (b.channel e).nextId) (call : BusCall κ) :
    x ∈ ((b.serve call).2.channel e).listeners ↔
      x ∈ (b.channel e).listeners ∧ call ≠ .disconnect ⟨e, x.1⟩ := by
  by_cases hevent : call.event = e
  · subst hevent
    rw [channel_serve_self]
    cases call with
    | connect f k =>
        have hne : x ≠ ((b.channel f).nextId, k) := by
          rintro rfl
          exact Nat.lt_irrefl _ hissued
        simp [Channel.serve, Channel.connect, BusCall.event, hne]
    | disconnect d =>
        obtain ⟨f, id⟩ := d
        simp only [Channel.serve, BusCall.event] at h ⊢
        rw [Channel.mem_disconnect_iff h]
        simp [eq_comm]
    | _ => simp [Channel.serve]
  · have hne : call ≠ .disconnect ⟨e, x.1⟩ := by
      rintro rfl
      exact hevent rfl
    rw [channel_serve_of_ne b hevent]
    simp [hne]

/-- A listener whose number was given out before some calls is there after them
unless one of them disconnects it. -/
theorem mem_listeners_serveAll {b : Bus κ} {e : Event}
    (h : (b.channel e).Sound) {x : Nat × κ}
    (hissued : x.1 < (b.channel e).nextId) (calls : List (BusCall κ)) :
    x ∈ ((b.serveAll calls).channel e).listeners ↔
      x ∈ (b.channel e).listeners ∧ .disconnect ⟨e, x.1⟩ ∉ calls := by
  induction calls generalizing b with
  | nil => simp [serveAll]
  | cons call calls ih =>
      have hsound : ((b.serve call).2.channel e).Sound := by
        rw [channel_serve]
        split
        · exact h.serve call
        · exact h
      have hnext : x.1 < ((b.serve call).2.channel e).nextId :=
        Nat.lt_of_lt_of_le hissued (nextId_le_serveAll b [call] e)
      have hstep : x ∈ ((b.serveAll (call :: calls)).channel e).listeners ↔
          x ∈ ((b.serve call).2.channel e).listeners ∧
          .disconnect ⟨e, x.1⟩ ∉ calls :=
        ih hsound hnext
      rw [hstep, mem_listeners_serve h hissued, List.mem_cons, not_or,
        and_assoc, ne_comm]

/-- A handle whose number was given out is connected after some calls if it was
before them and none of them disconnects it. -/
theorem isConnected_serveAll {b : Bus κ} {c : Connection}
    (h : (b.channel c.event).Sound)
    (hissued : c.id < (b.channel c.event).nextId) (calls : List (BusCall κ)) :
    (b.serveAll calls).isConnected c = true ↔
      b.isConnected c = true ∧ .disconnect c ∉ calls := by
  have hmem : ∀ x : Nat × κ, x.1 = c.id →
      (x ∈ ((b.serveAll calls).channel c.event).listeners ↔
        x ∈ (b.channel c.event).listeners ∧ .disconnect c ∉ calls) := by
    intro x hid
    rw [mem_listeners_serveAll h (hid ▸ hissued), hid]
  simp only [isConnected, Channel.isConnected_iff]
  constructor
  · rintro ⟨x, hx, hid⟩
    obtain ⟨hbefore, hgone⟩ := (hmem x hid).1 hx
    exact ⟨⟨x, hbefore, hid⟩, hgone⟩
  · rintro ⟨⟨x, hbefore, hid⟩, hgone⟩
    exact ⟨x, (hmem x hid).2 ⟨hbefore, hgone⟩, hid⟩

/-- The handles that a call issues carry the next number of its channel. -/
theorem handles_singleton (b : Bus κ) (call : BusCall κ) :
    b.handles [call] = match call with
      | .connect e _ => [⟨e, (b.channel e).nextId⟩]
      | _ => [] := by
  cases call <;> rfl

/-- Handles that were issued have numbers below the next one. -/
theorem lt_nextId_of_mem_handles {b : Bus κ} {calls : List (BusCall κ)}
    {c : Connection} (h : c ∈ b.handles calls) :
    c.id < ((b.serveAll calls).channel c.event).nextId := by
  induction calls using List.reverseRecOn with
  | nil => cases h
  | append_singleton calls call ih =>
      rw [handles_append, handles_singleton, List.mem_append] at h
      rw [serveAll_append]
      rcases h with h | h
      · exact Nat.lt_of_lt_of_le (ih h) (nextId_le_serveAll _ [call] c.event)
      · cases call with
        | connect e k =>
            obtain rfl := List.mem_singleton.1 h
            have hnext := channel_serve_self (b.serveAll calls) (.connect e k)
            show _ <
              (((b.serveAll calls).serve (.connect e k)).2.channel e).nextId
            rw [show ((b.serveAll calls).serve (.connect e k)).2.channel e = _
              from hnext]
            exact Nat.lt_succ_self _
        | _ => cases h

/-- The handles of one channel are issued with growing numbers. -/
theorem handles_sorted (b : Bus κ) (calls : List (BusCall κ)) :
    (b.handles calls).Pairwise fun c d => c.event = d.event → c.id < d.id := by
  induction calls using List.reverseRecOn with
  | nil => exact .nil
  | append_singleton calls call ih =>
      rw [handles_append, handles_singleton]
      cases call with
      | connect e k =>
          refine List.pairwise_append.2 ⟨ih, List.pairwise_singleton _ _, ?_⟩
          intro c hc d hd hevent
          obtain rfl := List.mem_singleton.1 hd
          have hlt := lt_nextId_of_mem_handles hc
          rw [hevent] at hlt
          exact hlt
      | _ => simpa using ih

/-! ## Runs from the empty bus -/

/-- The bus after some calls, if it was empty before them. -/
def ran (calls : List (BusCall κ)) : Bus κ := ({} : Bus κ).serveAll calls

theorem ran_append (calls later : List (BusCall κ)) :
    ran (calls ++ later) = (ran calls).serveAll later := serveAll_append _ _ _

theorem sound_ran (calls : List (BusCall κ)) (e : Event) :
    ((ran calls).channel e).Sound :=
  sound_serveAll sound_channel_empty calls e

/-- A number that was not given out names no listener. -/
theorem isConnected_of_nextId_le {b : Bus κ} {c : Connection}
    (h : (b.channel c.event).Sound) (hle : (b.channel c.event).nextId ≤ c.id) :
    b.isConnected c = false := by
  rw [Bool.eq_false_iff]
  intro hc
  obtain ⟨x, hx, hid⟩ := (Channel.isConnected_iff _ _).1 hc
  have hbelow := h.below x hx
  omega

/-- A handle whose number a call gives out is the one that the call issues. -/
theorem eq_issued_of_nextId {b : Bus κ} {call : BusCall κ} {c : Connection}
    (hle : (b.channel c.event).nextId ≤ c.id)
    (hlt : c.id < ((b.serve call).2.channel c.event).nextId) :
    c ∈ b.handles [call] := by
  by_cases hevent : call.event = c.event
  · rw [← hevent, channel_serve_self, hevent] at hlt
    cases call with
    | connect e k =>
        obtain ⟨f, id⟩ := c
        simp only [BusCall.event] at hevent
        subst hevent
        have hid : id < (b.channel e).nextId + 1 := hlt
        have heq : id = (b.channel e).nextId :=
          Nat.le_antisymm (Nat.le_of_lt_succ hid) hle
        rw [handles_singleton, heq]
        exact List.mem_singleton.2 rfl
    | disconnect d =>
        have hid : c.id < (b.channel c.event).nextId := by
          simpa only [Channel.serve, Channel.nextId_disconnect] using hlt
        omega
    | _ => exact absurd hlt (Nat.not_lt.2 hle)
  · rw [channel_serve_of_ne b hevent] at hlt
    omega

/-- Exactly the handles whose numbers are below the next one were issued. -/
theorem mem_handles_iff (calls : List (BusCall κ)) (c : Connection) :
    c ∈ ({} : Bus κ).handles calls ↔
      c.id < ((ran calls).channel c.event).nextId := by
  refine ⟨lt_nextId_of_mem_handles, fun h => ?_⟩
  induction calls using List.reverseRecOn with
  | nil => exact absurd h (Nat.not_lt_zero _)
  | append_singleton calls call ih =>
      rw [ran_append] at h
      rw [handles_append, List.mem_append]
      rcases Nat.lt_or_ge c.id ((ran calls).channel c.event).nextId with
        hlt | hge
      · exact .inl (ih hlt)
      · exact .inr (eq_issued_of_nextId hge h)

/-- The places of the listeners of an event, in the order of their
connection. -/
def places (b : Bus κ) (e : Event) : List Connection :=
  (b.channel e).listeners.map fun x => ⟨e, x.1⟩

theorem mem_places_iff (b : Bus κ) (e : Event) (c : Connection) :
    c ∈ b.places e ↔ c.event = e ∧ b.isConnected c = true := by
  simp only [places, List.mem_map, isConnected, Channel.isConnected_iff]
  constructor
  · rintro ⟨x, hx, rfl⟩
    exact ⟨rfl, x, hx, rfl⟩
  · rintro ⟨rfl, x, hx, hid⟩
    exact ⟨x, hx, by rw [hid]⟩

/-- The listeners of an event are those of the handles of its channel that are
connected, in the order in which these were issued. -/
theorem places_ran (calls : List (BusCall κ)) (e : Event) :
    (ran calls).places e = (({} : Bus κ).handles calls).filter fun c =>
      c.event = e ∧ (ran calls).isConnected c = true := by
  have hsorted := (sound_ran calls e).sorted
  have hplaces : ((ran calls).places e).Pairwise fun c d => c.id < d.id := by
    rw [places, List.pairwise_map]
    exact hsorted
  have hkept : ((({} : Bus κ).handles calls).filter fun c =>
      c.event = e ∧ (ran calls).isConnected c = true).Pairwise fun c d =>
        c.id < d.id := by
    rw [List.pairwise_filter]
    refine (handles_sorted {} calls).imp ?_
    intro c d hlt hc hd
    simp only [decide_eq_true_eq] at hc hd
    exact hlt (hc.1.trans hd.1.symm)
  have hnodup : ∀ {l : List Connection}, l.Pairwise (fun c d => c.id < d.id) →
      l.Nodup := by
    intro l hl
    refine hl.imp ?_
    rintro c d hlt rfl
    exact Nat.lt_irrefl _ hlt
  have hperm :=
    (List.perm_ext_iff_of_nodup (hnodup hplaces) (hnodup hkept)).2 ?_
  · refine hperm.eq_of_pairwise ?_ hplaces hkept
    intro c d _ _ hcd hdc
    omega
  · intro c
    rw [mem_places_iff, List.mem_filter, decide_eq_true_eq]
    refine ⟨fun h => ⟨(mem_handles_iff calls c).2 ?_, h⟩, And.right⟩
    obtain ⟨x, hx, hid⟩ := (Channel.isConnected_iff _ _).1 h.2
    exact hid ▸ (sound_ran calls c.event).below x hx

/-! ## The laws -/

/-- What a handle that was issued for a listener, when some calls had been made,
stands for after some more calls. -/
structure Lasting (earlier : List (BusCall κ)) (c : Connection) (k : κ)
    (since : List (BusCall κ)) (b : Bus κ) : Prop where
  before : ∀ calls, calls <+: earlier → (ran calls).isConnected c = false
  connected : b.isConnected c = true ↔ .disconnect c ∉ since
  first : .disconnect c ∉ since → (b.serve (.disconnect c)).1 = .flag true ∧
    (c.id, k) ∈ (b.channel c.event).listeners ∧
      ((b.serve (.disconnect c)).2.channel c.event).listeners =
        (b.channel c.event).listeners.filter (·.1 ≠ c.id)
  again : .disconnect c ∈ since → b.serve (.disconnect c) = (.flag false, b)

/-- The laws of connections after some calls. -/
structure Lawful (calls : List (BusCall κ)) : Prop where
  sorted : ∀ e, ((ran calls).channel e).listeners.Pairwise fun x y => x.1 < y.1
  below : ∀ e, ∀ x ∈ ((ran calls).channel e).listeners,
    x.1 < ((ran calls).channel e).nextId
  fresh : (({} : Bus κ).handles calls).Pairwise fun c d =>
    c.event = d.event → c.id < d.id
  lasting : ∀ earlier e k since, calls = earlier ++ .connect e k :: since →
    ∃ c, ((ran earlier).serve (.connect e k)).1 = .issued c ∧ c.event = e ∧
      Lasting earlier c k since (ran calls)
  places : ∀ e, (ran calls).places e =
    (({} : Bus κ).handles calls).filter fun c =>
    c.event = e ∧ (ran calls).isConnected c = true
  count : ∀ e, (ran calls).listenerCount e =
    ((({} : Bus κ).handles calls).filter fun c =>
    c.event = e ∧ (ran calls).isConnected c = true).length
  apart : ∀ e, (ran calls).channel e =
    (ran (calls.filter fun call => call.event = e)).channel e
  answers : ∀ call, ((ran calls).serve call).1 =
    ((ran (calls.filter fun other => other.event = call.event)).serve call).1

/-- Putting a channel where it is already changes nothing. -/
theorem update_channel? {b : Bus κ} {e : Event} {c : Channel κ}
    (h : b.channel? e = some c) :
    b.update e c = b := by
  have hchannels : b.channels.insert e c = b.channels := by
    refine SortedMap.ext_get? fun f => ?_
    rw [SortedMap.get?_insert]
    split
    · next hf => exact hf ▸ h.symm
    · rfl
  cases b
  exact congrArg Bus.mk hchannels

/-- A disconnection that finds nobody changes nothing. -/
theorem disconnect_of_not_connected {b : Bus κ} {c : Connection}
    (h : b.isConnected c = false) :
    b.disconnect c = (false, b) := by
  unfold disconnect
  cases hc : b.channel? c.event with
  | none => rfl
  | some channel =>
      have hchannel : b.channel c.event = channel := by simp [Bus.channel, hc]
      have hgone : channel.isConnected c.id = false := by rwa [← hchannel]
      have hsame : channel.disconnect c.id = (false, channel) := by
        simp [Channel.disconnect, hgone]
      show ((channel.disconnect c.id).1,
        b.update c.event (channel.disconnect c.id).2) = _
      rw [hsame, update_channel? hc]

/-- A disconnection that finds a listener drops it and keeps the others in their
order. -/
theorem disconnect_of_connected {b : Bus κ} {c : Connection}
    (hb : (b.channel c.event).Sound) (h : b.isConnected c = true) :
    (b.disconnect c).1 = true ∧ ((b.disconnect c).2.channel c.event).listeners =
      (b.channel c.event).listeners.filter (·.1 ≠ c.id) := by
  have hfound : (b.channel c.event).isConnected c.id = true := h
  constructor
  · have hanswer := answer_serve b (.disconnect c)
    have hflag : (BusAnswer.flag (b.disconnect c).1 : BusAnswer κ) =
      .flag ((b.channel c.event).disconnect c.id).1 := hanswer
    rw [BusAnswer.flag.inj hflag]
    simp [Channel.disconnect, hfound]
  · rw [channel_disconnect, if_pos rfl, Channel.listeners_disconnect hb]

/-- A handle that was issued for a listener names it until it is
disconnected. -/
theorem lasting_ran (earlier : List (BusCall κ)) (e : Event) (k : κ)
    (since : List (BusCall κ)) :
    Lasting earlier ⟨e, ((ran earlier).channel e).nextId⟩ k since
      (ran (earlier ++ .connect e k :: since)) := by
  set c : Connection := ⟨e, ((ran earlier).channel e).nextId⟩
  set made : Bus κ := ((ran earlier).serve (.connect e k)).2
  have hrun : ran (earlier ++ .connect e k :: since) = made.serveAll since :=
    ran_append _ _
  have hchannel : made.channel e = (((ran earlier).channel e).connect k).2 :=
    channel_serve_self (ran earlier) (.connect e k)
  have hsound : (made.channel e).Sound :=
    hchannel ▸ (sound_ran earlier e).connect k
  have hissued : c.id < (made.channel e).nextId := by
    rw [hchannel]
    exact Nat.lt_succ_self _
  have hmem : (c.id, k) ∈ (made.channel e).listeners := by
    rw [hchannel]
    simp [Channel.connect, c]
  have hstart : made.isConnected c = true :=
    (Channel.isConnected_iff _ _).2 ⟨(c.id, k), hmem, rfl⟩
  have hconnected : (made.serveAll since).isConnected c = true ↔
      .disconnect c ∉ since := by
    rw [isConnected_serveAll hsound hissued]
    simp [hstart]
  rw [hrun]
  refine { before := ?_, connected := hconnected, first := ?_, again := ?_ }
  · rintro calls ⟨later, rfl⟩
    refine isConnected_of_nextId_le (sound_ran calls e) ?_
    show _ ≤ ((ran (calls ++ later)).channel e).nextId
    rw [ran_append]
    exact nextId_le_serveAll _ later e
  · intro hkept
    have hb : ((made.serveAll since).channel e).Sound := hrun ▸ sound_ran _ e
    obtain ⟨hanswer, hrest⟩ := disconnect_of_connected hb (hconnected.2 hkept)
    exact ⟨congrArg BusAnswer.flag hanswer,
      (mem_listeners_serveAll hsound hissued since).2 ⟨hmem, hkept⟩, hrest⟩
  · intro hgone
    have hnot : (made.serveAll since).isConnected c = false := by
      rw [Bool.eq_false_iff]
      exact fun h => hconnected.1 h hgone
    have hsame := disconnect_of_not_connected hnot
    show (BusAnswer.flag _, _) = _
    rw [hsame]

/-- Some calls connected a listener to an event, and none disconnected it
since. -/
def Stays (calls : List (BusCall κ)) (e : Event) (x : Nat × κ) : Prop :=
  ∃ earlier since, calls = earlier ++ .connect e x.2 :: since ∧
    x.1 = ((ran earlier).channel e).nextId ∧ .disconnect ⟨e, x.1⟩ ∉ since

/-- After some calls exactly those listeners are there that were connected and
not disconnected since. -/
theorem mem_listeners_ran_iff (calls : List (BusCall κ)) (e : Event)
    (x : Nat × κ) :
    x ∈ ((ran calls).channel e).listeners ↔ Stays calls e x := by
  constructor
  · intro hx
    induction calls using List.reverseRecOn with
    | nil => cases hx
    | append_singleton calls call ih =>
        rw [ran_append] at hx
        have hx' : x ∈ (((ran calls).serve call).2.channel e).listeners := hx
        have hsound := sound_ran calls e
        rcases Nat.lt_or_ge x.1 ((ran calls).channel e).nextId with hlt | hge
        · obtain ⟨hbefore, hcall⟩ := (mem_listeners_serve hsound hlt call).1 hx'
          obtain ⟨earlier, since, rfl, hid, hkept⟩ := ih hbefore
          refine ⟨earlier, since ++ [call], by simp, hid, fun hgone => ?_⟩
          rcases List.mem_append.1 hgone with hgone | hgone
          · exact hkept hgone
          · exact hcall (List.mem_singleton.1 hgone).symm
        · have hnew : x ∉ ((ran calls).channel e).listeners := fun hold =>
            Nat.not_lt.2 hge (hsound.below x hold)
          by_cases hevent : call.event = e
          · subst hevent
            rw [channel_serve_self] at hx'
            cases call with
            | connect f k =>
                rcases List.mem_append.1 hx' with hold | hlast
                · exact absurd hold hnew
                · obtain rfl := List.mem_singleton.1 hlast
                  exact ⟨calls, [], rfl, rfl, by simp⟩
            | disconnect c =>
                exact absurd (Channel.mem_of_mem_disconnect hx') hnew
            | _ => exact absurd hx' hnew
          · rw [channel_serve_of_ne _ hevent] at hx'
            exact absurd hx' hnew
  · rintro ⟨earlier, since, rfl, hid, hkept⟩
    have hlasting := lasting_ran earlier e x.2 since
    rw [← hid] at hlasting
    exact (hlasting.first hkept).2.1

/-- The laws of connections hold after any calls. -/
theorem lawful (calls : List (BusCall κ)) : Lawful calls where
  sorted e := (sound_ran calls e).sorted
  below e := (sound_ran calls e).below
  fresh := handles_sorted {} calls
  lasting := by
    rintro earlier e k since rfl
    exact ⟨_, rfl, rfl, lasting_ran earlier e k since⟩
  places := places_ran calls
  count e := by
    rw [← places_ran]
    exact (List.length_map _).symm
  apart := channel_serveAll_filter {} calls
  answers call := by
    rw [answer_serve, answer_serve (ran (calls.filter _))]
    exact congrArg (fun c => (Channel.serve c call).1)
      (channel_serveAll_filter {} calls _)

end Bus

/-! ## The calls of a world -/

/-- The second world has on a bus what calls make of what the first one has. -/
def World.Serves (b : Nat) (w w' : World) : Prop :=
  ∃ calls, w'.bus b = (w.bus b).serveAll calls

/-- A move is a call on its bus, and none on the others. -/
theorem busAt_apply (buses : List (Bus Callback)) (m : Move) (b : Nat) :
    ∃ calls, busAt (m.apply buses) b = (busAt buses b).serveAll calls := by
  have hset : ∀ (c : Nat) (call : BusCall Callback),
      ∃ calls, busAt (buses.set c ((busAt buses c).serve call).2) b =
        (busAt buses b).serveAll calls := by
    intro c call
    rw [busAt_set]
    split
    · next h => exact ⟨[call], by rw [h.1]; rfl⟩
    · exact ⟨[], rfl⟩
  cases m with
  | openBus => exact ⟨[], busAt_openBus buses b⟩
  | openChannel c e => exact hset c (.channel e)
  | connect c e k => exact hset c (.connect e k)
  | disconnect c d => exact hset c (.disconnect d)

theorem World.Rewired.serves {w w' : World} (h : w.Rewired w') (b : Nat) :
    w.Serves b w' := by
  obtain ⟨moves, hmoves⟩ := h
  show ∃ calls, busAt w'.buses b = (busAt w.buses b).serveAll calls
  rw [hmoves]
  clear hmoves
  generalize w.buses = buses
  induction moves generalizing buses with
  | nil => exact ⟨[], rfl⟩
  | cons m moves ih =>
      obtain ⟨calls, hcalls⟩ := busAt_apply buses m b
      obtain ⟨later, hlater⟩ := ih (m.apply buses)
      refine ⟨calls ++ later, ?_⟩
      rw [Bus.serveAll_append, ← hcalls]
      exact hlater

/-! ## The calls of an announcement -/

section Announcement

variable (performer : Performer) (b : Nat) (s : Signal)

/-- An announcement goes over the listeners that it found: it looks at each of
them, and if it is still connected it is called, and what calls are made
meanwhile on the bus are its own. -/
inductive Turns : World → List (Nat × Callback) → List (BusCall Callback) →
    Nat → World → Prop
  | done (w : World) : Turns w [] [] 0 w
  | skipped {w w' : World} {x : Nat × Callback} {rest : List (Nat × Callback)}
      {calls : List (BusCall Callback)} {n : Nat}
      (gone : ((w.bus b).serve (.turn ⟨s.event, x.1⟩)).1 = .flag false)
      (later : Turns w rest calls n w') :
      Turns w (x :: rest) (.turn ⟨s.event, x.1⟩ :: calls) n w'
  | called {w w₁ w' : World} {x : Nat × Callback} {rest : List (Nat × Callback)}
      {own calls : List (BusCall Callback)} {n : Nat}
      (there : ((w.bus b).serve (.turn ⟨s.event, x.1⟩)).1 = .flag true)
      (call : (call performer x.2 (.signal s)).run w = .ok () w₁)
      (during : w₁.bus b = (w.bus b).serveAll own)
      (later : Turns w₁ rest calls n w') :
      Turns w (x :: rest) (.turn ⟨s.event, x.1⟩ :: (own ++ calls)) (n + 1) w'

end Announcement

variable {performer : Performer} {b : Nat} {s : Signal}

/-- The calls of an announcement make the bus what it is in the end. -/
theorem Turns.serves {w w' : World} {l : List (Nat × Callback)}
    {calls : List (BusCall Callback)} {n : Nat}
    (h : Turns performer b s w l calls n w') :
    w'.bus b = (w.bus b).serveAll calls := by
  induction h with
  | done w => rfl
  | skipped gone later ih => exact ih
  | @called w w₁ w' x rest own calls n there call during later ih =>
      calc
        w'.bus b = ((w.bus b).serveAll own).serveAll calls := by rw [ih, during]
        _ = (w.bus b).serveAll (own ++ calls) :=
          (Bus.serveAll_append _ _ _).symm

/-- A delivery goes over its listeners in turns. -/
theorem turns_of_deliver (hp : performer.Rewires) {l : List (Nat × Callback)} :
    ∀ {n : Nat} {w w' : World}, (deliverOn performer b s l).run w = .ok n w' →
      ∃ calls, Turns performer b s w l calls n w' := by
  induction l with
  | nil =>
      intro n w w' h
      cases h
      exact ⟨[], .done w⟩
  | cons x rest ih =>
      intro n w w' h
      rw [run_deliverOn_cons] at h
      by_cases hflag : (w.bus b).flag ⟨s.event, x.1⟩ = true
      · rw [if_pos hflag] at h
        obtain ⟨⟨⟩, w₁, hcall, h⟩ := run_bind_eq_ok_iff.1 h
        obtain ⟨m, w₂, hrun, h⟩ := run_bind_eq_ok_iff.1 h
        cases h
        obtain ⟨own, hown⟩ := (call_rewires hp hcall).serves b
        obtain ⟨calls, hcalls⟩ := ih hrun
        exact ⟨_, .called (congrArg BusAnswer.flag hflag) hcall hown hcalls⟩
      · rw [if_neg hflag] at h
        obtain ⟨calls, hcalls⟩ := ih h
        exact ⟨_,
          .skipped (congrArg BusAnswer.flag (Bool.eq_false_iff.2 hflag)) hcalls⟩

/-- An announcement finds the listeners that are connected as it begins and
makes no calls but the turns of these and those of the listeners it runs. -/
theorem turns_of_emitOn (depth : Nat) {n : Nat} {w w' : World}
    (h : (emitOn (perform depth) b s).run w = .ok n w') : ∃ calls,
      ((w.bus b).serve (.emit s.event)).1 = .found (w.listeners b s.event) ∧
        Turns (perform depth) b s w (w.listeners b s.event) calls n w' ∧
          w'.bus b = (w.bus b).serveAll (.emit s.event :: calls) := by
  rw [run_emitOn] at h
  obtain ⟨calls, hcalls⟩ := turns_of_deliver (perform_rewires depth) h
  exact ⟨calls, rfl, hcalls, hcalls.serves⟩

/-! ## The calls of a session -/

namespace World

/-- Two moves on one bus, made together. -/
theorem rewired_setBus (w : World) (b : Nat)
    (f g : Bus Callback → Bus Callback) (m m' : Move)
    (hm : ∀ buses, m.apply buses = buses.set b (f (busAt buses b)))
    (hm' : ∀ buses, m'.apply buses = buses.set b (g (busAt buses b))) :
    w.Rewired (w.setBus b (g (f (w.bus b)))) := by
  refine ⟨[m, m'], ?_⟩
  show w.buses.set b (g (f (busAt w.buses b))) = m'.apply (m.apply w.buses)
  rw [hm', hm, List.set_set, busAt_set]
  by_cases hlt : b < w.buses.length
  · rw [if_pos ⟨rfl, hlt⟩]
  · rw [List.set_eq_of_length_le (by omega),
      List.set_eq_of_length_le (by omega)]

theorem rewired_makeRunner (b : Nat) (dt : Duration) (w : World) :
    w.Rewired ((makeRunner b dt).left w) := by
  obtain ⟨runner, -, -, heq⟩ := left_makeRunner b dt w
  have hrewired := rewired_setBus w b (fun bus => (bus.connect .pause _).2)
    (fun bus => (bus.connect .stop _).2)
      (.connect b .pause (.pauseSwitch w.runners.length))
    (.connect b .stop (.stopSwitch w.runners.length)) (fun _ => rfl)
      (fun _ => rfl)
  rw [heq]
  exact hrewired

theorem rewired_dropRunner (r : Nat) (w : World) :
    w.Rewired ((dropRunner r).left w) := by
  rcases left_dropRunner r w with heq | ⟨runner, -, heq⟩
  · exact .of_buses_eq (congrArg World.buses heq)
  · have hrewired := rewired_setBus w runner.bus
      (fun bus => (bus.disconnect _).2) (fun bus => (bus.disconnect _).2)
      (.disconnect runner.bus ⟨.pause, runner.pauseConnection⟩)
      (.disconnect runner.bus ⟨.stop, runner.stopConnection⟩)
      (fun _ => rfl) (fun _ => rfl)
    rw [heq]
    exact hrewired

theorem buses_configureJoint (j : Nat) (ref : StoreRef) (e : Entity)
    (element : Element) (w : World) :
    ((configureJoint j ref e element).left w).buses = w.buses := by
  rcases left_configureJoint j ref e element w with
    heq | ⟨slot, s, log, -, -, heq⟩
  · rw [heq]
  · rw [heq]
    rfl

theorem buses_register (w : World) (r : Nat) (system : System) :
    (w.register r system).buses = w.buses := by
  obtain ⟨runners, -, heq⟩ := register_eq w r system
  rw [heq]

theorem buses_addJoint (label : Option String)
    (transport : TransportRef) (w : World) :
    ((Session.addJoint label transport).left w).buses = w.buses := by
  obtain ⟨names, -, heq⟩ := left_addJoint label transport w
  rw [heq]

/-- Only runners that are made or dropped rewire a bus, and they connect or
disconnect there. -/
theorem rewired_deed (d : Deed) (w : World) : w.Rewired (d.apply w) := by
  cases d with
  | makeRunner b dt => exact rewired_makeRunner b dt w
  | dropRunner r => exact rewired_dropRunner r w
  | call ref op =>
      rcases left_callStore ref op w with
        heq | ⟨s, reply, names, s', hs, hrun, heq⟩
      · exact .of_buses_eq (congrArg World.buses heq)
      · exact .of_buses_eq
          ((congrArg World.buses heq).trans (buses_setStore w ref s'))
  | copy ref target =>
      refine .of_buses_eq ?_
      simp only [Deed.apply]
      cases w.store? ref with
      | none => rfl
      | some s => exact buses_setStore w (.standalone target) s
  | turn j ref =>
      rcases left_updateJoint j ref w with heq | ⟨slot, s, y, -, -, -, heq⟩
      · exact .of_buses_eq (congrArg World.buses heq)
      · exact .of_buses_eq
          ((congrArg World.buses heq).trans (buses_settle w j ref _ y))
  | configure j ref e element =>
      exact .of_buses_eq (buses_configureJoint j ref e element w)
  | sweep r =>
      rcases left_applyRemovals r w with ⟨-, heq⟩ | ⟨s, -, heq⟩
      · exact .of_buses_eq (congrArg World.buses heq)
      · exact .of_buses_eq
          ((congrArg World.buses heq).trans (buses_setStore w _ _))
  | clock r info =>
      refine .of_buses_eq ?_
      simp only [Deed.apply, setClock]
      cases w.runner? r <;> rfl
  | makeJoint label transport =>
      exact .of_buses_eq (buses_addJoint label transport w)
  | enrol r label transport e element =>
      obtain ⟨entries, heq⟩ := left_enrol r label transport e element w
      refine .of_buses_eq ((congrArg World.buses heq).trans ?_)
      rw [buses_register, buses_configureJoint]
      exact buses_addJoint label transport w
  | enlistScript r name update => exact .of_buses_eq (buses_register w r _)
  | enlistInert r => exact .of_buses_eq (buses_register w r _)

theorem Path.rewired {P : World → Deed → Prop} {u v : World} (h : Path P u v) :
    u.Rewired v := by
  induction h with
  | refl => exact rewired_chained.refl u
  | react _ reaction ih => exact rewired_chained.trans ih reaction.buses
  | deed _ _ ih => exact rewired_chained.trans ih (rewired_deed _ _)

end World

/-- Every bus of a session is what calls have made of an empty one. -/
theorem Session.exists_ran (requests : List Request) (b : Nat) :
    ∃ calls, (after {} requests).bus b = Bus.ran calls :=
  (World.Path.rewired (reachable_after requests)).serves b

/-- Connections name one listener for ever and channels are apart, in every run
of calls on a bus. Every bus of a session has such a run, and an announcement
adds nothing to it but its turns and the calls of the listeners that it runs. -/
theorem connections_last :
    (∀ calls : List (BusCall Callback), Bus.Lawful calls) ∧
      (∀ (requests : List Request) (b : Nat),
        ∃ calls, (Session.after {} requests).bus b = Bus.ran calls) ∧
      ∀ (depth b : Nat) (s : Signal) (n : Nat) (w w' : World),
        (emitOn (perform depth) b s).run w = .ok n w' → ∃ calls,
          ((w.bus b).serve (.emit s.event)).1 = .found (w.listeners b s.event) ∧
            Turns (perform depth) b s w (w.listeners b s.event) calls n w' ∧
              w'.bus b = (w.bus b).serveAll (.emit s.event :: calls) :=
  ⟨Bus.lawful, Session.exists_ran, fun depth _ _ _ _ _ => turns_of_emitOn depth⟩

end Linkage
