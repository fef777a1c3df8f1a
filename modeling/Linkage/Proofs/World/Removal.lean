import Linkage.Proofs.Joint.Custody
import Linkage.Proofs.World.Moments

/-!
# Removals in a step

While the systems of a runner take their turns, removals are asked for, by
scripts and by joints, of live and of dead entities, of entities made in the
same step, and again and again. None of this takes an entity away. After the
last turn all that was asked for is applied at once, and only then is each
removal announced, once, in the order in which the removals were first asked
for.

What is asked for is read off the calls that are made and not off the store: a
request counts if it names an entity that is live when it is made.

## Main results

* `World.Waiting.store`: what becomes of a store while removals wait.
* `System.waits`, `waits_of_step`: what the systems of a step ask for.
* `removals_of_step`: a step removes exactly what was asked for, and announces
  it once.
-/

namespace Linkage

open Act

/-! ## The store while removals wait -/

namespace Store

variable {s t u : Store} {asked later : List Entity} {e : Entity}

/-- Another request counts if it is the first for its entity. -/
theorem eraseDups_concat (asked : List Entity) (e : Entity) :
    (asked ++ [e]).eraseDups = if e ∈ asked then asked.eraseDups
    else asked.eraseDups ++ [e] := by
  rw [List.eraseDups_append]
  by_cases he : e ∈ asked
  · simp [List.removeAll, he]
  · simp [List.removeAll, he, List.eraseDups_cons]

/-- The second store comes from the first while removals are asked for and not
applied: nothing disappears, and every request waits at the place of the first
for its entity. -/
structure Waits (s : Store) (asked : List Entity) (t : Store) : Prop where
  keeps : ∀ e, s.has e = true → t.has e = true
  pending : ∀ before : List Entity, s.pending = before.eraseDups →
    t.pending = (before ++ asked).eraseDups

namespace Waits

theorem refl (s : Store) : s.Waits [] s :=
  { keeps := fun _ => id
    pending := fun before h => by rw [h, List.append_nil] }

theorem trans (h : s.Waits asked t) (h' : t.Waits later u) :
    s.Waits (asked ++ later) u :=
  { keeps := fun e he => h'.keeps e (h.keeps e he)
    pending := fun before hs => by rw [h'.pending _ (h.pending before hs),
      List.append_assoc] }

/-- Where nothing is asked for, live entities stay live and pending removals
stay pending. -/
theorem of_pending (hkeeps : ∀ e, s.has e = true → t.has e = true)
    (h : t.pending = s.pending) :
    s.Waits [] t :=
  { keeps := hkeeps
    pending := fun before hs => by rw [h, hs, List.append_nil] }

theorem create (hs : s.Sound) : s.Waits [] s.create.2 :=
  .of_pending (fun e he => (has_create hs e).2 (.inr he)) rfl

theorem attach (s : Store) (e : Entity) (change : Components → Components) :
    s.Waits [] (s.attach e change) :=
  .of_pending (fun f hf => (has_attach s e f change).trans hf)
    (pending_attach s e change)

/-- A request counts if the entity is live. -/
theorem requestRemoval (s : Store) (e : Entity) :
    s.Waits ([e].filter s.has) (s.requestRemoval e) := by
  refine { keeps := fun f hf => (has_requestRemoval s e f).trans hf,
           pending := ?_ }
  intro before hs
  have hmem : e ∈ s.pending ↔ e ∈ before := by rw [hs, List.mem_eraseDups]
  rw [pending_requestRemoval, hs] at *
  by_cases he : s.has e = true
  · rw [List.filter_cons_of_pos he, List.filter_nil, eraseDups_concat]
    simp only [he, true_and, List.mem_eraseDups]
    by_cases hb : e ∈ before <;> simp [hb]
  · simp [he]

/-- Calls that add entities and components ask for nothing. -/
theorem plain (hs : s.Sound) (h : s.PlainlyFrom t) : s.Waits [] t := by
  obtain ⟨calls, rfl, hplain⟩ := h
  induction calls generalizing s with
  | nil => exact refl s
  | cons call calls ih =>
      have hlater := ih (hs.serve call) fun c hc => hplain c (by simp [hc])
      have hcall := hplain call (by simp)
      have hfirst : s.Waits [] (s.serve call).2 := by
        cases call with
        | create => exact create hs
        | attach e a =>
            exact .of_pending (fun f hf => (has_put s e a f).trans hf)
              (pending_put s e a)
        | requestRemoval e => exact absurd hcall id
        | applyRemovals => exact absurd hcall id
      exact hfirst.trans hlater

end Waits

end Store

/-! ## Requests -/

namespace StoreAction

/-- Whether the call applies the removals asked for. -/
def applies : StoreAction → Bool
  | .process => true
  | _ => false

/-- The live entity whose removal the call asks for. -/
def requests (names : Names) (s : Store) (op : StoreAction) : List Entity :=
  (op.removes?.bind names.entity?).toList.filter s.has

/-- A call that names an unknown entity asks for nothing. -/
theorem requests_of_unknown {op : StoreAction} {names : Names} {s : Store}
    (h : op.run? names s = none) : op.requests names s = [] := by
  cases op with
  | remove ref =>
      have hunknown : names.entity? ref = none := by
        cases he : names.entity? ref with
        | none => rfl
        | some e => simp [run?, he] at h
      simp [requests, removes?, hunknown]
  | _ => rfl

/-- A call that does not apply removals leaves them waiting. -/
theorem waits_of_run? {op : StoreAction} {names names' : Names} {s s' : Store}
    {reply : Reply} (h : op.run? names s = some (reply, names', s'))
    (hs : s.Sound) (hop : op.applies = false) :
    s.Waits (op.requests names s) s' := by
  have hnone : op.removes? = none → op.requests names s = [] := fun h => by
    simp [requests, h]
  cases hremoves : op.removes? with
  | some ref =>
      cases op with
      | remove target =>
          cases hremoves
          simp only [run?, Option.bind_eq_bind, Option.bind_eq_some_iff] at h
          obtain ⟨e, he, h⟩ := h
          cases h
          have hrequests : requests names s (.remove ref) =
              [e].filter s.has := by
            simp [requests, removes?, he]
          rw [hrequests]
          exact .requestRemoval s e
      | _ => cases hremoves
  | none =>
      rw [hnone hremoves]
      rcases (StoreAction.run?_cases h).2 with hplain | ⟨ref, e, rfl, -, -⟩ |
        ⟨a, b, c, kind, e, joint, -, rfl⟩ | ⟨rfl, -⟩
      · exact .plain hs hplain
      · cases hremoves
      · exact .attach s e _
      · cases hop

end StoreAction

namespace Controller

/-- The entity whose removal a call asks for. -/
def Call.requested? : Call → Option Entity
  | .requestRemoval e => some e
  | _ => none

/-- A turn asks for the removals that are among its calls. -/
theorem Turn.waits {κ : Type} {callback : κ} {x y : Situation κ}
    (h : Turn callback x y) (hs : x.store.Sound) (hcalls : x.calls = []) :
    x.store.Waits ((y.calls.filterMap Call.requested?).filter y.store.has)
      y.store := by
  have hmade : ∀ joint : Joint, x.store.Waits []
      (x.store.create.2.setJoint x.store.create.1 joint) := fun joint =>
    (Store.Waits.create hs).trans (.attach x.store.create.2 _ _)
  have hasked : ∀ (s : Store) (e : Entity),
      s.Waits ([e].filter (s.requestRemoval e).has) (s.requestRemoval e) := by
    intro s e
    have hsame : (s.requestRemoval e).has = s.has :=
      funext fun f => Store.has_requestRemoval s e f
    rw [hsame]
    exact .requestRemoval s e
  cases h with
  | idle _ =>
      rw [hcalls]
      exact .refl x.store
  | attach _ _ =>
      simp only [Situation.attached, hcalls]
      exact hmade _
  | attachAndLetGo _ _ =>
      simp only [Situation.released, Situation.attached, hcalls]
      exact (hmade _).trans (hasked _ _)
  | letGo _ _ _ =>
      simp only [Situation.released, hcalls]
      exact hasked _ _

end Controller

namespace Deed

/-- The live entities whose removal from the store of a runner a deed asks for,
in order. -/
def requests (r : Nat) (w : World) : Deed → List Entity
  | .call ref op => if ref = .runner r then
      ((w.store? ref).toList.flatMap fun s => op.requests w.names s) else []
  | .turn j ref => if ref = .runner r then
      (w.joints[j]?).toList.flatMap fun slot =>
        (w.store? ref).toList.flatMap fun s =>
        let after := Controller.preUpdate (.detach j) (w.situation slot s)
        (after.calls.filterMap Controller.Call.requested?).filter
          after.store.has
      else []
  | _ => []

/-- The deed leaves the removals waiting that were asked for in the store of a
runner. -/
def Defers (r : Nat) : Deed → Prop
  | .call ref op => ref = .runner r → op.applies = false
  | .sweep q => q ≠ r
  | .dropRunner q => q ≠ r
  | _ => True

end Deed

namespace World

variable {r : Nat} {u v w : World} {asked later : List Entity} {s t : Store}

/-- Another store in place, which waits if it is the runner's. -/
theorem waits_of_setStore {ref : StoreRef} {s₁ t₁ : Store}
    (hs : w.store? ref = some s₁) (hwaits : ref = .runner r → s₁.Waits asked t₁)
    (hother : ref ≠ .runner r → asked = [])
    (ht : (w.setStore ref t₁).store? (.runner r) = some t) :
    ∃ s, w.store? (.runner r) = some s ∧ s.Waits asked t := by
  rw [store?_setStore w hs] at ht
  by_cases href : ref = .runner r
  · subst href
    rw [if_pos rfl] at ht
    cases ht
    exact ⟨s₁, hs, hwaits rfl⟩
  · rw [if_neg (Ne.symm href)] at ht
    rw [hother href]
    exact ⟨t, ht, .refl t⟩

theorem waits_of_call (hw : w.Sound) {ref : StoreRef} {op : StoreAction}
    (hd : (Deed.call ref op).Defers r)
    (ht : ((callStore ref op).left w).store? (.runner r) = some t) :
    ∃ s, w.store? (.runner r) = some s ∧
      s.Waits ((Deed.call ref op).requests r w) t := by
  have hother : ref ≠ .runner r → (Deed.call ref op).requests r w = [] :=
    fun h => if_neg h
  unfold callStore at ht
  rw [left_change] at ht
  cases hs : w.store? ref with
  | none =>
      rw [hs] at ht
      have href : ref ≠ .runner r := by
        rintro rfl
        rw [hs] at ht
        cases ht
      rw [hother href]
      exact ⟨t, ht, .refl t⟩
  | some s =>
      have hrequests : ref = .runner r →
          (Deed.call ref op).requests r w = op.requests w.names s := by
        intro href
        simp only [Deed.requests, href, if_true]
        rw [← href, hs]
        simp
      cases hrun : op.run? w.names s with
      | none =>
          simp only [hs, hrun] at ht
          refine ⟨t, ht, ?_⟩
          by_cases href : ref = .runner r
          · rw [hrequests href, StoreAction.requests_of_unknown hrun]
            exact .refl t
          · rw [hother href]
            exact .refl t
      | some done =>
          obtain ⟨reply, names, s'⟩ := done
          simp only [hs, hrun] at ht
          refine waits_of_setStore hs (fun href => ?_) hother ht
          rw [hrequests href]
          exact StoreAction.waits_of_run? hrun (hw.stores hs) (hd href)

theorem waits_of_turn (hw : w.Sound) {j : Nat} {ref : StoreRef}
    (ht : ((updateJoint j ref).left w).store? (.runner r) = some t) :
    ∃ s, w.store? (.runner r) = some s ∧
      s.Waits ((Deed.turn j ref).requests r w) t := by
  by_cases href : ref = .runner r
  · subst href
    cases hslot : w.joints[j]? with
    | none =>
        have hidle : (updateJoint j (.runner r)).left w = w := by
          simp [updateJoint, hslot]
        have hnone : (Deed.turn j (.runner r)).requests r w = [] := by
          simp [Deed.requests, hslot]
        rw [hidle] at ht
        rw [hnone]
        exact ⟨t, ht, .refl t⟩
    | some slot =>
        cases hs : w.store? (.runner r) with
        | none =>
            have hidle : (updateJoint j (.runner r)).left w = w := by
              simp [updateJoint, hslot, hs]
            rw [hidle, hs] at ht
            cases ht
        | some s =>
            rw [left_updateJoint_eq hslot hs, store?_settle _ _ _ _ _ hs,
              if_pos rfl] at ht
            cases ht
            have hrequests : (Deed.turn j (.runner r)).requests r w =
                ((Controller.preUpdate (.detach j)
                  (w.situation slot s)).calls.filterMap
                  Controller.Call.requested?).filter
                    (Controller.preUpdate (.detach j)
                      (w.situation slot s)).store.has := by
              simp [Deed.requests, hslot, hs]
            have hturn :=
              Controller.preUpdate_turn (Callback.detach j) (w.situation slot s)
            rw [hrequests]
            exact ⟨s, rfl, hturn.waits (hw.stores hs) rfl⟩
  · have hnone : (Deed.turn j ref).requests r w = [] := if_neg href
    rw [hnone]
    rcases left_updateJoint j ref w with heq | ⟨slot, s, y, -, hs, -, heq⟩
    · rw [heq] at ht
      exact ⟨t, ht, .refl t⟩
    · rw [heq, store?_settle _ _ _ _ _ hs, if_neg (Ne.symm href)] at ht
      exact ⟨t, ht, .refl t⟩

/-- What a deed that applies no removals makes of the store of a runner, unless
it makes the runner. -/
theorem waits_of_deed (hw : w.Sound) {d : Deed} (hd : d.Defers r)
    (ht : (d.apply w).store? (.runner r) = some t) :
    (∃ s, w.store? (.runner r) = some s ∧ s.Waits (d.requests r w) t) ∨
      (r = w.runners.length ∧ t = {}) := by
  have hsame : w.store? (.runner r) = some t →
      ∃ s, w.store? (.runner r) = some s ∧ s.Waits [] t :=
    fun h => ⟨t, h, .refl t⟩
  cases d with
  | call ref op => exact .inl (waits_of_call hw hd ht)
  | turn j ref => exact .inl (waits_of_turn hw ht)
  | copy ref target =>
      simp only [Deed.apply] at ht
      cases hs : w.store? ref with
      | none =>
          rw [hs] at ht
          exact .inl (hsame ht)
      | some s =>
          rw [hs] at ht
          have htarget : w.store? (.standalone target) =
              some ((w.stores.get? target).getD {}) := rfl
          refine .inl
            (waits_of_setStore htarget (fun href => ?_) (fun _ => rfl) ht)
          cases href
  | configure i ref model element =>
      simp only [Deed.apply, store?_configureJoint] at ht
      exact .inl (hsame ht)
  | sweep q =>
      simp only [Deed.apply] at ht
      rcases left_applyRemovals q w with ⟨-, heq⟩ | ⟨s, hs, heq⟩
      · rw [heq] at ht
        exact .inl (hsame ht)
      · rw [heq] at ht
        exact .inl (waits_of_setStore hs (fun h => absurd (by cases h; rfl) hd)
          (fun _ => rfl) ht)
  | clock q info =>
      simp only [Deed.apply, store?_setClock] at ht
      exact .inl (hsame ht)
  | makeJoint label transport =>
      obtain ⟨names, -, heq⟩ := left_addJoint label transport w
      simp only [Deed.apply, heq] at ht
      exact .inl (hsame ht)
  | enrol q label transport model element =>
      obtain ⟨entries, heq⟩ := left_enrol q label transport model element w
      obtain ⟨names, -, hadd⟩ := left_addJoint label transport w
      simp only [Deed.apply, heq] at ht
      have hbefore := store?_register ht
      rw [store?_configureJoint, hadd] at hbefore
      exact .inl (hsame hbefore)
  | enlistScript q name update => exact .inl (hsame (store?_register ht))
  | enlistInert q => exact .inl (hsame (store?_register ht))
  | makeRunner b dt =>
      obtain ⟨runner, hempty, -, heq⟩ := left_makeRunner b dt w
      have hrunner : ((makeRunner b dt).left w).runner? r =
          if r = w.runners.length then some runner else w.runner? r := by
        rw [heq]
        exact runner?_append w runner r
      simp only [Deed.apply, store?, hrunner] at ht
      split at ht
      · next hr =>
        cases ht
        exact .inr ⟨hr, hempty⟩
      · exact .inl (hsame ht)
  | dropRunner q =>
      simp only [Deed.apply] at ht
      rcases left_dropRunner q w with heq | ⟨runner, hq, heq⟩
      · rw [heq] at ht
        exact .inl (hsame ht)
      · obtain ⟨b, hb, rfl⟩ := Option.map_eq_some_iff.1 ht
        have hne : r ≠ q := fun h => hd h.symm
        have hrunner : ((dropRunner q).left w).runner? r = w.runner? r := by
          rw [heq]
          exact (runner?_setRunner_of hq none r).trans (if_neg hne)
        rw [hrunner] at hb
        exact .inl (hsame (store?_of_runner? hb))

/-- From one world to another removals from the store of a runner are asked for,
in this order, and none is applied. -/
inductive Waiting (r : Nat) : World → List Entity → World → Prop
  | refl (w : World) : Waiting r w [] w
  | react {u v w : World} {asked : List Entity} (before : Waiting r u asked v)
      (reaction : v.Reaction w) : Waiting r u asked w
  | deed {u v : World} {asked : List Entity} {d : Deed}
      (before : Waiting r u asked v) (defers : d.Defers r) :
      Waiting r u (asked ++ d.requests r v) (d.apply v)

namespace Waiting

theorem trans (h : Waiting r u asked v) (h' : Waiting r v later w) :
    Waiting r u (asked ++ later) w := by
  induction h' with
  | refl => exact (List.append_nil asked).symm ▸ h
  | react _ reaction ih => exact .react ih reaction
  | deed _ defers ih => exact (List.append_assoc _ _ _) ▸ .deed ih defers

theorem of_reaction (h : u.Reaction v) : Waiting r u [] v := .react (.refl u) h

theorem of_deed {d : Deed} (h : d.Defers r) :
    Waiting r u (d.requests r u) (d.apply u) :=
  .deed (.refl u) h

theorem path (h : Waiting r u asked v) : Path (fun _ _ => True) u v := by
  induction h with
  | refl => exact .refl _
  | react _ reaction ih => exact .react ih reaction
  | deed _ _ ih => exact .deed ih trivial

/-- The store of a runner that was there at the start has waited. -/
theorem store (h : Waiting r u asked v) (hu : u.Sound)
    (hr : r < u.runners.length) (ht : v.store? (.runner r) = some t) :
    ∃ s, u.store? (.runner r) = some s ∧ s.Waits asked t := by
  induction h generalizing t with
  | refl => exact ⟨t, ht, .refl t⟩
  | react _ reaction ih => exact ih ((reaction.store? _).symm.trans ht)
  | deed before defers ih =>
      rcases waits_of_deed (before.path.sound hu) defers ht with
        ⟨s₁, hs₁, hwaits⟩ | ⟨hlast, -⟩
      · obtain ⟨s, hs, hbefore⟩ := ih hs₁
        exact ⟨s, hs, hbefore.trans hwaits⟩
      · have hgrown := before.path.onward.runners
        omega

end Waiting

/-- A deed that does not leave removals waiting leaves none pending. -/
theorem pending_of_not_defers {d : Deed} (hd : ¬ d.Defers r)
    (ht : (d.apply w).store? (.runner r) = some t) : t.pending = [] := by
  cases d with
  | call ref op =>
      obtain ⟨rfl, hop⟩ := Classical.not_imp.1 hd
      cases op with
      | process =>
          simp only [Deed.apply, callStore, left_change] at ht
          cases hs : w.store? (.runner r) with
          | none =>
              simp only [hs] at ht
              cases ht
          | some s =>
              simp only [hs, StoreAction.run?] at ht
              have hafter := store?_setStore w hs s.applyRemovals.2 (.runner r)
              rw [if_pos rfl] at hafter
              cases hafter.symm.trans ht
              rfl
      | _ => exact absurd rfl hop
  | sweep q =>
      obtain rfl : q = r := Classical.not_not.1 hd
      simp only [Deed.apply] at ht
      rcases left_applyRemovals q w with ⟨hno, heq⟩ | ⟨s, hs, heq⟩
      · rw [heq, hno] at ht
        cases ht
      · rw [heq, store?_setStore w hs, if_pos rfl] at ht
        cases ht
        rfl
  | dropRunner q =>
      obtain rfl : q = r := Classical.not_not.1 hd
      obtain ⟨b, hb, -⟩ := Option.map_eq_some_iff.1 ht
      simp only [Deed.apply, runner?_dropRunner] at hb
      cases hb
  | _ => exact absurd trivial hd

/-- Removals have been waiting in the store of every runner since there was none
pending. -/
theorem Reachable.exists_waiting (h : w.Reachable)
    (ht : w.store? (.runner r) = some t) :
    ∃ u s before, u.Reachable ∧ u.store? (.runner r) = some s ∧ s.pending = [] ∧
      Waiting r u before w := by
  unfold Reachable at h
  induction h generalizing t with
  | refl => cases ht
  | react before reaction ih =>
      obtain ⟨u, s, asked, hu, hs, hnone, hwaiting⟩ :=
        ih ((reaction.store? _).symm.trans ht)
      exact ⟨u, s, asked, hu, hs, hnone, .react hwaiting reaction⟩
  | @deed v d before _ ih =>
      have hnew : t.pending = [] → ∃ u s before, u.Reachable ∧
          u.store? (.runner r) = some s ∧
          s.pending = [] ∧ Waiting r u before (d.apply v) := fun hnone =>
        ⟨_, t, [], Reachable.deed before d, ht, hnone, .refl _⟩
      by_cases hd : d.Defers r
      · rcases waits_of_deed (Reachable.sound before) hd ht with
          ⟨s₁, hs₁, -⟩ | ⟨-, rfl⟩
        · obtain ⟨u, s, asked, hu, hs, hnone, hwaiting⟩ := ih hs₁
          exact ⟨u, s, _, hu, hs, hnone, .deed hwaiting hd⟩
        · exact hnew rfl
      · exact hnew (pending_of_not_defers hd ht)

end World

open World

/-! ## What systems ask for -/

/-- The live entities whose removal from the store of its runner an action of a
system asks for. -/
def Action.requests (r : Nat) (w : World) : Action → List Entity
  | .onStore op => (Deed.call (.runner r) op).requests r w
  | _ => []

/-- Whether the action applies the removals asked for. -/
def Action.applies : Action → Bool
  | .onStore op => op.applies
  | _ => false

/-- The live entities whose removal the actions of a system ask for, each action
met in the world that the ones before it leave. -/
def scriptRequests (performer : Performer) (r : Nat) (name : String)
    (iteration : Option Nat) :
    Nat → List Scheduled → World → List Entity
  | _, [], _ => []
  | index, a :: rest, w =>
      if a.only = none ∨ a.only = iteration then
        let acted := performer (some (.runner r)) a.action >>= fun reply =>
          Act.record (.systemActed name index reply)
        a.action.requests r w ++
          scriptRequests performer r name iteration (index + 1) rest
            (acted.left w)
      else scriptRequests performer r name iteration (index + 1) rest w

namespace System

/-- The live entities whose removal a system asks for in its turn. -/
def requests (performer : Performer) (r : Nat) (info : StepInfo) (w : World) :
    System → List Entity
  | .joint j => (Deed.turn j (.runner r)).requests r w
  | .inert => []
  | .script name update =>
      scriptRequests performer r name (some info.iterations) 0 update
      (w.record (.updated name info))

/-- The system does not apply removals by itself. -/
def Defers : System → Prop
  | .script _ update => ∀ a ∈ update, a.action.applies = false
  | _ => True

instance : DecidablePred Defers
  | .joint _ => isTrue trivial
  | .inert => isTrue trivial
  | .script _ update =>
      inferInstanceAs (Decidable (∀ a ∈ update, a.action.applies = false))

end System

section Turns

variable {r depth : Nat} {v w : World}

theorem waiting_of_perform {a : Action} (h : a.applies = false)
    (depth : Nat) (w : World) :
    Waiting r w (a.requests r w)
      ((perform (depth + 1) (some (.runner r)) a).left w) := by
  by_cases hstore : ∃ op, a = .onStore op
  · obtain ⟨op, rfl⟩ := hstore
    exact .of_deed (d := .call (.runner r) op) fun _ => h
  · have hsame : perform (depth + 1) (some (.runner r)) a =
        performWith (perform depth) none a :=
      performWith_some _ _ fun op heq => hstore ⟨op, heq⟩
    have hnone : a.requests r w = [] := by
      cases a with
      | onStore op => exact absurd ⟨op, rfl⟩ hstore
      | _ => rfl
    rw [hsame, hnone]
    exact .of_reaction (performWith_reaction (perform_reaction depth) a w)

theorem waiting_of_script {name : String} {iteration : Option Nat} :
    ∀ {index : Nat} {script : List Scheduled} {w : World},
      (∀ a ∈ script, a.action.applies = false) →
      (playSystem (perform (depth + 1)) r name iteration index script).run w =
        .ok () v →
      Waiting r w (scriptRequests (perform (depth + 1)) r name iteration
        index script w) v
  | _, [], _, _, h => by
      cases h
      exact .refl _
  | index, a :: rest, w, hdefers, h => by
      have hrest : ∀ b ∈ rest, b.action.applies = false :=
        fun b hb => hdefers b (by simp [hb])
      unfold playSystem at h
      unfold scriptRequests
      by_cases hnow : a.only = none ∨ a.only = iteration
      · simp only [hnow, if_true] at h ⊢
        obtain ⟨reply, w₁, hact, h⟩ := run_bind_eq_ok_iff.1 h
        obtain ⟨⟨⟩, w₂, hrecord, h⟩ := run_bind_eq_ok_iff.1 h
        have hfirst := waiting_of_perform (r := r) (hdefers a (by simp)) depth w
        have hacted :
            (perform (depth + 1) (some (.runner r)) a.action >>= fun reply =>
            Act.record (.systemActed name index reply)).left w = w₂ :=
          left_of_ok (run_bind_eq_ok_iff.2 ⟨reply, w₁, hact, hrecord⟩)
        rw [left_of_ok hact] at hfirst
        rw [hacted]
        have hrecorded : w₁.Reaction w₂ :=
          (record_keeps reaction_reactive _).of_ok hrecord
        exact (Waiting.react hfirst hrecorded).trans (waiting_of_script hrest h)
      · simp only [hnow, if_false] at h ⊢
        exact waiting_of_script hrest h

/-- In its turn a system asks for removals and applies none. -/
theorem waiting_of_system {system : System} {info : StepInfo}
    (hdefers : system.Defers)
    (h : (updateSystem (perform (depth + 1)) r info system).run w = .ok () v) :
    Waiting r w (system.requests (perform (depth + 1)) r info w) v := by
  cases system with
  | joint j =>
      have hturn := Waiting.of_deed (u := w) (r := r)
        (d := .turn j (.runner r)) trivial
      rw [← left_of_ok h]
      exact hturn
  | inert =>
      cases h
      exact .refl _
  | script name update =>
      obtain ⟨⟨⟩, w₁, hrecord, h⟩ := run_bind_eq_ok_iff.1 h
      have hrecorded : w.Reaction w₁ :=
        (record_keeps reaction_reactive _).of_ok hrecord
      cases hrecord
      exact (Waiting.of_reaction hrecorded).trans (waiting_of_script hdefers h)

end Turns

namespace World

/-- The live entities whose removal the system at a place of a runner asks for
in a step. -/
def requestsAt (w : World) (r p : Nat) : List Entity :=
  (w.runner? r).toList.flatMap fun a =>
    (a.systems[p]?).toList.flatMap fun system =>
    system.requests (perform (w.weight + systemsWeight a.systems + 1)) r a.info
      (w.atTurn r p)

/-- The live entities whose removal the systems of a runner ask for in a step,
in order. -/
def requestsIn (w : World) (r : Nat) : List Entity :=
  (w.runner? r).toList.flatMap fun a =>
    (List.range a.systems.length).flatMap (w.requestsAt r)

end World

/-! ## The end of a step -/

/-- The removals of entities are announced one after the other, each in a world
in which the runner has the store that is left when all of them are gone. -/
inductive Announced (performer : Performer) (r b : Nat) (s : Store) :
    World → List Entity → World → Prop
  | nil (w : World) : Announced performer r b s w [] w
  | cons {w v u : World} {e : Entity} {later : List Entity} {n : Nat}
      (store : w.store? (.runner r) = some s)
      (announced : (emitOn performer b (.removeFromStore e.raw)).run
        (w.report [⟨.debug, s!"removed entity {e.text}"⟩]) = .ok n v)
      (rest : Announced performer r b s v later u) :
      Announced performer r b s w (e :: later) u

/-- A step of a runner has removed the entities of a list: it came to one store
by the turns of the systems and left another. -/
structure Removes (w : World) (r : Nat) (a : Runner)
    (removed : List Entity) (t s : Store) (w' : World) : Prop where
  met : (w.atTurn r a.systems.length).store? (.runner r) = some t
  left : w'.store? (.runner r) = some s
  finds : ∀ p, ∃ u, (w.atTurn r p).store? (.runner r) = some u ∧
    ∀ e, a.store.has e = true → u.has e = true
  live : ∀ e ∈ removed, t.has e = true
  remains : ∀ e, s.has e = true ↔ t.has e = true ∧ e ∉ removed
  count : s.size + removed.length = t.size
  once : removed.Nodup
  announced : ∃ v,
      Announced (perform (w.weight + systemsWeight a.systems + 1)) r a.bus s
      ((applyRemovals r).left (w.atTurn r a.systems.length)) removed v ∧
    (announceSnapshot (perform (w.weight + systemsWeight a.systems + 1)) r
      a.bus a.info >>=
      fun _ => advance r).run v = .ok () w'
  settled : s.pending = []

/-- Applying removals makes the store smaller by the entities that were
pending. -/
theorem Store.Sound.size_applyRemovals {s : Store} (h : s.Sound) :
    s.applyRemovals.2.size + s.pending.length = s.size := by
  simp only [Store.size_eq_length_live]
  have hperm : (s.applyRemovals.2.pool.live ++ s.pending).Perm s.pool.live := by
    refine (List.perm_ext_iff_of_nodup ?_ s.pool.live_nodup).2 fun e => ?_
    · refine List.nodup_append.2 ⟨Pool.live_nodup _, h.pending_nodup, ?_⟩
      rintro e he f hf rfl
      exact ((Store.has_applyRemovals s e).1
        ((Store.mem_live_iff_has _ e).1 he)).1 hf
    · rw [List.mem_append, Store.mem_live_iff_has, Store.mem_live_iff_has,
        Store.has_applyRemovals]
      by_cases he : e ∈ s.pending
      · simp [he, h.pending_live e he]
      · simp [he]
  rw [← hperm.length_eq, List.length_append]

section Step

variable {w w' : World} {r : Nat} {a : Runner}

/-- A step that is done ends with the sweep, the announcements of the removals,
the snapshot and the clock. -/
theorem sweep_of_step (h : (step r).run w = .ok true w')
    (ha : w.runner? r = some a) {t : Store}
    (ht : (w.atTurn r a.systems.length).store? (.runner r) = some t) :
    ∃ v,
      (t.pending.forM
        (announceRemoval (perform (w.weight + systemsWeight a.systems + 1))
        a.bus)).run ((applyRemovals r).left (w.atTurn r a.systems.length)) =
          .ok () v ∧
      (announceSnapshot (perform (w.weight + systemsWeight a.systems + 1)) r
        a.bus a.info >>=
        fun _ => advance r).run v = .ok () w' := by
  obtain ⟨b, -, -, -, hb, hgo, -⟩ := phases_of_step h
  cases ha.symm.trans hb
  rw [run_step ha hgo] at h
  obtain ⟨⟨⟩, v', hphases, hdone⟩ := run_bind_eq_ok_iff.1 h
  cases hdone
  obtain ⟨⟨⟩, w₁, hturns, h₁⟩ := run_bind_eq_ok_iff.1 hphases
  obtain ⟨removed, w₂, hsweep, h₂⟩ := run_bind_eq_ok_iff.1 h₁
  obtain ⟨⟨⟩, v, hremoved, h₃⟩ := run_bind_eq_ok_iff.1 h₂
  have hlast : w.atTurn r a.systems.length = w₁ := by
    rw [atTurn_of_runner ha, List.take_length]
    exact left_of_ok hturns
  rw [hlast] at ht ⊢
  have hswept : removed = t.pending := by
    have hresult : (applyRemovals r).run w₁ =
        .ok t.pending (w₁.setStore (.runner r) t.applyRemovals.2) := by
      show EStateM.Result.ok _ _ = _
      simp only [ht]
      rfl
    rw [hresult] at hsweep
    cases hsweep
    rfl
  subst hswept
  rw [left_of_ok hsweep]
  exact ⟨v, hremoved, h₃⟩

/-- The removals of a step are announced in their order, and reactions leave the
store alone. -/
theorem announced_of_run {depth b : Nat} {s : Store} :
    ∀ {removed : List Entity} {w v : World},
    w.store? (.runner r) = some s →
    (removed.forM (announceRemoval (perform depth) b)).run w = .ok () v →
    Announced (perform depth) r b s w removed v ∧ v.store? (.runner r) = some s
  | [], w, v, hs, h => by
      cases h
      exact ⟨.nil w, hs⟩
  | e :: removed, w, v, hs, h => by
      obtain ⟨⟨⟩, w₁, hfirst, hrest⟩ := run_bind_eq_ok_iff.1
        (show (announceRemoval (perform depth) b e >>= fun _ =>
          removed.forM (announceRemoval (perform depth) b)).run w =
            .ok () v from h)
      have hreaction :=
        (announceRemoval_keeps reaction_reactive depth b e).of_ok hfirst
      obtain ⟨hlater, hv⟩ :=
        announced_of_run ((hreaction.store? _).trans hs) hrest
      obtain ⟨⟨⟩, w₂, hlog, hemit⟩ := run_bind_eq_ok_iff.1 hfirst
      obtain ⟨n, w₃, hemit, hdone⟩ := run_bind_eq_ok_iff.1 hemit
      cases hlog
      cases hdone
      exact ⟨.cons hs hemit hlater, hv⟩

/-- In a step the systems before a place ask for their removals in order, and
none is applied. -/
theorem waiting_of_step (h : (step r).run w = .ok true w')
    (ha : w.runner? r = some a)
    (hdefers : ∀ system ∈ a.systems, system.Defers) :
    ∀ p, Waiting r w ((List.range p).flatMap (w.requestsAt r)) (w.atTurn r p)
  | 0 => by
      rw [atTurn_zero]
      exact .refl w
  | p + 1 => by
      have hbefore := waiting_of_step h ha hdefers p
      rw [List.range_succ, List.flatMap_append, List.flatMap_singleton]
      cases hp : a.systems[p]? with
      | none =>
          have hnone : w.requestsAt r p = [] := by simp [requestsAt, ha, hp]
          rw [atTurn_of_length_le ha (List.getElem?_eq_none_iff.1 hp), hnone,
            List.append_nil]
          exact hbefore
      | some system =>
          have hrequests : w.requestsAt r p = system.requests
              (perform (w.weight + systemsWeight a.systems + 1)) r a.info
                (w.atTurn r p) := by
            simp [requestsAt, ha, hp]
          rw [hrequests]
          exact hbefore.trans
            (waiting_of_system (hdefers system (List.mem_of_getElem? hp))
            (run_turn_of_step h ha hp))

/-- Removals are asked for, in this order, from a world in which none is
pending, and then a step is done. It removes exactly the live entities that were
asked for before it and in it, none of them before the last system has taken its
turn; it announces each of them once, under its number, in the order in which
they were first asked for, when all of them are gone; and nothing stays
pending. -/
theorem removals_of_step {u : World} {s₀ : Store} {before : List Entity}
    (hu : u.Reachable) (hs₀ : u.store? (.runner r) = some s₀)
    (hnone : s₀.pending = []) (hbefore : Waiting r u before w)
    (ha : w.runner? r = some a) (hdefers : ∀ system ∈ a.systems, system.Defers)
    (h : (step r).run w = .ok true w') :
    ∃ t s, Removes w r a (before ++ w.requestsIn r).eraseDups t s w' := by
  have hw : w.Reachable := hu.path hbefore.path
  have hstore : ∀ p, ∃ t, (w.atTurn r p).store? (.runner r) = some t := by
    intro p
    obtain ⟨b, hb, -⟩ := (atTurn_stepping ha p).2
    exact ⟨b.store, store?_of_runner? hb⟩
  obtain ⟨t, ht⟩ := hstore a.systems.length
  have hturns := waiting_of_step h ha hdefers
  have hrequests : w.requestsIn r =
      (List.range a.systems.length).flatMap (w.requestsAt r) := by
    simp [requestsIn, ha]
  have hsound : t.Sound :=
    ((hturns a.systems.length).path.sound hw.sound).stores ht
  have hpending : t.pending = (before ++ w.requestsIn r).eraseDups := by
    obtain ⟨q, hq, -⟩ := Option.map_eq_some_iff.1 hs₀
    obtain ⟨s₁, hs₁, hwaits⟩ :=
      (hbefore.trans (hturns a.systems.length)).store hu.sound
      (lt_of_runner? hq) ht
    cases hs₀.symm.trans hs₁
    rw [hrequests]
    exact hwaits.pending [] hnone
  have hswept : ((applyRemovals r).left (w.atTurn r a.systems.length)).store?
      (.runner r) = some t.applyRemovals.2 := store?_applyRemovals ht
  obtain ⟨v, hremoved, hrest⟩ := sweep_of_step h ha ht
  obtain ⟨hannounced, hv⟩ := announced_of_run hswept hremoved
  obtain ⟨⟨⟩, v', hsnapshot, hclock⟩ := run_bind_eq_ok_iff.1 hrest
  have hshown :=
    (announceSnapshot_keeps reaction_reactive _ r a.bus a.info).of_ok hsnapshot
  obtain ⟨info, hinfo⟩ := left_advance r v'
  rw [left_of_ok hclock] at hinfo
  rw [← hpending]
  refine ⟨t, t.applyRemovals.2,
    { met := ht, left := ?_, finds := ?_, live := hsound.pending_live,
      remains := ?_,
      count := hsound.size_applyRemovals, once := hsound.pending_nodup,
      announced := ⟨v, hannounced, hrest⟩, settled := rfl }⟩
  · rw [hinfo, store?_setClock, hshown.store?, hv]
  · intro p
    obtain ⟨x, hx⟩ := hstore p
    obtain ⟨s₁, hs₁, hwaits⟩ := (hturns p).store hw.sound (lt_of_runner? ha) hx
    cases (store?_of_runner? ha).symm.trans hs₁
    exact ⟨x, hx, hwaits.keeps⟩
  · intro e
    rw [Store.has_applyRemovals]
    exact And.comm

/-- A joint lets go of its entity, and a script makes an entity and asks twice
for its removal, for that of an entity that the host has asked to remove, and
for that of an entity long gone. -/
theorem removals_of_busy_step :
    let smith : List Scheduled := [⟨.onStore (.create (some "spark")), some 1⟩,
      ⟨.onStore (.remove (.label "spark")), some 1⟩,
      ⟨.onStore (.remove (.label "spare")), some 1⟩,
      ⟨.onStore (.remove (.handle ⟨1, 7⟩)), some 1⟩,
      ⟨.onStore (.remove (.label "spark")), some 1⟩]
    let requests : List Request :=
      [⟨.runner 0, .makeRunner (some 0) defaultStep none⟩,
      ⟨.runner 0, .act (.onStore (.spawn "crane" ["hook"] none))⟩,
      ⟨.runner 0, .act (.onStore (.spawn "cart" ["eye"] none))⟩,
      ⟨.runner 0, .act (.onStore (.create (some "spare")))⟩,
      ⟨.runner 0,
        .addSystem 0 (.joint (some "weld") (.numbered 0)) (.handle ⟨1, 0⟩)
        (Session.jointElement "hook" "cart" "eye")⟩,
      ⟨.runner 0, .addSystem 0 (.script "smith" [] smith) (.handle ⟨1, 0⟩)
        (Session.jointElement "hook" "cart" "eye")⟩,
      ⟨.runner 0, .step 0⟩, ⟨.runner 0, .act (.request "weld")⟩]
    let u := Session.after {} requests
    let w := (Deed.call (.runner 0) (.remove (.label "spare"))).apply u
    ∃ a t s, w.runner? 0 = some a ∧
      Removes w 0 a [⟨5, 0⟩, ⟨6, 0⟩, ⟨7, 0⟩] t s ((step 0).left w) := by
  intro smith requests u w
  have hempty : (u.store? (.runner 0)).map Store.pending = some [] := by
    decide +kernel
  obtain ⟨s₀, hs₀, hnone⟩ := Option.map_eq_some_iff.1 hempty
  have hrunner : (w.runner? 0).isSome = true := by decide +kernel
  obtain ⟨a, ha⟩ := Option.isSome_iff_exists.1 hrunner
  have hdefers : ∀ b ∈ w.runner? 0, ∀ system ∈ b.systems, system.Defers := by
    decide +kernel
  have hstep : EStateM.run' (step 0) w = some true := by decide +kernel
  have hbefore : Waiting 0 u
      ((Deed.call (.runner 0) (.remove (.label "spare"))).requests 0 u) w :=
    .of_deed fun _ => rfl
  have hasked :
      ((Deed.call (.runner 0) (.remove (.label "spare"))).requests 0 u ++
      w.requestsIn 0).eraseDups = [⟨5, 0⟩, ⟨6, 0⟩, ⟨7, 0⟩] := by decide +kernel
  obtain ⟨t, s, hremoves⟩ :=
    removals_of_step (Session.reachable_after requests) hs₀ hnone hbefore
    ha (hdefers a ha) (run_of_run' hstep)
  rw [hasked] at hremoves
  exact ⟨a, t, s, ha, hremoves⟩

end Step

end Linkage
