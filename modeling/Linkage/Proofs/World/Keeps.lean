import Linkage.World.Perform

/-!
# What a call keeps

A call ends in a world whether it returns or breaks off, and what it changed up
to then stays changed. A relation between worlds is kept by a call when every
world is related to the one the call leaves behind. A relation that links up,
being reflexive and transitive, is kept by whatever is put together from calls
that keep it, so it is enough to look at the few places that change a world.

## Main results

* `Act.Keeps.bind`, `Act.Keeps.forM`, `Keeps.deliver`: compositions keep what
  their parts keep.
* `emitOn_keeps`: announcing keeps what the actions of listeners keep.
-/

namespace Linkage

namespace Act

variable {α β : Type}

/-- The world that a call leaves behind. -/
def left (m : Act α) (w : World) : World :=
  match m.run w with
  | .ok _ w' => w'
  | .error _ w' => w'

/-- A relation that holds of every world and the one a call leaves behind. -/
def Keeps (R : World → World → Prop) (m : Act α) : Prop := ∀ w, R w (m.left w)

/-! ## Calls put together -/

theorem run_bind (m : Act α) (f : α → Act β) (w : World) :
    (m >>= f).run w = match m.run w with
      | .ok a w' => (f a).run w'
      | .error e w' => .error e w' := by
  simp only [EStateM.run, bind, EStateM.bind]
  cases m w <;> rfl

theorem run_bind_of_ok {m : Act α} {w w' : World} {a : α}
    (h : m.run w = .ok a w') (f : α → Act β) :
    (m >>= f).run w = (f a).run w' := by
  rw [run_bind, h]

theorem run_change (f : World → α × World) (w : World) :
    (change f).run w = .ok (f w).1 (f w).2 := rfl

theorem run_get_bind (f : World → Act β) (w : World) :
    ((get : Act World) >>= f).run w = (f w).run w := rfl

/-- A sequence returns when both parts do. -/
theorem run_bind_eq_ok_iff {m : Act α} {f : α → Act β} {w w' : World} {b : β} :
    (m >>= f).run w = .ok b w' ↔ ∃ a w₁, m.run w = .ok a w₁ ∧
    (f a).run w₁ = .ok b w' := by
  rw [run_bind]
  cases h : m.run w with
  | ok a w₁ =>
      constructor
      · intro hf
        exact ⟨a, w₁, rfl, hf⟩
      · rintro ⟨a', w₁', heq, hf⟩
        cases heq
        exact hf
  | error e w₁ =>
      constructor
      · intro hf
        cases hf
      · rintro ⟨a', w₁', heq, -⟩
        cases heq

/-- A sequence breaks off when its first part does, or the second after the
first. -/
theorem run_bind_eq_error_iff {m : Act α} {f : α → Act β} {w w' : World}
    {cause : Panic} :
    (m >>= f).run w = .error cause w' ↔ m.run w = .error cause w' ∨
      ∃ a w₁, m.run w = .ok a w₁ ∧ (f a).run w₁ = .error cause w' := by
  rw [run_bind]
  cases h : m.run w with
  | ok a w₁ =>
      constructor
      · intro hf
        exact .inr ⟨a, w₁, rfl, hf⟩
      · rintro (herror | ⟨a', w₁', heq, hf⟩)
        · cases herror
        · cases heq
          exact hf
  | error e w₁ =>
      constructor
      · intro hf
        cases hf
        exact .inl rfl
      · rintro (herror | ⟨a', w₁', heq, -⟩)
        · cases herror
          rfl
        · cases heq

theorem left_congr {m m' : Act α} {w w' : World} (h : m.run w = m'.run w') :
    m.left w = m'.left w' := by
  rw [left, left, h]

theorem left_of_ok {m : Act α} {w w' : World} {a : α} (h : m.run w = .ok a w') :
    m.left w = w' := by
  simp [left, h]

/-- Where a call is known to return, the world it leaves is the one that is
left. -/
theorem run_of_run' {m : Act α} {w : World} {a : α}
    (h : EStateM.run' m w = some a) :
    m.run w = .ok a (m.left w) := by
  unfold EStateM.run' at h
  cases hm : m.run w with
  | ok b v =>
      rw [hm] at h
      cases h
      rw [left_of_ok hm]
  | error e v =>
      rw [hm] at h
      cases h

theorem left_of_error {m : Act α} {w w' : World} {e : Panic}
    (h : m.run w = .error e w') :
    m.left w = w' := by
  simp [left, h]

/-- Where a call is known not to return, it breaks off in the world that is
left. -/
theorem exists_error_of_run' {m : Act α} {w : World}
    (h : EStateM.run' m w = none) :
    ∃ cause, m.run w = .error cause (m.left w) := by
  unfold EStateM.run' at h
  cases hm : m.run w with
  | ok b v =>
      rw [hm] at h
      cases h
  | error e v => exact ⟨e, by rw [left_of_error hm]⟩

/-- A sequence of calls breaks off in one of them, after those before it have
returned. -/
theorem run_forM_eq_error_iff {f : α → Act Unit} {l : List α} {w w' : World}
    {cause : Panic} :
    (l.forM f).run w = .error cause w' ↔ ∃ before a after v,
      l = before ++ a :: after ∧
      (before.forM f).run w = .ok () v ∧ (f a).run v = .error cause w' := by
  constructor
  · induction l generalizing w with
    | nil =>
        intro h
        cases h
    | cons a l ih =>
        intro h
        have hcons : (f a >>= fun _ => l.forM f).run w = .error cause w' := h
        rcases run_bind_eq_error_iff.1 hcons with
          hfirst | ⟨⟨⟩, v, hfirst, hrest⟩
        · exact ⟨[], a, l, w, rfl, rfl, hfirst⟩
        · obtain ⟨before, c, after, u, rfl, hbefore, hbreaks⟩ := ih hrest
          exact ⟨a :: before, c, after, u, rfl,
            run_bind_eq_ok_iff.2 ⟨(), v, hfirst, hbefore⟩,
            hbreaks⟩
  · rintro ⟨before, a, after, v, rfl, hbefore, hbreaks⟩
    have happend : (before ++ a :: after).forM f =
        before.forM f >>= fun _ => f a >>= fun _ => after.forM f :=
      List.forM_append
    rw [happend, run_bind_of_ok hbefore]
    exact run_bind_eq_error_iff.2 (.inl hbreaks)

theorem left_bind (m : Act α) (f : α → Act β) (w : World) :
    (m >>= f).left w = match m.run w with
      | .ok a w' => (f a).left w'
      | .error _ w' => w' := by
  simp only [left, run_bind]
  cases m.run w <;> rfl

theorem left_get_bind (f : World → Act β) (w : World) :
    ((get : Act World) >>= f).left w = (f w).left w := rfl

theorem left_modify_bind (f : World → World) (g : Unit → Act β) (w : World) :
    ((modify f : Act Unit) >>= g).left w = (g ()).left (f w) := rfl

@[simp] theorem left_pure (a : α) (w : World) :
    (pure a : Act α).left w = w := rfl

@[simp] theorem left_modify (f : World → World) (w : World) :
    (modify f : Act Unit).left w = f w := rfl

@[simp] theorem left_change (f : World → α × World) (w : World) :
    (change f).left w = (f w).2 := rfl

/-- Every world is related to itself, and steps link up. -/
structure Chained (R : World → World → Prop) : Prop where
  refl : ∀ w, R w w
  trans : ∀ {w₁ w₂ w₃ : World}, R w₁ w₂ → R w₂ w₃ → R w₁ w₃

variable {R : World → World → Prop}

theorem Keeps.of_ok {m : Act α} (h : Keeps R m) {w w' : World} {a : α}
    (hm : m.run w = .ok a w') : R w w' := left_of_ok hm ▸ h w

theorem Keeps.pure (hR : Chained R) (a : α) : Keeps R (Pure.pure a : Act α) :=
  fun w => hR.refl w

theorem Keeps.throw (hR : Chained R) (e : Panic) : Keeps R (throw e : Act α) :=
  fun w => hR.refl w

theorem Keeps.modify {f : World → World} (h : ∀ w, R w (f w)) :
    Keeps R (modify f : Act Unit) := h

theorem Keeps.change {f : World → α × World} (h : ∀ w, R w (f w).2) :
    Keeps R (change f) := h

theorem Keeps.bind (hR : Chained R) {m : Act α} {f : α → Act β} (hm : Keeps R m)
    (hf : ∀ a, Keeps R (f a)) : Keeps R (m >>= f) := by
  intro w
  have hw := hm w
  rw [left_bind]
  simp only [left] at hw
  cases h : m.run w with
  | ok a w' =>
      rw [h] at hw
      exact hR.trans hw (hf a w')
  | error e w' =>
      rw [h] at hw
      exact hw

/-- What reads the world first may use what it read. -/
theorem Keeps.get_bind {f : World → Act β} (h : ∀ w, R w ((f w).left w)) :
    Keeps R ((get : Act World) >>= f) := h

theorem Keeps.forM (hR : Chained R) {f : α → Act Unit} :
    ∀ (l : List α), (∀ a ∈ l, Keeps R (f a)) → Keeps R (l.forM f)
  | [], _ => Keeps.pure hR ()
  | a :: l, h => by
      show Keeps R (f a >>= fun _ => l.forM f)
      exact (h a (by simp)).bind hR fun _ => Keeps.forM hR l fun b hb =>
        h b (by simp [hb])

theorem Keeps.deliver {κ : Type} (hR : Chained R) {flag : Nat → Act Bool}
    {turn : κ → Act Unit} (hc : ∀ id, Keeps R (flag id)) :
    ∀ l : List (Nat × κ), (∀ x ∈ l, Keeps R (turn x.2)) →
      Keeps R (Channel.deliver flag turn l)
  | [], _ => Keeps.pure hR 0
  | (id, k) :: rest, ht => by
      have hrest := Keeps.deliver hR hc rest fun x hx => ht x (by simp [hx])
      refine (hc id).bind hR fun up => ?_
      cases up with
      | true =>
          refine (ht (id, k) (by simp)).bind hR fun _ => ?_
          exact hrest.bind hR fun n => Keeps.pure hR (n + 1)
      | false => exact hrest

end Act

open Act

/-! ## Callbacks -/

/-- The world in which a player begins to perform its actions: it has recorded
what it received, and has some runs left. -/
def World.begun (w : World) (id : Nat) (p : Player) (what : Delivery)
    (left : Nat) : World :=
  { w.record (.heard p.label what) with players :=
                                          w.players.set id
                                            { p with remaining := left } }

/-- A player that has runs left performs its response in the world in which it
begins. -/
theorem run_play_of_remaining {performer : Performer} {w : World}
    {id n : Nat} {p : Player} (what : Delivery)
    (hplayer : w.players[id]? = some p) (hremaining : p.remaining = n + 1) :
    (play performer id what).run w =
      (playScript performer p.label 0 (p.response n what)).run
        (w.begun id p what n) := by
  unfold play
  rw [run_get_bind, hplayer]
  simp only [hremaining]
  rfl

/-- A relation that allows what every callback does by itself. -/
structure Callable (R : World → World → Prop) : Prop extends Chained R where
  record : ∀ w entry, R w (w.record entry)
  players : ∀ w players, R w { w with players }
  pause : ∀ w r paused, R w (w.switchPause r paused)
  stop : ∀ w r, R w (w.switchStop r)

section Callbacks

variable {R : World → World → Prop} (hR : Callable R) {performer : Performer}
  (hp : ∀ a, Keeps R (performer none a))
include hR hp

theorem playScript_keeps (label : String) :
    ∀ (index : Nat) (script : List Action),
      Keeps R (playScript performer label index script)
  | _, [] => Keeps.pure hR.toChained ()
  | index, a :: rest => by
      refine (hp a).bind hR.toChained fun reply => ?_
      refine (Keeps.modify fun w => hR.record w _).bind hR.toChained fun _ => ?_
      exact playScript_keeps label (index + 1) rest

theorem play_keeps (id : Nat) (what : Delivery) :
    Keeps R (play performer id what) := by
  refine Keeps.get_bind fun w => ?_
  cases w.players[id]? with
  | none => exact hR.refl w
  | some p =>
      refine Keeps.bind hR.toChained (m := Act.record (.heard p.label what))
        (fun w => hR.record w _) (fun _ => ?_) w
      cases p.remaining with
      | zero => exact Keeps.pure hR.toChained ()
      | succ n =>
          refine (Keeps.modify fun w => hR.players w _).bind
            hR.toChained fun _ => ?_
          exact playScript_keeps hR hp p.label 0 _

/-- A listener keeps what its actions keep. -/
theorem call_signal_keeps (k : Callback) (s : Signal) :
    Keeps R (call performer k (.signal s)) := by
  cases k with
  | player id => exact play_keeps hR hp id (.signal s)
  | pauseSwitch r =>
      cases s with
      | pause paused => exact fun w => hR.pause w r paused
      | _ => exact Keeps.pure hR.toChained ()
  | stopSwitch r =>
      cases s with
      | stop => exact fun w => hR.stop w r
      | _ => exact Keeps.pure hR.toChained ()
  | detach j => exact Keeps.pure hR.toChained ()

/-- Announcing a signal keeps what the actions of listeners keep. -/
theorem emitOn_keeps (b : Nat) (s : Signal) :
    Keeps R (emitOn performer b s) := by
  refine Keeps.get_bind fun w => ?_
  cases (w.bus b).channel? s.event with
  | none => exact hR.refl w
  | some channel =>
      refine Keeps.deliver hR.toChained (fun id => ?_) channel.listeners
        (fun x _ => ?_) w
      · exact fun w => hR.refl w
      · exact call_signal_keeps hR hp x.2 s

end Callbacks

end Linkage
