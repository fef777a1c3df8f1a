import Linkage.Proofs.World.Hearing

/-!
# Announcements that return

Listeners may announce again, to any depth, so it is not obvious that an
announcement comes to an end. It does because every listener has a bounded
number of runs left. A run uses up more weight than its actions can bring back
by connecting further listeners, so the world never comes to weigh more than it
did, and no nesting is deeper than its weight.

The only other way for an announcement not to return is that a listener panics.
If no listener has a panic among its actions, nor among those of the listeners
that it connects, every announcement returns, and the listeners are of this kind
afterwards.

## Main results

* `perform_settles`: an action that does not panic returns at every sufficient
  depth.
* `emitOn_settles`: so does every announcement to listeners that do not panic.
* `perform_weighs`: an action adds to the world what it weighs at most, even if
  it breaks off.
-/

namespace Linkage

open Act

namespace Action

mutual

/-- Whether neither an action nor what it sets up to be performed later
panics. -/
def isTame : Action → Bool
  | .connect _ _ _ script _ => allTame script
  | .subscribe _ _ _ script _ => allTame script
  | .panic _ => false
  | .ifTold _ a => isTame a
  | _ => true

/-- Whether all actions of a list are tame. -/
def allTame : List Action → Bool
  | [] => true
  | a :: rest => isTame a && allTame rest

end

theorem isTame_connect (bus : Nat) (event : Event) (label : String)
    (script : List Action) (runs : Nat) :
    (Action.connect bus event label script runs).isTame = allTame script := by
  simp [isTame]

theorem isTame_subscribe (t : TransportRef) (topic label : String)
    (script : List Action) (runs : Nat) :
    (Action.subscribe t topic label script runs).isTame = allTame script := by
  simp [isTame]

theorem allTame_iff : ∀ script : List Action,
    allTame script = true ↔ ∀ a ∈ script, a.isTame = true
  | [] => by simp [allTame]
  | a :: rest => by simp [allTame, allTame_iff rest]

end Action

/-- A player that has no panic among its actions has none in a response. -/
theorem Player.allTame_response {p : Player}
    (h : Action.allTame p.script = true) (left : Nat) (what : Delivery) :
    Action.allTame (p.response left what) = true :=
  (Action.allTame_iff _).2
    (forall_response (fun _ _ ha => ha) ((Action.allTame_iff _).1 h))

/-! ## What a world weighs -/

/-- How many runs of actions a player can give rise to. -/
def Player.weight (p : Player) : Nat :=
  p.remaining * (1 + Action.weightAll p.script)

namespace World

/-- The weight of players adds up. -/
theorem foldl_weight (players : List Player) (n : Nat) :
    players.foldl (fun n p => n + p.weight) n =
      n + players.foldl (fun n p => n + p.weight) 0 := by
  induction players generalizing n with
  | nil => rfl
  | cons p players ih =>
      rw [List.foldl_cons, List.foldl_cons, ih (n + p.weight),
        ih (0 + p.weight)]
      omega

theorem foldl_weight_set {players : List Player} {id : Nat} {p : Player}
    (h : players[id]? = some p) (q : Player) :
    (players.set id q).foldl (fun n p => n + p.weight) 0 + p.weight =
      players.foldl (fun n p => n + p.weight) 0 + q.weight := by
  induction players generalizing id with
  | nil => cases h
  | cons first players ih =>
      cases id with
      | zero =>
          cases h
          rw [List.set_cons_zero, List.foldl_cons,
            List.foldl_cons, foldl_weight, foldl_weight players (0 + p.weight)]
          omega
      | succ id =>
          rw [List.getElem?_cons_succ] at h
          rw [List.set_cons_succ, List.foldl_cons,
            List.foldl_cons, foldl_weight,
            foldl_weight players (0 + first.weight)]
          have hrest := ih h
          omega

theorem weight_addPlayer (w : World) (p : Player) :
    (w.addPlayer p).2.weight = w.weight + p.weight :=
  List.foldl_concat _ _ _ _

/-- The world with another player in the place of one. -/
def setPlayer (w : World) (id : Nat) (p : Player) : World :=
  { w with players := w.players.set id p }

/-- A run takes its own weight and that of its actions off the world. -/
theorem weight_setPlayer {w : World} {id n : Nat} {p : Player}
    (h : w.players[id]? = some p) (hn : p.remaining = n + 1) :
    (w.setPlayer id { p with remaining := n }).weight +
      (1 + Action.weightAll p.script) =
      w.weight := by
  have hset := foldl_weight_set h { p with remaining := n }
  have hp : p.weight = n * (1 + Action.weightAll p.script) +
      (1 + Action.weightAll p.script) := by
    rw [Player.weight, hn, Nat.succ_mul]
  have hq : ({ p with remaining := n } : Player).weight =
      n * (1 + Action.weightAll p.script) := rfl
  have hleft : (w.setPlayer id { p with remaining := n }).weight =
      (w.players.set id { p with remaining := n }).foldl
        (fun n p => n + p.weight) 0 := rfl
  have hright : w.weight = w.players.foldl (fun n p => n + p.weight) 0 := rfl
  omega

theorem weight_begun {w : World} {id n : Nat} {p : Player} (what : Delivery)
    (h : w.players[id]? = some p) (hn : p.remaining = n + 1) :
    (w.begun id p what n).weight + (1 + Action.weightAll p.script) = w.weight :=
  weight_setPlayer h hn

/-- No player of the world has a panic among its actions, and their runs are
bounded. -/
structure TameWithin (n : Nat) (w : World) : Prop where
  tame : ∀ p ∈ w.players, Action.allTame p.script = true
  weight : w.weight ≤ n

namespace TameWithin

variable {n k : Nat} {w v : World}

/-- Only the players of a world count. -/
theorem of_players (h : w.TameWithin n) (hv : v.players = w.players) :
    v.TameWithin n :=
  { tame := hv.symm ▸ h.tame
    weight := by
      have hweight : v.weight = w.weight := by
        rw [World.weight, World.weight, hv]
      exact hweight.symm ▸ h.weight }

theorem mono (h : w.TameWithin n) (hn : n ≤ k) : w.TameWithin k :=
  { h with weight := Nat.le_trans h.weight hn }

theorem addPlayer (h : w.TameWithin n) {p : Player}
    (hp : Action.allTame p.script = true) :
    (w.addPlayer p).2.TameWithin (n + p.weight) :=
  { tame := fun q hq => by
      rcases List.mem_append.1 hq with hq | hq
      · exact h.tame q hq
      · rwa [List.mem_singleton.1 hq]
    weight := by
      rw [weight_addPlayer]
      exact Nat.add_le_add_right h.weight _ }

end TameWithin

end World

/-! ## Calls that return -/

namespace Act

/-- In every tame world of at most one weight a call returns, and it leaves a
tame world of at most another. -/
def Settles {α : Type} (n : Nat) (m : Act α) (k : Nat) : Prop :=
  ∀ w : World, w.TameWithin n → ∃ a v, m.run w = .ok a v ∧ v.TameWithin k

namespace Settles

variable {α β : Type} {n k l : Nat}

theorem pure (n : Nat) (a : α) : Settles n (Pure.pure a : Act α) n :=
  fun w hw => ⟨a, w, rfl, hw⟩

theorem bind {m : Act α} {f : α → Act β} (hm : Settles n m k)
    (hf : ∀ a, Settles k (f a) l) :
    Settles n (m >>= f) l := by
  intro w hw
  obtain ⟨a, v, hrun, hv⟩ := hm w hw
  obtain ⟨b, u, hrest, hu⟩ := hf a v hv
  exact ⟨b, u, by rw [run_bind_of_ok hrun, hrest], hu⟩

theorem get_bind {f : World → Act β}
    (h : ∀ w : World, w.TameWithin n → ∃ b v, (f w).run w = .ok b v ∧
      v.TameWithin k) :
    Settles n ((get : Act World) >>= f) k := h

theorem change {f : World → α × World} (h : ∀ w, (f w).2.players = w.players) :
    Settles n (Act.change f) n :=
  fun w hw => ⟨(f w).1, (f w).2, rfl, hw.of_players (h w)⟩

theorem modify {f : World → World} (h : ∀ w, (f w).players = w.players) :
    Settles n (modify f : Act Unit) n :=
  fun w hw => ⟨(), f w, rfl, hw.of_players (h w)⟩

theorem mono {m : Act α} (h : Settles n m k) (hk : k ≤ l) : Settles n m l := by
  intro w hw
  obtain ⟨a, v, hrun, hv⟩ := h w hw
  exact ⟨a, v, hrun, hv.mono hk⟩

theorem forM {f : α → Act Unit} :
    ∀ (as : List α), (∀ a ∈ as, Settles n (f a) n) →
    Settles n (as.forM f) n
  | [], _ => Settles.pure n ()
  | a :: as, h => by
      show Settles n (f a >>= fun _ => as.forM f) n
      exact (h a List.mem_cons_self).bind fun _ =>
        Settles.forM as fun b hb => h b (List.mem_cons_of_mem a hb)

theorem deliver {κ : Type} {flag : Nat → Act Bool} {turn : κ → Act Unit}
    (hflag : ∀ id, Settles n (flag id) n) : ∀ receivers : List (Nat × κ),
      (∀ x ∈ receivers, Settles n (turn x.2) n) →
      Settles n (Channel.deliver flag turn receivers) n
  | [], _ => Settles.pure n 0
  | (id, k) :: rest, h => by
      have hrest := Settles.deliver hflag rest fun x hx =>
        h x (List.mem_cons_of_mem (id, k) hx)
      refine (hflag id).bind fun up => ?_
      cases up with
      | true =>
          exact (h (id, k) List.mem_cons_self).bind fun _ => hrest.bind fun m =>
            .pure n (m + 1)
      | false => exact hrest

end Settles

end Act

/-! ## Calls that leave the players alone -/

namespace World

theorem players_busNumbered (w : World) (number : Nat) :
    (w.busNumbered number).2.players = w.players := by
  unfold busNumbered
  split <;> rfl

end World

section Calls

variable {n k : Nat}

theorem onBus_settles {number : Nat} {f : Nat → Act Reply}
    (h : ∀ b, Settles n (f b) k) :
    Settles n (onBus number f) k :=
  Settles.bind (Settles.change fun w => World.players_busNumbered w number) h

theorem onConnection_settles {label : String} {f : Connection → Act Reply}
    (h : ∀ c, Settles n (f c) n) : Settles n (onConnection label f) n := by
  refine Settles.get_bind fun w hw => ?_
  cases w.names.connections.get? label with
  | none => exact ⟨_, w, rfl, hw⟩
  | some c => exact h c w hw

theorem requestJoint_settles (n : Nat) (label : String) :
    Settles n (requestJoint label) n := by
  refine Settles.get_bind fun w hw => ?_
  cases w.names.joints.get? label with
  | none => exact ⟨_, w, rfl, hw⟩
  | some j =>
      have hasked : Settles n
          (modify fun w => (w.note (.asked j)).requestDetach j : Act Unit) n :=
        Settles.modify fun _ => rfl
      exact hasked.bind (fun _ => Settles.pure n Reply.nothing) w hw

theorem callStore_settles (n : Nat) (ref : StoreRef) (op : StoreAction) :
    Settles n (callStore ref op) n := by
  refine Settles.change fun w => ?_
  split
  · rfl
  · split
    · rfl
    · exact (Mirror.silent_setStore w ref _).players

/-- Connecting a player adds its weight. -/
theorem connectPlayer_settles (n number : Nat) (event : Event) {p : Player}
    (hp : Action.allTame p.script = true) :
    Settles n (connectPlayer number event p) (n + p.weight) := by
  intro w hw
  have hbus : (w.busNumbered number).2.TameWithin n :=
    hw.of_players (World.players_busNumbered w number)
  exact ⟨_, _, rfl, (hbus.addPlayer hp).of_players rfl⟩

/-- So does subscribing one, unless it is refused. -/
theorem subscribePlayer_settles (n : Nat) (ref : TransportRef)
    (topic : String) {p : Player} (hp : Action.allTame p.script = true) :
    Settles n (subscribePlayer ref topic p) (n + p.weight) := by
  intro w hw
  unfold subscribePlayer
  rw [run_change]
  refine ⟨_, _, rfl, ?_⟩
  simp only
  split
  · exact (hw.addPlayer hp).of_players
      (Mirror.silent_setEndpoint _ ref _).players
  · exact hw.mono (Nat.le_add_right _ _)

end Calls

/-! ## Listeners -/

/-- A way to perform actions that is deep enough for what weighs less than a
bound. -/
def Performer.SettlesBelow (performer : Performer) (bound : Nat) : Prop :=
  ∀ (ref : Option StoreRef) (a : Action) (n : Nat), a.isTame = true →
    n + a.weight < bound →
    Settles n (performer ref a) (n + a.weight)

section Listeners

variable {performer : Performer} {depth n : Nat}
  (hp : performer.SettlesBelow depth)
include hp

/-- The actions of a listener bring back no more than they weigh. -/
theorem playScript_settles (label : String) :
    ∀ (script : List Action) (index n : Nat),
    Action.allTame script = true → n + Action.weightAll script < depth →
      Settles n (playScript performer label index script)
        (n + Action.weightAll script)
  | [], _, n, _, _ => Settles.pure n ()
  | a :: rest, index, n, htame, hn => by
      simp only [Action.allTame, Bool.and_eq_true] at htame
      simp only [Action.weightAll] at hn ⊢
      have hfirst := hp none a n htame.1 (by omega)
      have hrest := playScript_settles label rest (index + 1) (n + a.weight)
        htame.2 (by omega)
      rw [← Nat.add_assoc]
      exact hfirst.bind fun reply =>
        Settles.bind (Settles.modify fun _ => rfl) fun _ => hrest

/-- A run uses up more than its actions can bring back. -/
theorem play_settles (hn : n ≤ depth) (id : Nat) (what : Delivery) :
    Settles n (play performer id what) n := by
  refine Settles.get_bind fun w hw => ?_
  cases hplayer : w.players[id]? with
  | none => exact ⟨(), w, rfl, hw⟩
  | some p =>
      have htame := hw.tame p (List.mem_of_getElem? hplayer)
      cases hremaining : p.remaining with
      | zero =>
          exact ⟨(), w.record (.heard p.label what),
            by simp only [hremaining]; rfl, hw.of_players rfl⟩
      | succ k =>
          -- what the run takes off the world is enough for all that its actions
          -- can connect
          have hspent := World.weight_setPlayer hplayer hremaining
          have hready :
              (World.setPlayer w id { p with remaining := k }).TameWithin
              (w.weight - (1 + Action.weightAll p.script)) := by
            refine { tame := fun q hq => ?_, weight := by omega }
            rcases List.mem_or_eq_of_mem_set hq with hq | rfl
            · exact hw.tame q hq
            · exact htame
          have hweight := hw.weight
          have hresponse := p.weightAll_response_le k what
          obtain ⟨a, v, hrun, hv⟩ :=
            playScript_settles hp p.label (p.response k what) 0 _
            (Player.allTame_response htame k what) (by omega)
            ((w.setPlayer id { p with remaining := k }).record
              (.heard p.label what))
            (hready.of_players rfl)
          refine ⟨a, v, ?_, hv.mono (by omega)⟩
          simp only [hremaining]
          exact hrun

theorem call_settles (hn : n ≤ depth) (k : Callback) (what : Delivery) :
    Settles n (call performer k what) n := by
  cases k with
  | player id => exact play_settles hp hn id what
  | pauseSwitch r =>
      cases what with
      | signal s =>
          cases s with
          | pause paused =>
              exact Settles.modify fun w =>
                (Mirror.silent_switchPause w r paused).players
          | _ => exact Settles.pure n ()
      | message bytes => exact Settles.pure n ()
  | stopSwitch r =>
      cases what with
      | signal s =>
          cases s with
          | stop =>
              exact Settles.modify fun w =>
                (Mirror.silent_switchStop w r).players
          | _ => exact Settles.pure n ()
      | message bytes => exact Settles.pure n ()
  | detach j =>
      cases what with
      | signal s => exact Settles.pure n ()
      | message bytes => exact Settles.modify fun _ => rfl

/-- Announcements to tame listeners return. -/
theorem emitOn_settles_of (hn : n ≤ depth) (b : Nat) (s : Signal) :
    Settles n (emitOn performer b s) n := by
  intro w hw
  rw [run_emitOn]
  exact Settles.deliver (fun _ => Settles.get_bind fun v hv =>
    ⟨_, v, rfl, hv⟩) _ (fun x _ => call_settles hp hn x.2 (.signal s)) w hw

/-- So do messages to tame subscribers. -/
theorem publishOn_settles (hn : n ≤ depth) (number : Nat) (topic : String)
    (bytes : List UInt8) :
    Settles n (publishOn performer number topic bytes) n := by
  refine Settles.get_bind fun w hw => ?_
  cases (w.transport number).receivers topic with
  | error e => exact ⟨_, w, rfl, hw⟩
  | ok receivers =>
      have hhand : ∀ k ∈ receivers,
          Settles n (hand performer number topic bytes k) n := fun k _ =>
        Settles.bind (Settles.modify fun _ => rfl) fun _ =>
          call_settles hp hn k (.message bytes)
      exact (Settles.forM receivers hhand).bind (fun _ => Settles.pure n _) w hw

/-- An action that does not panic returns if there is depth for the
announcements it makes, and it adds to the world what it weighs at most. -/
theorem performWith_settles (ref : Option StoreRef) (a : Action)
    (ha : a.isTame = true) (hn : n ≤ depth) :
    Settles n (performWith performer ref a) (n + a.weight) := by
  have hread : ∀ {α : Type} (f : World → α),
      Settles n (do return f (← get)) n :=
    fun f w hw => ⟨f w, w, rfl, hw⟩
  cases a with
  | connect bus event label script runs =>
      rw [Action.isTame_connect] at ha
      rw [Action.weight_connect]
      exact connectPlayer_settles n bus event (p := ⟨label, script, runs⟩) ha
  | emit bus payload =>
      refine onBus_settles fun b => Settles.get_bind fun w hw => ?_
      cases payload.signal? w.names with
      | none => exact ⟨_, w, rfl, hw⟩
      | some s =>
          exact (emitOn_settles_of hp hn b s).bind
            (fun m => Settles.pure n _) w hw
  | listeners bus event => exact onBus_settles fun b => hread _
  | disconnect bus label =>
      exact onBus_settles fun b => onConnection_settles fun c =>
        Settles.change fun _ => rfl
  | isConnected bus label =>
      exact onBus_settles fun b => onConnection_settles fun c =>
        Settles.change fun _ => rfl
  | same label other =>
      exact onConnection_settles fun c => onConnection_settles fun d =>
        Settles.pure n _
  | describeBus bus => exact onBus_settles fun b => hread _
  | describeChannel bus event fresh =>
      cases fresh with
      | true => exact Settles.pure n _
      | false => exact onBus_settles fun b => Settles.change fun _ => rfl
  | subscribe ref topic label script runs =>
      rw [Action.isTame_subscribe] at ha
      rw [Action.weight_subscribe]
      exact subscribePlayer_settles n ref topic (p := ⟨label, script, runs⟩) ha
  | publish t topic bytes =>
      refine (publishOn_settles hp hn t topic bytes).bind fun result => ?_
      cases result <;> exact Settles.pure n _
  | subscribers t topic => exact hread _
  | topics t => exact hread _
  | describeTransport t => exact hread _
  | request label => exact requestJoint_settles n label
  | message label => exact requestJoint_settles n label
  | panic text => cases ha
  | onStore op =>
      cases ref with
      | none => exact Settles.pure n _
      | some ref => exact callStore_settles n ref op
  | ifTold heeds a => exact (Settles.pure n _).mono (Nat.le_add_right n _)

end Listeners

/-- An action that does not panic returns at every depth above the weight of the
world and its own, and the world is no heavier afterwards than both together. -/
theorem perform_settles : ∀ depth : Nat, (perform depth).SettlesBelow depth
  | 0, ref, a, n, ha, hn => by omega
  | depth + 1, ref, a, n, ha, hn =>
      performWith_settles (perform_settles depth) ref a ha (by omega)

/-- An announcement to listeners that do not panic returns at every depth from
the weight of the world on, and the world is no heavier afterwards. -/
theorem emitOn_settles {depth n : Nat} (hn : n ≤ depth) (b : Nat) (s : Signal) :
    Settles n (emitOn (perform depth) b s) n :=
  emitOn_settles_of (perform_settles depth) hn b s

/-! ## What calls add to a world -/

namespace World

/-- The second world weighs at most so much more than the first. -/
def HeavierBy (k : Nat) (w v : World) : Prop := v.weight ≤ w.weight + k

theorem heavierBy_zero_chained : Chained (HeavierBy 0) :=
  { refl := fun w => Nat.le_refl w.weight,
    trans := fun h h' => Nat.le_trans h' h }

theorem HeavierBy.of_players {w v : World}
    (h : v.players = w.players) (k : Nat) :
    w.HeavierBy k v := by
  unfold HeavierBy World.weight
  rw [h]
  exact Nat.le_add_right _ k

theorem HeavierBy.mono {j k : Nat} {w v : World} (h : w.HeavierBy j v)
    (hjk : j ≤ k) :
    w.HeavierBy k v := Nat.le_trans h (Nat.add_le_add_left hjk _)

end World

theorem Act.Keeps.weighs_bind {α β : Type} {m : Act α}
    {f : α → Act β} {j k : Nat} (hm : Keeps (World.HeavierBy j) m)
    (hf : ∀ a, Keeps (World.HeavierBy k) (f a)) :
    Keeps (World.HeavierBy (j + k)) (m >>= f) := by
  intro w
  have hw := hm w
  unfold left World.HeavierBy at hw ⊢
  rw [run_bind]
  cases hrun : m.run w with
  | ok a v =>
      rw [hrun] at hw
      have hv := hf a v
      unfold left World.HeavierBy at hv
      simp only at hw ⊢
      omega
  | error cause v =>
      rw [hrun] at hw
      simp only at hw ⊢
      omega

section Calls

theorem onBus_weighs {number : Nat} {f : Nat → Act Reply}
    (h : ∀ b, Keeps (World.HeavierBy 0) (f b)) :
    Keeps (World.HeavierBy 0) (onBus number f) :=
  Keeps.bind World.heavierBy_zero_chained
    (Keeps.change fun w => .of_players (World.players_busNumbered w number) 0) h

theorem onConnection_weighs {label : String} {f : Connection → Act Reply}
    (h : ∀ c, Keeps (World.HeavierBy 0) (f c)) :
    Keeps (World.HeavierBy 0) (onConnection label f) := by
  refine Keeps.get_bind fun w => ?_
  cases w.names.connections.get? label with
  | none => exact .of_players rfl 0
  | some c => exact h c w

theorem requestJoint_weighs (label : String) :
    Keeps (World.HeavierBy 0) (requestJoint label) := by
  refine Keeps.get_bind fun w => ?_
  cases w.names.joints.get? label with
  | none => exact .of_players rfl 0
  | some j => exact .of_players rfl 0

theorem connectPlayer_weighs (number : Nat) (event : Event) (p : Player) :
    Keeps (World.HeavierBy p.weight) (connectPlayer number event p) := by
  refine Keeps.change fun w => ?_
  have hbus : (w.busNumbered number).2.weight = w.weight := by
    rw [World.weight, World.weight, World.players_busNumbered]
  have hadded : ((w.busNumbered number).2.addPlayer p).2.weight =
      w.weight + p.weight := by
    rw [World.weight_addPlayer, hbus]
  exact Nat.le_of_eq hadded

theorem subscribePlayer_weighs (ref : TransportRef) (topic : String)
    (p : Player) :
    Keeps (World.HeavierBy p.weight) (subscribePlayer ref topic p) := by
  refine Keeps.change fun w => ?_
  have hadded : w.HeavierBy p.weight (w.addPlayer p).2 :=
    Nat.le_of_eq (World.weight_addPlayer w p)
  simp only
  split
  · unfold World.HeavierBy World.weight
    rw [(Mirror.silent_setEndpoint _ ref _).players]
    exact hadded
  · exact .of_players rfl _

end Calls

section Weighing

variable {performer : Performer}
  (hp : ∀ a, Keeps (World.HeavierBy a.weight) (performer none a))
include hp

/-- The actions of a listener add no more than they weigh. -/
theorem playScript_weighs (label : String) :
    ∀ (index : Nat) (script : List Action),
    Keeps (World.HeavierBy (Action.weightAll script))
      (playScript performer label index script)
  | _, [] => fun _ => .of_players rfl _
  | index, a :: rest => by
      have hrest := playScript_weighs label (index + 1) rest
      have hrecord : ∀ reply,
          Keeps (World.HeavierBy 0) (record (.acted label index reply)) :=
        fun _ _ => .of_players rfl 0
      rw [Action.weightAll, ← Nat.zero_add (Action.weightAll rest)]
      exact (hp a).weighs_bind fun reply =>
        (hrecord reply).weighs_bind fun _ => hrest

/-- A run takes off a world at least what its actions add. -/
theorem play_weighs (id : Nat) (what : Delivery) :
    Keeps (World.HeavierBy 0) (play performer id what) := by
  refine Keeps.get_bind fun w => ?_
  cases hplayer : w.players[id]? with
  | none => exact .of_players rfl 0
  | some p =>
      cases hremaining : p.remaining with
      | zero =>
          simp only [hremaining]
          exact .of_players rfl 0
      | succ n =>
          simp only [hremaining]
          have hspent := World.weight_begun what hplayer hremaining
          have hresponse := p.weightAll_response_le n what
          have hscript := playScript_weighs hp p.label 0 (p.response n what)
            (w.begun id p what n)
          unfold World.HeavierBy at hscript
          show ((playScript performer p.label 0 (p.response n what)).left
            (w.begun id p what n)).weight ≤ _
          omega

theorem call_weighs (k : Callback) (what : Delivery) :
    Keeps (World.HeavierBy 0) (call performer k what) := by
  have hnothing : Keeps (World.HeavierBy 0) (pure () : Act Unit) :=
    Keeps.pure World.heavierBy_zero_chained ()
  cases k with
  | player id => cases what <;> exact play_weighs hp id _
  | pauseSwitch r =>
      cases what with
      | signal s =>
          cases s with
          | pause paused =>
              exact fun w =>
                .of_players (Mirror.silent_switchPause w r paused).players 0
          | _ => exact hnothing
      | message bytes => exact hnothing
  | stopSwitch r =>
      cases what with
      | signal s =>
          cases s with
          | stop =>
              exact fun w =>
                .of_players (Mirror.silent_switchStop w r).players 0
          | _ => exact hnothing
      | message bytes => exact hnothing
  | detach j =>
      cases what with
      | signal s => exact hnothing
      | message bytes => exact fun _ => .of_players rfl 0

theorem callAll_weighs (s : Signal) (l : List (Nat × Callback)) :
    Keeps (World.HeavierBy 0) (callAll performer s l) :=
  Keeps.forM World.heavierBy_zero_chained l fun x _ =>
    call_weighs hp x.2 (.signal s)

theorem emitOn_weighs (b : Nat) (s : Signal) :
    Keeps (World.HeavierBy 0) (emitOn performer b s) := by
  refine Keeps.get_bind fun w => ?_
  cases (w.bus b).channel? s.event with
  | none => exact .of_players rfl 0
  | some channel =>
      exact Keeps.deliver World.heavierBy_zero_chained
        (fun id w => .of_players rfl 0)
        channel.listeners (fun x _ => call_weighs hp x.2 (.signal s)) w

theorem hand_weighs (number : Nat) (topic : String) (bytes : List UInt8)
    (k : Callback) :
    Keeps (World.HeavierBy 0) (hand performer number topic bytes k) :=
  Keeps.bind World.heavierBy_zero_chained
    (Keeps.modify fun _ => .of_players rfl 0)
    fun _ => call_weighs hp k (.message bytes)

theorem publishOn_weighs (number : Nat) (topic : String) (bytes : List UInt8) :
    Keeps (World.HeavierBy 0) (publishOn performer number topic bytes) := by
  refine Keeps.get_bind fun w => ?_
  cases (w.transport number).receivers topic with
  | error e => exact .of_players rfl 0
  | ok receivers =>
      have hR := World.heavierBy_zero_chained
      have hhand := Keeps.forM hR receivers fun k _ =>
        hand_weighs hp number topic bytes k
      exact hhand.bind hR (fun _ => Keeps.pure hR _) w

/-- An action adds to the world what it weighs at most. -/
theorem performWith_weighs (a : Action) :
    Keeps (World.HeavierBy a.weight) (performWith performer none a) := by
  have hR := World.heavierBy_zero_chained
  have hread : ∀ f : World → Reply,
      Keeps (World.HeavierBy 0) (do return f (← get)) :=
    fun f w => .of_players rfl 0
  cases a with
  | connect bus event label script runs =>
      rw [Action.weight_connect]
      exact connectPlayer_weighs bus event ⟨label, script, runs⟩
  | emit bus payload =>
      refine onBus_weighs fun b => Keeps.get_bind fun w => ?_
      cases payload.signal? w.names with
      | none => exact .of_players rfl 0
      | some s =>
          exact (emitOn_weighs hp b s).bind hR (fun n => Keeps.pure hR _) w
  | listeners bus event => exact onBus_weighs fun b => hread _
  | disconnect bus label =>
      exact onBus_weighs fun b => onConnection_weighs fun c =>
        Keeps.change fun w => .of_players rfl 0
  | isConnected bus label =>
      exact onBus_weighs fun b => onConnection_weighs fun c =>
        Keeps.change fun w => .of_players rfl 0
  | same label other =>
      exact onConnection_weighs fun c => onConnection_weighs fun d =>
        Keeps.pure hR _
  | describeBus bus => exact onBus_weighs fun b => hread _
  | describeChannel bus event fresh =>
      cases fresh with
      | true => exact Keeps.pure hR _
      | false =>
          exact onBus_weighs fun b => Keeps.change fun w => .of_players rfl 0
  | subscribe ref topic label script runs =>
      rw [Action.weight_subscribe]
      exact subscribePlayer_weighs ref topic ⟨label, script, runs⟩
  | publish t topic bytes =>
      refine (publishOn_weighs hp t topic bytes).bind hR fun result => ?_
      cases result <;> exact Keeps.pure hR _
  | subscribers t topic => exact hread _
  | topics t => exact hread _
  | describeTransport t => exact hread _
  | request label => exact requestJoint_weighs label
  | message label => exact requestJoint_weighs label
  | panic text => exact Keeps.throw hR _
  | onStore op => exact Keeps.pure hR _
  | ifTold heeds a => exact fun _ => .of_players rfl _

omit hp in
theorem perform_weighs : ∀ (depth : Nat) (a : Action),
    Keeps (World.HeavierBy a.weight) (perform depth none a)
  | 0, _ => fun _ => .of_players rfl _
  | depth + 1, a => performWith_weighs (perform_weighs depth) a

end Weighing
end Linkage
