import Linkage.Proofs.World.Keeps
import Mathlib.Data.List.Nodup

/-!
# Rewiring

What a listener can do to the buses is a sequence of moves: it opens a bus,
makes a channel, connects or disconnects. Numbers only grow and are never
reused, so among the listeners that were connected at some moment exactly those
are still connected later that no move has disconnected in between.

## Main results

* `BusesSound.moveAll`: moves keep every channel sound.
* `mem_listeners_moveAll`: which listeners of a moment are left after a sequence
  of moves.
-/

namespace Linkage

namespace Channel

variable {κ : Type}

/-- In a sorted list, dropping the first listener of a number leaves the others
in their order. -/
theorem eraseP_eq_filter {l : List (Nat × κ)}
    (h : l.Pairwise fun a b => a.1 < b.1) (id : Nat) :
    l.eraseP (·.1 = id) = l.filter (·.1 ≠ id) := by
  induction l with
  | nil => rfl
  | cons d l ih =>
      have hl := List.pairwise_cons.1 h
      by_cases hd : d.1 = id
      · have hrest : l.filter (·.1 ≠ id) = l := by
          rw [List.filter_eq_self]
          intro x hx
          have hlt := hl.1 x hx
          simp only [decide_eq_true_eq]
          omega
        rw [List.eraseP_cons_of_pos (by simpa using hd),
          List.filter_cons_of_neg (by simpa using hd), hrest]
      · rw [List.eraseP_cons_of_neg (by simpa using hd),
          List.filter_cons_of_pos (by simpa using hd), ih hl.2]

/-- A disconnection drops the listener of a number and leaves the others in
their order. -/
theorem listeners_disconnect {c : Channel κ} (h : c.Sound) (id : Nat) :
    (c.disconnect id).2.listeners = c.listeners.filter (·.1 ≠ id) := by
  unfold disconnect
  split
  · exact eraseP_eq_filter h.sorted id
  · next hc =>
    refine (List.filter_eq_self.2 fun x hx => ?_).symm
    rw [decide_eq_true_eq]
    exact fun hid => hc (List.any_eq_true.2 ⟨x, hx, by simpa using hid⟩)

theorem mem_disconnect_iff {c : Channel κ} (h : c.Sound) (id : Nat)
    (x : Nat × κ) :
    x ∈ (c.disconnect id).2.listeners ↔ x ∈ c.listeners ∧ x.1 ≠ id := by
  rw [listeners_disconnect h, List.mem_filter, decide_eq_true_eq]

theorem mem_of_mem_disconnect {c : Channel κ} {id : Nat} {x : Nat × κ}
    (hx : x ∈ (c.disconnect id).2.listeners) : x ∈ c.listeners := by
  unfold disconnect at hx
  split at hx
  · exact List.mem_of_mem_eraseP hx
  · exact hx

theorem nextId_disconnect (c : Channel κ) (id : Nat) :
    (c.disconnect id).2.nextId = c.nextId := by
  unfold disconnect
  split <;> rfl

/-- Listeners of one number are the same listener. -/
theorem eq_of_id_eq {c : Channel κ} (h : c.Sound) {x y : Nat × κ}
    (hx : x ∈ c.listeners) (hy : y ∈ c.listeners) (hid : x.1 = y.1) :
    x = y := by
  have hnodup : (c.listeners.map Prod.fst).Nodup := by
    rw [List.Nodup, List.pairwise_map]
    exact h.sorted.imp Nat.ne_of_lt
  exact List.inj_on_of_nodup_map hnodup hx hy hid

theorem isConnected_iff (c : Channel κ) (id : Nat) :
    c.isConnected id = true ↔ ∃ x ∈ c.listeners, x.1 = id := by
  simp [isConnected]

end Channel

/-- The bus at a place of a list, empty beyond its end. -/
def busAt (buses : List (Bus Callback)) (b : Nat) : Bus Callback :=
  (buses[b]?).getD {}

/-- The channel of an event on the bus at a place. -/
def channelAt (buses : List (Bus Callback)) (b : Nat) (e : Event) :
    Channel Callback :=
  (busAt buses b).channel e

/-- A change that a listener can make to the buses. -/
inductive Move
  | openBus
  | openChannel (b : Nat) (e : Event)
  | connect (b : Nat) (e : Event) (k : Callback)
  | disconnect (b : Nat) (c : Connection)

namespace Move

/-- Make a move. -/
def apply (buses : List (Bus Callback)) : Move → List (Bus Callback)
  | .openBus => buses ++ [{}]
  | .openChannel b e => buses.set b ((busAt buses b).ensure e)
  | .connect b e k => buses.set b ((busAt buses b).connect e k).2
  | .disconnect b c => buses.set b ((busAt buses b).disconnect c).2

end Move

/-- Make moves, one after the other. -/
def moveAll (buses : List (Bus Callback)) (moves : List Move) :
    List (Bus Callback) :=
  moves.foldl Move.apply buses

/-- Every channel of every bus is sound. -/
def BusesSound (buses : List (Bus Callback)) : Prop :=
  ∀ b e, (channelAt buses b e).Sound

/-! ## One move -/

namespace Bus

variable {κ : Type}

theorem channel_update (bus : Bus κ) (e f : Event) (c : Channel κ) :
    (bus.update e c).channel f = if f = e then c else bus.channel f := by
  simp only [channel, channel?_update]
  split <;> rfl

theorem channel_ensure (bus : Bus κ) (e f : Event) :
    (bus.ensure e).channel f = bus.channel f := by
  rw [ensure, channel_update]
  split
  · next h => rw [h]
  · rfl

theorem channel_connect (bus : Bus κ) (e f : Event) (k : κ) :
    (bus.connect e k).2.channel f =
      if f = e then ((bus.channel f).connect k).2 else bus.channel f := by
  rw [connect, channel_update]
  by_cases h : f = e
  · subst h
    rfl
  · simp [h]

theorem channel_disconnect (bus : Bus κ) (c : Connection) (f : Event) :
    (bus.disconnect c).2.channel f =
      if f = c.event then ((bus.channel f).disconnect c.id).2 else
          bus.channel f := by
  unfold disconnect
  cases hc : bus.channel? c.event with
  | none =>
      by_cases h : f = c.event
      · have hempty : bus.channel f = {} := by simp [channel, h, hc]
        rw [if_pos h, hempty]
        rfl
      · simp [h]
  | some channel =>
      show (bus.update c.event _).channel f = _
      rw [channel_update]
      by_cases h : f = c.event
      · have hchannel : bus.channel f = channel := by simp [Bus.channel, h, hc]
        simp [h, ← hchannel]
      · simp [h]

end Bus

theorem busAt_set (buses : List (Bus Callback)) (b c : Nat)
    (bus : Bus Callback) :
    busAt (buses.set b bus) c = if b = c ∧ b < buses.length then bus
    else busAt buses c := by
  by_cases h : b = c
  · subst h
    by_cases hlt : b < buses.length <;> simp [busAt, hlt]
  · simp [busAt, h]

theorem busAt_openBus (buses : List (Bus Callback)) (c : Nat) :
    busAt (buses ++ [({} : Bus Callback)]) c = busAt buses c := by
  simp only [busAt]
  rcases Nat.lt_trichotomy c buses.length with h | rfl | h
  · rw [List.getElem?_append_left h]
  · simp
  · rw [List.getElem?_eq_none (by simp; omega),
      List.getElem?_eq_none (by omega)]

theorem channelAt_of_length_le {buses : List (Bus Callback)} {b : Nat}
    (h : buses.length ≤ b) (e : Event) : channelAt buses b e = {} := by
  simp [channelAt, busAt, h]
  rfl

/-- What a move does to one channel: nothing, a connection, or the disconnection
of a number. -/
theorem channelAt_apply (buses : List (Bus Callback)) (m : Move)
    (b : Nat) (e : Event) :
    (channelAt (m.apply buses) b e = channelAt buses b e ∧
      ∀ id, m ≠ .disconnect b ⟨e, id⟩) ∨
    (∃ k, channelAt (m.apply buses) b e = ((channelAt buses b e).connect k).2 ∧
      m = .connect b e k) ∨
    ∃ id, channelAt (m.apply buses) b e =
      ((channelAt buses b e).disconnect id).2 ∧
      m = .disconnect b ⟨e, id⟩ := by
  cases m with
  | openBus =>
      refine .inl ⟨?_, by simp⟩
      simp only [channelAt, Move.apply, busAt_openBus]
  | openChannel c f =>
      refine .inl ⟨?_, by simp⟩
      simp only [channelAt, Move.apply, busAt_set]
      split
      · next h => rw [Bus.channel_ensure, h.1]
      · rfl
  | connect c f k =>
      simp only [channelAt, Move.apply, busAt_set]
      split
      · next h =>
        rw [Bus.channel_connect, h.1]
        split
        · next he => exact .inr (.inl ⟨k, rfl, by rw [he]⟩)
        · exact .inl ⟨rfl, by simp⟩
      · exact .inl ⟨rfl, by simp⟩
  | disconnect c d =>
      obtain ⟨f, id⟩ := d
      by_cases h : c = b ∧ f = e
      · obtain ⟨rfl, rfl⟩ := h
        refine .inr (.inr ⟨id, ?_, rfl⟩)
        by_cases hlt : c < buses.length
        · simp [channelAt, Move.apply, busAt_set, hlt, Bus.channel_disconnect]
        · have hset : Move.apply buses (.disconnect c ⟨f, id⟩) = buses :=
            List.set_eq_of_length_le (by omega)
          rw [hset, channelAt_of_length_le (by omega)]
          rfl
      · have hne : ∀ id',
            Move.disconnect c ⟨f, id⟩ ≠ .disconnect b ⟨e, id'⟩ := by
          intro id' heq
          simp only [Move.disconnect.injEq, Connection.mk.injEq] at heq
          exact h ⟨heq.1, heq.2.1⟩
        refine .inl ⟨?_, hne⟩
        simp only [channelAt, Move.apply, busAt_set]
        split
        · next hc =>
          have hfe : e ≠ f := fun heq => h ⟨hc.1, heq.symm⟩
          rw [Bus.channel_disconnect, if_neg hfe, hc.1]
        · rfl

theorem BusesSound.apply {buses : List (Bus Callback)}
    (h : BusesSound buses) (m : Move) :
    BusesSound (m.apply buses) := by
  intro b e
  rcases channelAt_apply buses m b e with ⟨heq, -⟩ | ⟨k, heq, -⟩ | ⟨id, heq, -⟩
  · exact heq ▸ h b e
  · exact heq ▸ (h b e).connect k
  · exact heq ▸ (h b e).disconnect id

theorem nextId_le_apply (buses : List (Bus Callback)) (m : Move)
    (b : Nat) (e : Event) :
    (channelAt buses b e).nextId ≤ (channelAt (m.apply buses) b e).nextId := by
  rcases channelAt_apply buses m b e with ⟨heq, -⟩ | ⟨k, heq, -⟩ | ⟨id, heq, -⟩
  · exact Nat.le_of_eq (congrArg Channel.nextId heq.symm)
  · rw [heq]
    exact Nat.le_succ _
  · exact Nat.le_of_eq (by rw [heq, Channel.nextId_disconnect])

/-- A listener with a number from before a move is there after it unless the
move has disconnected it. -/
theorem mem_listeners_apply {buses : List (Bus Callback)}
    (h : BusesSound buses) (m : Move) (b : Nat) (e : Event) {x : Nat × Callback}
    (hx : x.1 < (channelAt buses b e).nextId) :
    x ∈ (channelAt (m.apply buses) b e).listeners ↔
      x ∈ (channelAt buses b e).listeners ∧ m ≠ .disconnect b ⟨e, x.1⟩ := by
  rcases channelAt_apply buses m b e with ⟨heq, hne⟩ | ⟨k, heq, rfl⟩ |
    ⟨id, heq, rfl⟩
  · simp [heq, hne]
  · have hnew : x ≠ ((channelAt buses b e).nextId, k) := by
      rintro rfl
      exact Nat.lt_irrefl _ hx
    simp [heq, Channel.connect, hnew]
  · rw [heq, Channel.mem_disconnect_iff (h b e)]
    simp [eq_comm]

/-! ## Sequences of moves -/

theorem BusesSound.moveAll {buses : List (Bus Callback)} (h : BusesSound buses)
    (moves : List Move) : BusesSound (moveAll buses moves) := by
  induction moves generalizing buses with
  | nil => exact h
  | cons m moves ih => exact ih (h.apply m)

/-- A listener with a number from before some moves is there after them unless
one of them has disconnected it. -/
theorem mem_listeners_moveAll {buses : List (Bus Callback)}
    (h : BusesSound buses) (moves : List Move) (b : Nat) (e : Event)
    {x : Nat × Callback} (hx : x.1 < (channelAt buses b e).nextId) :
    x ∈ (channelAt (moveAll buses moves) b e).listeners ↔
      x ∈ (channelAt buses b e).listeners ∧
      Move.disconnect b ⟨e, x.1⟩ ∉ moves := by
  induction moves generalizing buses with
  | nil => simp [Linkage.moveAll]
  | cons m moves ih =>
      have hnext := Nat.lt_of_lt_of_le hx (nextId_le_apply buses m b e)
      show x ∈ (channelAt (Linkage.moveAll (m.apply buses) moves) b
        e).listeners ↔ _
      rw [ih (h.apply m) hnext, mem_listeners_apply h m b e hx, List.mem_cons,
        not_or, and_assoc]
      simp [eq_comm]

namespace World

/-- The buses of the second world come from those of the first by moves. -/
def Rewired (w w' : World) : Prop := ∃ moves, w'.buses = moveAll w.buses moves

theorem rewired_chained : Act.Chained Rewired := by
  refine { refl := fun w => ⟨[], rfl⟩, trans := ?_ }
  rintro w₁ w₂ w₃ ⟨moves, h⟩ ⟨moves', h'⟩
  exact ⟨moves ++ moves',
    by rw [h', h, moveAll, moveAll, moveAll, List.foldl_append]⟩

theorem Rewired.of_buses_eq {w w' : World} (h : w'.buses = w.buses) :
    Rewired w w' := ⟨[], h⟩

end World

end Linkage
