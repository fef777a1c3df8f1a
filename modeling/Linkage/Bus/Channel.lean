/-!
# Channels

A channel delivers to its listeners in connection order. Every connection gets
the next number of its channel and numbers are never reused, so a number names
one listener for good. Every connection that was ever made has a flag, which is
up until it is disconnected.

Delivery walks over the listeners that were connected when it began and looks
before each turn whether the flag of that listener is still up. A listener that
is disconnected meanwhile is therefore skipped, and one that is connected
meanwhile waits for the next delivery. The walk is written over an arbitrary
effect, because what a listener does may change the channel itself.

## Main results

* `Channel.Sound.connect`, `Channel.Sound.disconnect`: listener numbers stay
  strictly increasing and below the next number, and the flags that are up stay
  those of the connected listeners.
* `Channel.isConnected_connect`, `Channel.isConnected_disconnect`: each
  operation changes the connection of its own listener only.
-/

namespace Linkage

/-- Listeners in connection order, the number of the next connection, and the
flags of all connections by their numbers. -/
structure Channel (κ : Type) where
  listeners : List (Nat × κ) := []
  nextId : Nat := 0
  flags : List Bool := []
  deriving DecidableEq, Repr

namespace Channel

variable {κ : Type}

/-- Whether a connection is in place. -/
def isConnected (c : Channel κ) (id : Nat) : Bool := c.listeners.any (·.1 = id)

/-- Whether the flag of a connection is up. -/
def flag (c : Channel κ) (id : Nat) : Bool := (c.flags[id]?).getD false

/-- How many listeners are connected. -/
def count (c : Channel κ) : Nat := c.listeners.length

/-- Connect a listener. -/
def connect (c : Channel κ) (k : κ) : Nat × Channel κ :=
  (c.nextId, ⟨c.listeners ++ [(c.nextId, k)], c.nextId + 1, c.flags ++ [true]⟩)

/-- Disconnect the listener of a connection and tell whether there was one. -/
def disconnect (c : Channel κ) (id : Nat) : Bool × Channel κ :=
  if c.isConnected id then
    (true, { c with
      listeners := c.listeners.eraseP (·.1 = id)
      flags := c.flags.set id false })
  else (false, c)

theorem isConnected_connect (c : Channel κ) (k : κ) (id : Nat) :
    (c.connect k).2.isConnected id = (c.isConnected id || id == c.nextId) := by
  simp [isConnected, connect, Bool.beq_eq_decide_eq, eq_comm]

theorem isConnected_disconnect {c : Channel κ}
    (h : c.listeners.Pairwise fun a b => a.1 < b.1) (id other : Nat) :
    (c.disconnect id).2.isConnected other =
      (c.isConnected other && other != id) := by
  have key : ∀ l : List (Nat × κ), l.Pairwise (fun a b => a.1 < b.1) →
      (l.eraseP (·.1 = id)).any (·.1 = other) =
        (l.any (·.1 = other) && other != id) := by
    intro l hl
    induction l with
    | nil => rfl
    | cons d l ih =>
        have hl' := List.pairwise_cons.1 hl
        by_cases hd : d.1 = id
        · have herase : (d :: l).eraseP (·.1 = id) = l := by simp [hd]
          rw [herase]
          by_cases ho : other = id
          · subst ho
            have hnone : l.any (·.1 = other) = false := by
              rw [List.any_eq_false]
              intro x hx
              have := hl'.1 x hx
              simp only [decide_eq_true_eq]
              omega
            simp [hnone]
          · have hne : ¬ d.1 = other := fun e => ho (e.symm.trans hd)
            simp [hne, ho]
        · have herase : (d :: l).eraseP (·.1 = id) =
              d :: l.eraseP (·.1 = id) := by
            simp [hd]
          rw [herase, List.any_cons, ih hl'.2, List.any_cons]
          by_cases ho : other = id
          · subst ho; simp [hd]
          · simp [bne_iff_ne.2 ho]
  unfold disconnect
  split
  · exact key c.listeners h
  · next hc =>
    by_cases ho : other = id
    · subst ho; simp_all
    · simp [ho]

theorem flag_connect {c : Channel κ} (h : c.flags.length = c.nextId)
    (k : κ) (id : Nat) :
    (c.connect k).2.flag id = (c.flag id || id == c.nextId) := by
  simp only [flag, connect]
  rcases Nat.lt_trichotomy id c.nextId with hlt | rfl | hgt
  · have hne : id ≠ c.nextId := by omega
    rw [List.getElem?_append_left (by omega)]
    simp [hne]
  · simp [← h]
  · have hne : id ≠ c.nextId := by omega
    rw [List.getElem?_eq_none (by simp; omega),
      List.getElem?_eq_none (by omega)]
    simp [hne]

theorem flag_disconnect {c : Channel κ} {id : Nat} (h : c.isConnected id = true)
    (other : Nat) :
    (c.disconnect id).2.flag other = (c.flag other && other != id) := by
  simp only [disconnect, h, if_true, flag, List.getElem?_set]
  by_cases ho : id = other
  · subst ho
    by_cases hlt : id < c.flags.length <;> simp [hlt]
  · simp [ho, bne_iff_ne.2 (Ne.symm ho)]

/-- Numbers increase along the list and stay below the next number, every number
that was given out has a flag, and the flags that are up are those of the
connected listeners. -/
structure Sound (c : Channel κ) : Prop where
  sorted : c.listeners.Pairwise fun a b => a.1 < b.1
  below : ∀ l ∈ c.listeners, l.1 < c.nextId
  flags_length : c.flags.length = c.nextId
  flag_eq : ∀ id, c.flag id = c.isConnected id

theorem sound_empty : Sound ({} : Channel κ) :=
  { sorted := .nil, below := by simp, flags_length := rfl,
    flag_eq := fun _ => rfl }

theorem Sound.connect {c : Channel κ} (h : c.Sound) (k : κ) :
    (c.connect k).2.Sound := by
  refine { sorted := ?_, below := ?_, flags_length := ?_, flag_eq := ?_ }
  · refine List.pairwise_append.2 ⟨h.sorted, by simp, ?_⟩
    intro a ha b hb
    rw [List.mem_singleton] at hb
    subst hb
    exact h.below a ha
  · intro l hl
    simp only [Channel.connect, List.mem_append, List.mem_singleton] at hl ⊢
    rcases hl with hl | rfl
    · exact Nat.lt_succ_of_lt (h.below l hl)
    · exact Nat.lt_succ_self _
  · simp [Channel.connect, h.flags_length]
  · intro id
    rw [flag_connect h.flags_length, isConnected_connect, h.flag_eq]

theorem Sound.disconnect {c : Channel κ} (h : c.Sound) (id : Nat) :
    (c.disconnect id).2.Sound := by
  by_cases hc : c.isConnected id = true
  · refine { sorted := ?_, below := ?_, flags_length := ?_, flag_eq := ?_ }
    · simpa [Channel.disconnect, hc] using h.sorted.sublist List.eraseP_sublist
    · intro l hl
      simp only [Channel.disconnect, hc, if_true] at hl ⊢
      exact h.below l (List.mem_of_mem_eraseP hl)
    · simp [Channel.disconnect, hc, h.flags_length]
    · intro other
      rw [flag_disconnect hc, isConnected_disconnect h.sorted, h.flag_eq]
  · have hsame : (c.disconnect id).2 = c := by simp [Channel.disconnect, hc]
    rwa [hsame]

/-- Deliver to the listeners of a list whose flags are still up at their turn,
and count them. -/
def deliver {m : Type → Type} [Monad m] (flag : Nat → m Bool)
    (call : κ → m Unit) :
    List (Nat × κ) → m Nat
  | [] => pure 0
  | (id, k) :: rest => do
      if ← flag id then
        call k
        return (← deliver flag call rest) + 1
      else
        deliver flag call rest

end Channel

end Linkage
