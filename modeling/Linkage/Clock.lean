import Linkage.Number.Powers

/-!
# Simulated time

Time advances in whole nanoseconds. A duration has at most `2^64 - 1` full
seconds, which bounds the clock; adding past that bound has no result.
-/

namespace Linkage

/-- A span of time. -/
structure Duration where
  nanoseconds : Nat
  deriving DecidableEq, Repr, Inhabited

namespace Duration

/-- Nanoseconds in a second. -/
def perSecond : Nat := tenTo 9

/-- Durations are below this count of nanoseconds. -/
def bound : Nat := twoTo 64 * perSecond

/-- No time. -/
def zero : Duration := ⟨0⟩

/-- Full seconds. -/
def seconds (d : Duration) : Nat := d.nanoseconds / perSecond

/-- Nanoseconds beyond the full seconds. -/
def remainder (d : Duration) : Nat := d.nanoseconds % perSecond

/-- A duration from seconds and nanoseconds, where the nanoseconds may exceed a
second, unless it is too long. -/
def ofParts? (seconds nanoseconds : Nat) : Option Duration :=
  let total := seconds * perSecond + nanoseconds
  if total < bound then some ⟨total⟩ else none

/-- The sum of two durations, unless it is too long. -/
def add? (a b : Duration) : Option Duration :=
  if a.nanoseconds + b.nanoseconds < bound then
    some ⟨a.nanoseconds + b.nanoseconds⟩ else none

theorem add?_eq_some_iff (a b c : Duration) :
    a.add? b = some c ↔
      a.nanoseconds + b.nanoseconds = c.nanoseconds ∧
      c.nanoseconds < bound := by
  unfold add?
  constructor
  · intro h
    split at h
    · next hlt => cases h; exact ⟨rfl, hlt⟩
    · cases h
  · rintro ⟨h, hlt⟩
    rw [if_pos (h ▸ hlt), h]

end Duration

/-- What a system is told about the step it runs in: how many steps were
completed before it, the time simulated by them, and the length of a step. -/
structure StepInfo where
  iterations : Nat := 0
  simTime : Duration := .zero
  dt : Duration := .zero
  deriving DecidableEq, Repr, Inhabited

end Linkage
