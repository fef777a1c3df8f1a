import Linkage.Proofs.World.Moments

/-!
# Announcements of scenarios

The laws of announcements hold for the listeners of a scenario at every depth of
nesting: what their actions do to buses is rewiring, and an announcement that a
listener makes is again one to which the laws apply, with the listeners that are
connected when it begins. Every bus that a session reaches satisfies them.

## Main results

* `emitOn_perform_eq_ok_iff`: an announcement calls what a cursor over the
  connected listeners calls and returns their number.
-/

namespace Linkage

open Act

/-- An announcement returns a number exactly when the cursor, starting below
every listener and bounded by the number that is next, makes that many calls;
and these are the calls that are owed. -/
theorem emitOn_perform_eq_ok_iff (depth b : Nat) (s : Signal) (n : Nat)
    {w w' : World} (hw : BusesSound w.buses) :
    (emitOn (perform depth) b s).run w = .ok n w' ↔
      ∃ runs, runs.length = n ∧
        Cursor (perform depth) b s (w.nextId b s.event) 0 w runs w' ∧
        Exact (perform depth) b s w runs w' :=
  emitOn_eq_ok_iff_of_rewires (perform_rewires depth) hw n

/-- Whether a call returns a number. -/
def returns (m : Act Nat) (w : World) (n : Nat) : Bool :=
  match m.run w with
  | .ok k _ => k == n
  | .error _ _ => false

theorem exists_of_returns {m : Act Nat} {w : World} {n : Nat}
    (h : returns m w n = true) :
    ∃ w', m.run w = .ok n w' := by
  unfold returns at h
  cases hrun : m.run w with
  | ok k w' =>
      rw [hrun] at h
      have hk : k = n := by simpa using h
      exact ⟨w', by rw [hk]⟩
  | error e w' =>
      rw [hrun] at h
      cases h

/-- Of three listeners the first disconnects the second, connects a fourth and
announces again, and the third disconnects itself when it is called from within;
so the outer announcement calls the first one only. -/
theorem emitOn_perform_of_rewiring_listeners :
    let w := Session.after {}
      [⟨.standalone 0, .act (.connect 0 .render "first" [.disconnect 0 "second",
        .connect 0 .render "fourth" [] 0, .emit 0 .render] 1)⟩,
      ⟨.standalone 0, .act (.connect 0 .render "second" [] 0)⟩,
      ⟨.standalone 0,
        .act (.connect 0 .render "third" [.disconnect 0 "third"] 1)⟩]
    BusesSound w.buses ∧ ∃ w' runs,
      (emitOn (perform 8) 0 .render).run w = .ok 1 w' ∧
      runs.length = 1 ∧
      Cursor (perform 8) 0 .render (w.nextId 0 .render) 0 w runs w' ∧
      Exact (perform 8) 0 .render w runs w' := by
  intro w
  have hsound : BusesSound w.buses := (Session.sound_after _).buses
  obtain ⟨w', hrun⟩ :=
    exists_of_returns (m := emitOn (perform 8) 0 .render) (w := w) (n := 1)
    (by decide +kernel)
  obtain ⟨runs, hlength, hcursor, hexact⟩ :=
    (emitOn_perform_eq_ok_iff 8 0 .render 1 hsound).1 hrun
  exact ⟨hsound, w', runs, hrun, hlength, hcursor, hexact⟩

end Linkage
