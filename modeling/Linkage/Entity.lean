import Linkage.Number.Powers

/-!
# Entity handles

An entity is named by a handle: the index of its slot and the generation of
its life in that slot. Outside a store a handle travels as one 64-bit number,
the version in the upper and the index in the lower 32 bits, where the version
of generation `g` is the odd number `2 * g + 1`. Index 0 is never issued, and
the largest index names no entity.

## Main results

* `Entity.ofRaw_raw`: a handle within bounds is read back from its number.
* `Entity.raw_injective`: handles within bounds have different numbers.
-/

namespace Linkage

/-- A handle on an entity. -/
structure Entity where
  index : Nat
  generation : Nat
  deriving DecidableEq, Repr, Inhabited

namespace Entity

/-- Indices are below this bound. -/
def indexBound : Nat := twoTo 32

/-- Generations are below this bound; the next one after the last starts
over. -/
def generationBound : Nat := twoTo 31

/-- The handle of no entity. -/
def null : Entity := ⟨indexBound - 1, 0⟩

/-- Whether the index is the one that names no entity. -/
def isNull (e : Entity) : Bool := e.index = indexBound - 1

/-- The odd number that stands for the generation outside a store. -/
def version (e : Entity) : Nat := 2 * e.generation + 1

/-- The handle as one number. -/
def raw (e : Entity) : Nat := e.version * indexBound + e.index

/-- The handle of a number; an even version is taken as the odd one above it. -/
def ofRaw (n : Nat) : Entity :=
  ⟨n % indexBound, n / indexBound / 2 % generationBound⟩

/-- The text of a handle in messages. -/
def text (e : Entity) : String :=
  if e.isNull then "Entity(null)" else s!"Entity({e.index}v{e.version})"

/-- A handle whose parts fit their fields. -/
def WithinBounds (e : Entity) : Prop :=
  e.index < indexBound ∧ e.generation < generationBound

theorem ofRaw_raw {e : Entity} (h : e.WithinBounds) : ofRaw e.raw = e := by
  obtain ⟨i, g⟩ := e
  simp only [WithinBounds, indexBound, generationBound, twoTo, Nat.pow_eq] at h
  simp only [ofRaw, raw, version, indexBound, generationBound, twoTo,
    Nat.pow_eq, mk.injEq]
  omega

theorem raw_injective {e f : Entity} (he : e.WithinBounds) (hf : f.WithinBounds)
    (h : e.raw = f.raw) : e = f := by
  rw [← ofRaw_raw he, ← ofRaw_raw hf, h]

theorem withinBounds_ofRaw (n : Nat) : (ofRaw n).WithinBounds := by
  simp only [WithinBounds, ofRaw, indexBound, generationBound,
    twoTo, Nat.pow_eq]
  omega

theorem raw_pos (e : Entity) : 0 < e.raw := by
  simp only [raw, version, indexBound, twoTo, Nat.pow_eq]
  omega

end Entity

end Linkage
