/-!
# Text/Range — stretches of text

Places in a text are counted in bytes from its start.  A range runs from one place up to, but not
including, another; it is written `start..stop`.
-/

namespace LosslessSyntax

/-- The stretch of text from `start` up to `stop`. -/
structure TextRange where
  start : Nat
  stop : Nat
  deriving DecidableEq, Repr, Inhabited, Hashable

namespace TextRange

/-- The length of a range in bytes. -/
def length (r : TextRange) : Nat := r.stop - r.start

/-- Whether a range covers the whole of another. -/
def contains (r s : TextRange) : Bool := decide (r.start ≤ s.start ∧ s.stop ≤ r.stop)

/-- The written form of a range. -/
def render (r : TextRange) : String := s!"{r.start}..{r.stop}"

/-- Bounds in the wrong order enclose nothing. -/
structure Inverted where

/-- The range between two places, which must come in order. -/
def between (start stop : Nat) : Except Inverted TextRange :=
  if start ≤ stop then .ok ⟨start, stop⟩ else .error {}

theorem between_eq_ok {start stop : Nat} {r : TextRange} :
    between start stop = .ok r ↔ start ≤ stop ∧ r = ⟨start, stop⟩ := by
  unfold between
  split
  · next h => simp [h, eq_comm]
  · next h => simp [h]

theorem contains_refl (r : TextRange) : r.contains r = true := by simp [contains]

theorem contains_trans {r s t : TextRange} (h : r.contains s = true) (h' : s.contains t = true) :
    r.contains t = true := by
  simp only [contains, decide_eq_true_eq] at *
  omega

/-- Ranges that cover each other are the same. -/
theorem contains_antisymm {r s : TextRange} (h : r.contains s = true) (h' : s.contains r = true) :
    r = s := by
  obtain ⟨a, b⟩ := r
  obtain ⟨c, d⟩ := s
  simp only [contains, decide_eq_true_eq] at h h'
  rw [Nat.le_antisymm h.1 h'.1, Nat.le_antisymm h'.2 h.2]

end TextRange

end LosslessSyntax
