/-!
# Unicode/Ranges — sets of characters given by intervals of code points

A property of characters is stored as the increasing list of the intervals on which it holds.  A look
up walks the list and stops at the first interval that begins above the character.
-/

namespace LosslessSyntax.Unicode

/-- Closed intervals of code points, each below the next. -/
abbrev Ranges := List (Nat × Nat)

namespace Ranges

/-- Whether a code point lies in one of the intervals. -/
def covers : Ranges → Nat → Bool
  | [], _ => false
  | (lo, hi) :: rs, n => if n < lo then false else if n ≤ hi then true else covers rs n

@[simp] theorem covers_nil (n : Nat) : covers [] n = false := rfl

/-- A code point that is covered lies in some interval of the list. -/
theorem exists_mem_of_covers : ∀ {rs : Ranges} {n : Nat}, rs.covers n = true →
    ∃ r ∈ rs, r.1 ≤ n ∧ n ≤ r.2
  | [], _, h => absurd h (by simp)
  | (lo, hi) :: rs, n, h => by
      rw [covers] at h
      split at h
      · exact absurd h (by simp)
      · split at h
        · exact ⟨(lo, hi), by simp, by omega, by assumption⟩
        · obtain ⟨r, hr, hn⟩ := exists_mem_of_covers h
          exact ⟨r, List.mem_cons_of_mem _ hr, hn⟩

end Ranges

end LosslessSyntax.Unicode
