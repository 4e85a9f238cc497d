/-!
# Text/Integer — reading whole numbers of 64 bits

A whole number is written with decimal digits, which low lines may group, and at most one sign in
front.  A number has a value if it lies between `-2^63` and `2^63 - 1`.
-/

namespace LosslessSyntax.Text.Integer

/-- The greatest number that has a value: one less than the 63rd power of two. -/
def greatest : Int := 9223372036854775807

/-- The least number that has a value: the 63rd power of two, negated. -/
def least : Int := -9223372036854775808

theorem least_eq_neg : least = -(greatest + 1) := by decide

/-- The value of a digit. -/
def digit (c : Char) : Nat := c.toNat - '0'.toNat

/-- The number that digits spell, the first the most significant. -/
def ofDigits (ds : List Char) : Nat := ds.foldl (fun n d => 10 * n + digit d) 0

/-- The number that digits spell, if there is at least one and nothing else. -/
def unsigned? (cs : List Char) : Option Nat :=
  if cs ≠ [] ∧ cs.all Char.isDigit then some (ofDigits cs) else none

/-- The number that digits behind at most one sign spell. -/
def signed? : List Char → Option Int
  | '-' :: cs => (unsigned? cs).map fun n => -(n : Int)
  | '+' :: cs => (unsigned? cs).map fun n => (n : Int)
  | cs => (unsigned? cs).map fun n => (n : Int)

/-- The value of a written number, if it is one and in range. -/
def parse? (cs : List Char) : Option Int :=
  (signed? (cs.filter (· ≠ '_'))).filter fun n => least ≤ n ∧ n ≤ greatest

theorem le_greatest_of_parse? {cs : List Char} {n : Int} (h : parse? cs = some n) :
    least ≤ n ∧ n ≤ greatest := by
  simpa using (Option.filter_eq_some_iff.mp h).2

/-- The written form of a number. -/
def render (n : Int) : String := toString n

end LosslessSyntax.Text.Integer
