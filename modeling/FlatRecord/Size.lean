/-!
# Sizes

Widths, offsets and lengths are natural numbers below `2 ^ 64`, the sizes of a
64-bit machine. A sum or product that does not stay below is not a size, and
the two operations here say so instead of going on.
-/

namespace FlatRecord.Size

/-- The first number that is too large to be a size, `2 ^ 64`. -/
def limit : Nat := 18446744073709551616

/-- The number, when it is a size. -/
def ofNat? (n : Nat) : Option Nat := if n < limit then some n else none

/-- The sum, when it is a size. -/
def add? (a b : Nat) : Option Nat := ofNat? (a + b)

/-- The product, when it is a size. -/
def mul? (a b : Nat) : Option Nat := ofNat? (a * b)

theorem ofNat?_eq_some_iff {n m : Nat} : ofNat? n = some m ↔ n < limit ∧ m = n := by
  unfold ofNat?
  split
  · simp [*, eq_comm]
  · simp [*]

theorem ofNat?_eq_none_iff {n : Nat} : ofNat? n = none ↔ limit ≤ n := by
  simp [ofNat?]

/-- A product with something added is a size when the sum is: the product on its
own need not be looked at. -/
theorem bind_add?_ofNat? (a b : Nat) : (ofNat? a).bind (add? · b) = ofNat? (a + b) := by
  unfold ofNat? add?
  split
  · rfl
  · exact (ofNat?_eq_none_iff.2 (by omega)).symm

end FlatRecord.Size
