/-!
# Sets of characters given by ranges

A property of characters is tabulated as ascending, disjoint ranges of code
points, first and last included.
-/

namespace Rill.Text

abbrev Ranges := Array (Nat × Nat)

def Ranges.holds (ranges : Ranges) (c : Char) : Bool :=
  ranges.any fun (first, last) => first ≤ c.toNat && c.toNat ≤ last

end Rill.Text
