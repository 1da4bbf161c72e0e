/-!
# Ranges of characters

Sets of characters as closed ranges of code points in ascending order.
-/

namespace LayeredConfig.Text

def inRanges (ranges : List (Nat × Nat)) (c : Char) : Bool :=
  ranges.any fun (low, high) => low ≤ c.toNat && c.toNat ≤ high

end LayeredConfig.Text
