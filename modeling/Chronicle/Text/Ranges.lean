/-!
# Ranges of code points

A character property is an ascending array of closed ranges, searched by bisection.
-/

namespace Chronicle.Text

/-- An ascending array of closed ranges of code points. -/
abbrev Ranges := Array (Nat × Nat)

namespace Ranges

/-- Bisection of the ranges with index from `low` below `high`, at most `steps` times. -/
def search (ranges : Ranges) (point low high : Nat) : (steps : Nat) → Bool
  | 0 => false
  | steps + 1 =>
    if low < high then
      let middle := (low + high) / 2
      match ranges[middle]? with
      | none => false
      | some (first, last) =>
        if point < first then search ranges point low middle steps
        else if last < point then search ranges point (middle + 1) high steps
        else true
    else false

/-- Whether one of the ranges holds the code point. Each step at least halves what is left. -/
def holds (ranges : Ranges) (point : Nat) : Bool :=
  search ranges point 0 ranges.size (ranges.size.log2 + 1)

end Ranges

end Chronicle.Text
