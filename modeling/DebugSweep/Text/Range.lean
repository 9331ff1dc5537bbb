/-! Sets of characters given by their code points, as rising, disjoint, inclusive ranges. -/
namespace DebugSweep.Text

/-- A rising table can be left as soon as a range starts above the point. -/
def inRanges (point : Nat) : List (Nat × Nat) → Bool
  | [] => false
  | (first, last) :: rest =>
      if point < first then false else if point ≤ last then true else inRanges point rest

end DebugSweep.Text
