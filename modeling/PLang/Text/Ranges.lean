/-!
# Sets of code points by their runs

A set of code points is given by the lengths of the runs of code points that are outside and inside
of it, in turn, starting with a run outside.
-/

namespace PLang

/-- Whether `n` lies in the set with the given runs. -/
def withinRuns : List Nat → Nat → Bool
  | outside :: inside :: runs, n =>
    outside ≤ n && (n < outside + inside || withinRuns runs (n - (outside + inside)))
  | _, _ => false

end PLang
