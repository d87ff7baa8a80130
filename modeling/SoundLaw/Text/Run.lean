/-!
# Runs of code points

A class of characters is stored as a list of runs. A run names its first and last code point and
the step between neighbours, so that alternating capital and small letters need one entry each.
-/

namespace SoundLaw.Text

/-- Whether a code point lies on a run, given by its first and last member and its step. -/
def inRun (run : Nat × Nat × Nat) (code : Nat) : Bool :=
  run.1 ≤ code && code ≤ run.2.1 && (code - run.1) % run.2.2 == 0

/-- Whether a code point lies on one of the runs. -/
def inRuns (runs : List (Nat × Nat × Nat)) (code : Nat) : Bool :=
  runs.any (inRun · code)

end SoundLaw.Text
