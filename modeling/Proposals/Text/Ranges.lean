/-!
# `Proposals.Text.Ranges` — character classes given as lists of code point ranges

A property of the character standard is stored as the ascending list of its maximal closed ranges.

## Contents
- `inRanges`: membership of a code point in such a list.
-/

namespace Proposals.Text

/-- Whether the code point lies in one of the closed ranges. -/
def inRanges (table : List (Nat × Nat)) (point : Nat) : Bool :=
  table.any fun r => decide (r.1 ≤ point) && decide (point ≤ r.2)

end Proposals.Text
