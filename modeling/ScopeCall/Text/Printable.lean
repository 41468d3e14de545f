import ScopeCall.Text.Combining
import ScopeCall.Text.Unprintable

/-!
# `ScopeCall.Text.Printable` — which characters can stand for themselves

A character can be shown as itself if it shows something, and shows it without touching the character
before it.

## Contents
- `inRanges`: membership in a table of ranges.
- `isPrintable`.
-/

namespace ScopeCall.Text

/-- Whether a code point lies in one of several ranges. -/
def inRanges (ranges : List (Nat × Nat)) (code : Nat) : Bool :=
  ranges.any fun (lo, hi) => lo ≤ code && code ≤ hi

/-- Whether a character can be shown as itself inside quotes. -/
def isPrintable (c : Char) : Bool :=
  if c.toNat < 0x7f then 0x20 ≤ c.toNat
  else !inRanges unprintable c.toNat && !inRanges combining c.toNat

end ScopeCall.Text
