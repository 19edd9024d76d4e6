/-
# ShellScript.Spelling -- reserved words that a misspelt word may have meant

The distance of two texts (`Text.distance`) is the least number of insertions,
deletions and substitutions of one character that turn one into the other.  It is
computed row by row: the row of a beginning of the longer text holds the distances
from it to every beginning of the shorter text, the empty beginning first.  Only the
row before is kept for the next one, and the last cell of the last row is the answer.

A word is compared without regard to case.  A reserved word is offered if it is
one or two edits away, never if it is spelt right; nearer ones come first, ties
keep the order of the table of reserved words, and three offers are enough
(`Spelling.corrections`).
-/
import ShellScript.Token.Kind

namespace ShellScript

set_option autoImplicit false

/-! ## How many edits lie between two texts -/

namespace Text

/-- The cells of the row of `a ++ [x]` behind its cell `left`, for the characters
still to come, from the row of `a` from the cell over `left` on.  The cheapest of
three edits wins: delete `x`, insert the character that comes, or let `x` stand
for it, which is free if they are the same. -/
def cells (x : Char) : List Char → List Nat → Nat → List Nat
  | y :: ys, corner :: above :: row, left =>
      let cell := min (above + 1) (min (left + 1) (corner + if x = y then 0 else 1))
      cell :: cells x ys (above :: row) cell
  | _, _, _ => []

/-- The last row against `b`, where `row` is the row of the first `n` characters
and `a` are the others. -/
def lastRow (b : List Char) : Nat → List Nat → List Char → List Nat
  | _, row, [] => row
  | n, row, x :: a => lastRow b (n + 1) ((n + 1) :: cells x b row (n + 1)) a

/-- The distance from `a` to a text that is no longer. -/
def distanceFrom (a b : List Char) : Nat :=
  if b.isEmpty then a.length
  else (lastRow b 0 (List.range (b.length + 1)) a).getLastD 0

/-- The least number of edits of one character that turn `a` into `b`. -/
def distance (a b : String) : Nat :=
  if a.length < b.length then distanceFrom b.toList a.toList
  else distanceFrom a.toList b.toList

end Text

/-! ## Reserved words close by -/

namespace Spelling

/-- A character in lower case, as far as a comparison with ASCII words can tell.
Apart from the ASCII capitals only two characters have an ASCII letter in their
lower case: the dotted capital I, which becomes two characters, and the Kelvin
sign.  Any other character stays one character that no ASCII word holds. -/
def lowerCase (c : Char) : List Char :=
  if c = '\u0130' then ['i', '\u0307']
  else if c = '\u212A' then ['k']
  else [c.toLower]

/-- A word in lower case, as far as a comparison with ASCII words can tell. -/
def fold (word : String) : String := String.ofList (word.toList.flatMap lowerCase)

/-- The reserved words exactly `n` edits away from a word in lower case. -/
def atDistance (word : String) (n : Nat) : List String :=
  (Kind.keywords.map Prod.fst).filter fun k => Text.distance word k = n

/-- The reserved words a misspelt word may have meant, the likeliest first. -/
def corrections (word : String) : List String :=
  (atDistance (fold word) 1 ++ atDistance (fold word) 2).take 3

end Spelling

end ShellScript
