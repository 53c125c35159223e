/-!
# `Proposals.Text.Blank` — white space

Blanks separate words, surround numbers and signatures, and are dropped at both ends of an amount.
The class is that of the character standard: all separators, tab, line feed and their relatives,
the four information separators, and the next-line character.

## Contents
- `isBlank`: the class.
- `strip`: a text without the blanks at its ends.
- `words`: its maximal pieces without blanks.
-/

namespace Proposals.Text

/-- The blank characters. -/
def isBlank (c : Char) : Bool :=
  let n := c.toNat
  (9 ≤ n && n ≤ 13) || (28 ≤ n && n ≤ 32) || n == 0x85 || n == 0xa0 || n == 0x1680 ||
    (0x2000 ≤ n && n ≤ 0x200a) || n == 0x2028 || n == 0x2029 || n == 0x202f || n == 0x205f ||
    n == 0x3000

/-- The text without its leading blanks. -/
def stripLeft (cs : List Char) : List Char := cs.dropWhile isBlank

/-- The text without its trailing blanks. -/
def stripRight (cs : List Char) : List Char := (cs.reverse.dropWhile isBlank).reverse

/-- The text without the blanks at its ends. -/
def strip (cs : List Char) : List Char := stripRight (stripLeft cs)

/-- The first word, empty if the text opens with a blank, and the words after it. -/
def splitWords : List Char → List Char × List (List Char)
  | [] => ([], [])
  | c :: cs =>
    let (word, rest) := splitWords cs
    if isBlank c then ([], if word.isEmpty then rest else word :: rest) else (c :: word, rest)

/-- The words of a text: its maximal nonempty pieces without blanks. -/
def words (cs : List Char) : List (List Char) :=
  let (word, rest) := splitWords cs
  if word.isEmpty then rest else word :: rest

end Proposals.Text
