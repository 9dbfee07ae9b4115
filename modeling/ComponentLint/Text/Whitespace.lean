import ComponentLint.Text.Basic

/-!
# Whitespace

The characters of the Unicode property `White_Space`, and the ASCII punctuation.

## Main definitions

* `Text.isSpace c` — `c` is whitespace.
* `Text.isPunctuation c` — `c` is a visible ASCII character that is neither letter nor digit.
* `Text.words t` — the runs of `t` between whitespace.
-/

namespace ComponentLint.Text

/-- The characters of the Unicode property `White_Space`. -/
def isSpace (c : Char) : Bool :=
  let n := c.toNat
  (0x09 ≤ n && n ≤ 0x0d) || n == 0x20 || n == 0x85 || n == 0xa0 || n == 0x1680 ||
    (0x2000 ≤ n && n ≤ 0x200a) || n == 0x2028 || n == 0x2029 || n == 0x202f || n == 0x205f ||
    n == 0x3000

/-- The visible ASCII characters that are neither letters nor digits. -/
def isPunctuation (c : Char) : Bool :=
  let n := c.toNat
  (0x21 ≤ n && n ≤ 0x2f) || (0x3a ≤ n && n ≤ 0x40) || (0x5b ≤ n && n ≤ 0x60) ||
    (0x7b ≤ n && n ≤ 0x7e)

/-- The non-empty runs of characters between whitespace, given the run read so far. -/
def wordsFrom (run : Text) : Text → List Text
  | [] => if run.isEmpty then [] else [run.reverse]
  | c :: t =>
    if isSpace c then
      if run.isEmpty then wordsFrom [] t else run.reverse :: wordsFrom [] t
    else wordsFrom (c :: run) t

/-- The non-empty runs of characters between whitespace. -/
def words (t : Text) : List Text := wordsFrom [] t

end ComponentLint.Text
