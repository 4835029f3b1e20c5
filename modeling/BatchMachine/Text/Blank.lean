/-!
# Blank characters and words of a line

Job texts are cut into words at blank characters. Blank means the Unicode property White_Space,
not just the blanks of ASCII.

* `words`: the pieces between blanks that hold at least one character.
* `trim`: a text without its leading and trailing blanks.
-/

namespace BatchMachine.Text

/-- `c` has the Unicode property White_Space. -/
def isBlank (c : Char) : Bool :=
  let n := c.toNat
  (0x09 ≤ n && n ≤ 0x0d) || n == 0x20 || n == 0x85 || n == 0xa0 || n == 0x1680 ||
    (0x2000 ≤ n && n ≤ 0x200a) || n == 0x2028 || n == 0x2029 || n == 0x202f || n == 0x205f ||
    n == 0x3000

/-- The words of the text `cs`: its pieces between blanks, the empty ones left out. -/
def words (cs : List Char) : List (List Char) :=
  (cs.splitOnP isBlank).filter fun p => !p.isEmpty

/-- The text `cs` without its leading and trailing blanks. -/
def trim (cs : List Char) : List Char :=
  ((cs.dropWhile isBlank).reverse.dropWhile isBlank).reverse

end BatchMachine.Text
