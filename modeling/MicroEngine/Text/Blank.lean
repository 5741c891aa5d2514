/-!
# Blanks and lines

* `isBlank`: the characters with the Unicode property `White_Space`.
* `trimStart`, `trimEnd`, `trim`: a text without the blanks at its ends.
* `splitAt?`: a text cut at the first place where a character stands.
* `lines`: the lines of a text, which end at a line feed or at a carriage return and a line feed.
-/

namespace MicroEngine.Text

/-- Whether a character has the Unicode property `White_Space`. -/
def isBlank (c : Char) : Bool :=
  let n := c.toNat
  (0x09 ≤ n && n ≤ 0x0D) || n == 0x20 || n == 0x85 || n == 0xA0 || n == 0x1680 ||
    (0x2000 ≤ n && n ≤ 0x200A) || n == 0x2028 || n == 0x2029 || n == 0x202F || n == 0x205F ||
    n == 0x3000

/-- The text without the last characters that satisfy `p`. -/
def dropEndWhile (p : Char → Bool) (cs : List Char) : List Char :=
  (cs.reverse.dropWhile p).reverse

/-- The text without the blanks at its beginning. -/
def trimStart (cs : List Char) : List Char := cs.dropWhile isBlank

/-- The text without the blanks at its end. -/
def trimEnd (cs : List Char) : List Char := dropEndWhile isBlank cs

/-- The text without the blanks at both ends. -/
def trim (cs : List Char) : List Char := trimEnd (trimStart cs)

/-- The text before the first `c` and the text after it, if there is one. -/
def splitAt? (c : Char) (cs : List Char) : Option (List Char × List Char) :=
  match cs.dropWhile (· != c) with
  | [] => none
  | _ :: rest => some (cs.takeWhile (· != c), rest)

/-! ## Lines -/

/-- The text without one carriage return at its end. -/
def dropReturn (cs : List Char) : List Char :=
  if cs.getLast? == some '\r' then cs.dropLast else cs

/-- The lines of a text. A line ends at a line feed or at a carriage return and a line feed; the
last line need not be ended, and what follows the last line feed counts only if it is not empty. -/
def lines (cs : List Char) : List (List Char) :=
  if _h : cs = [] then []
  else
    match _hr : cs.dropWhile (· != '\n') with
    | [] => [cs]
    | _ :: rest => dropReturn (cs.takeWhile (· != '\n')) :: lines rest
termination_by cs.length
decreasing_by
  have h₁ : (cs.dropWhile (· != '\n')).length ≤ cs.length :=
    (List.dropWhile_suffix _).length_le
  rw [_hr] at h₁
  simp only [List.length_cons] at h₁
  omega

end MicroEngine.Text
