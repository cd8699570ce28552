/-!
# Blank characters

* `isBlank`: Unicode's `White_Space` property, 25 characters.
* `trimStart`, `trimEnd`, `trim`: a text without its surrounding blanks.
* `wordCount`: how many maximal runs of other characters a text has.
-/

namespace Chronicle.Text

/-- Unicode's `White_Space` property. -/
def isBlank (c : Char) : Bool :=
  let n := c.toNat
  (9 ≤ n && n ≤ 13) || n == 0x20 || n == 0x85 || n == 0xA0 || n == 0x1680 ||
    (0x2000 ≤ n && n ≤ 0x200A) || n == 0x2028 || n == 0x2029 || n == 0x202F || n == 0x205F ||
    n == 0x3000

theorem isBlank_of_isDigit {c : Char} (h : c.isDigit = true) : isBlank c = false := by
  have hrange : 48 ≤ c.toNat ∧ c.toNat ≤ 57 := by
    simpa [Char.isDigit, UInt32.le_iff_toNat_le] using h
  simp only [isBlank, Bool.or_eq_false_iff, Bool.and_eq_false_iff, decide_eq_false_iff_not,
    beq_eq_false_iff_ne]
  omega

/-- The characters from the first one that is not blank. -/
def trimStart (cs : List Char) : List Char :=
  cs.dropWhile isBlank

/-- The characters up to the last one that is not blank. -/
def trimEnd (cs : List Char) : List Char :=
  (cs.reverse.dropWhile isBlank).reverse

/-- The characters between the first and the last that are not blank. -/
def trim (cs : List Char) : List Char :=
  trimEnd (trimStart cs)

def trimmed (text : String) : String :=
  String.ofList (trim text.toList)

/-- A text of blanks alone, the empty text included. -/
def allBlank (text : String) : Bool :=
  text.toList.all isBlank

/-- Runs of other characters that begin after a blank, or here if `fresh`. -/
def countWords (fresh : Bool) : List Char → Nat
  | [] => 0
  | c :: cs =>
    if isBlank c then countWords true cs
    else (if fresh then 1 else 0) + countWords false cs

/-- Number of words, that is of maximal runs without a blank. -/
def wordCount (text : String) : Nat :=
  countWords true text.toList

theorem trimmed_toList (text : String) : (trimmed text).toList = trim text.toList := by
  simp [trimmed]

end Chronicle.Text
