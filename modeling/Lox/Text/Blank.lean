/-! # Blank characters

The white-space characters are those of the Unicode property White_Space; they may stand around a
numeral. A line of input is empty if all its characters are blank: white space, or one of the four
information separators U+001C to U+001F. -/

namespace Lox.Text

/-- The code points of the white-space characters, as closed ranges in increasing order. -/
def whiteSpaceRanges : List (Nat × Nat) :=
  [(0x9, 0xD), (0x20, 0x20), (0x85, 0x85), (0xA0, 0xA0), (0x1680, 0x1680), (0x2000, 0x200A),
    (0x2028, 0x2029), (0x202F, 0x202F), (0x205F, 0x205F), (0x3000, 0x3000)]

/-- A character of the Unicode property White_Space. -/
def isWhiteSpace (c : Char) : Bool :=
  whiteSpaceRanges.any fun (first, last) => first ≤ c.toNat && c.toNat ≤ last

/-- One of the four characters that separate files, groups, records and units. -/
def isSeparator (c : Char) : Bool := 0x1C ≤ c.toNat && c.toNat ≤ 0x1F

/-- A character that leaves a line empty. -/
def isBlank (c : Char) : Bool := isWhiteSpace c || isSeparator c

/-- A text without any character that is not blank. -/
def isBlankLine (line : String) : Bool := line.toList.all isBlank

/-- A text without the white space at its ends. -/
def trimWhiteSpace (cs : List Char) : List Char :=
  ((cs.dropWhile isWhiteSpace).reverse.dropWhile isWhiteSpace).reverse

/-- Every white-space character of the ASCII range is one. -/
theorem isWhiteSpace_of_isWhitespace {c : Char} (h : c.isWhitespace) : isWhiteSpace c = true := by
  simp only [Char.isWhitespace, Bool.or_eq_true, decide_eq_true_eq] at h
  rcases h with ((rfl | rfl) | rfl) | rfl <;> rfl

end Lox.Text
