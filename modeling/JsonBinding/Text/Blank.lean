import JsonBinding.Text.CodePoints

/-!
# Blanks

The characters with the Unicode property White_Space, and trimming by them.
-/

namespace JsonBinding.Text

/-- Switch points of White_Space. -/
def blankPoints : List Nat := [
  9, 14, 32, 33, 133, 134, 160, 161, 5760, 5761, 8192, 8203, 8232, 8234, 8239, 8240, 8287, 8288,
  12288, 12289]

/-- Whether a character is white space in the sense of Unicode. -/
def isBlank (c : Char) : Bool := inside blankPoints c

/-- The text without leading blanks. -/
def trimStart (s : List Char) : List Char := s.dropWhile isBlank

/-- The text without leading and trailing blanks. -/
def trim (s : List Char) : List Char := (trimStart (trimStart s).reverse).reverse

/-- The four blanks that separate the words of a data format. -/
def isSpacing (c : Char) : Bool := c = ' ' || c = '\t' || c = '\n' || c = '\r'

/-- The text without leading spacing. -/
def skipSpacing (s : List Char) : List Char := s.dropWhile isSpacing

theorem length_dropWhile_le (p : Char → Bool) (s : List Char) : (s.dropWhile p).length ≤ s.length :=
  (List.dropWhile_sublist p).length_le

theorem length_skipSpacing_le (s : List Char) : (skipSpacing s).length ≤ s.length :=
  length_dropWhile_le _ s

end JsonBinding.Text
