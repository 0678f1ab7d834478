import MessageCatalog.Text.CodePoints

/-!
# Blanks

The characters that separate tokens and that are trimmed from the ends of texts: the controls
for tabs, lines and information separators, the spaces of every width and the line and paragraph
separators. The zero-width characters are not blanks.
-/
namespace MessageCatalog.Text

def blankRanges : CodePoints := [
  (0x9, 0xD), (0x1C, 0x20), (0x85, 0x85), (0xA0, 0xA0), (0x1680, 0x1680), (0x2000, 0x200A),
  (0x2028, 0x2029), (0x202F, 0x202F), (0x205F, 0x205F), (0x3000, 0x3000)]

def isBlank (c : Char) : Bool := blankRanges.contains c

def dropBlanks (cs : List Char) : List Char := cs.dropWhile isBlank

def trimRightChars (cs : List Char) : List Char := (cs.reverse.dropWhile isBlank).reverse

def trimRight (s : String) : String := String.ofList (trimRightChars s.toList)

def trim (s : String) : String := String.ofList (trimRightChars (dropBlanks s.toList))

theorem length_dropBlanks_le (cs : List Char) : (dropBlanks cs).length ≤ cs.length :=
  (List.dropWhile_sublist isBlank).length_le

end MessageCatalog.Text
