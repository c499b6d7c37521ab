/-!
# Blanks, words and trimming

White space is what has the Unicode property `White_Space`.  The characters that separate words
are white space and the four information separators U+001C to U+001F: `words` splits a text at
runs of them, and `trimBy isBlank` removes them from both ends.

`pieces` is the shape that the splitting functions share: what stands before the first
separator, and what stands after each one.
-/

namespace Markup.Text

/-- The characters with the property `White_Space`. -/
def whiteSpace : List Nat := [
  0x9, 0xa, 0xb, 0xc, 0xd, 0x20, 0x85, 0xa0, 0x1680, 0x2000, 0x2001, 0x2002, 0x2003, 0x2004,
  0x2005, 0x2006, 0x2007, 0x2008, 0x2009, 0x200a, 0x2028, 0x2029, 0x202f, 0x205f, 0x3000
]

/-- Whether a character is white space. -/
def isWhiteSpace (c : Char) : Bool := whiteSpace.contains c.toNat

/-- The control characters that separate files, groups, records and units of information. -/
def informationSeparators : List Nat := [0x1c, 0x1d, 0x1e, 0x1f]

/-- Whether a character separates words. -/
def isBlank (c : Char) : Bool := isWhiteSpace c || informationSeparators.contains c.toNat

/-- What stands before the first separator, and what stands after each separator. -/
def pieces {α : Type} (separates : α → Bool) : List α → List α × List (List α)
  | [] => ([], [])
  | c :: cs =>
    let (first, rest) := pieces separates cs
    if separates c then ([], first :: rest) else (c :: first, rest)

/-- All pieces between separators, at least one. -/
def splitAt {α : Type} (separates : α → Bool) (cs : List α) : List (List α) :=
  (pieces separates cs).1 :: (pieces separates cs).2

/-- The non-empty pieces between blanks. -/
def words (s : String) : List String :=
  ((splitAt isBlank s.toList).filter (!·.isEmpty)).map String.ofList

/-- Removes what satisfies the test from both ends. -/
def trimBy {α : Type} (p : α → Bool) (cs : List α) : List α :=
  ((cs.dropWhile p).reverse.dropWhile p).reverse

end Markup.Text
