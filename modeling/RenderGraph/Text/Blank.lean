import RenderGraph.Text.CharClass

/-!
# Blank characters

The characters that separate words: the Unicode white space together with the four information
separators U+001C to U+001F. Trimming removes them from both ends of a text.

## Main definitions

* `Text.isBlank`
* `Text.trim`
-/

namespace RenderGraph.Text

/-- Unicode white space and the information separators. -/
def blanks : CharClass where
  ranges := [(9, 13), (28, 32), (133, 133), (160, 160), (5760, 5760), (8192, 8202), (8232, 8233),
    (8239, 8239), (8287, 8287), (12288, 12288)]

/-- The character separates words. -/
def isBlank (c : Char) : Bool :=
  blanks.contains c

/-- The list without the leading characters of a class. -/
def dropLeading (p : Char → Bool) (cs : List Char) : List Char :=
  cs.dropWhile p

/-- The list without the trailing characters of a class. -/
def dropTrailing (p : Char → Bool) (cs : List Char) : List Char :=
  (cs.reverse.dropWhile p).reverse

/-- The list without the characters of a class at either end. -/
def trimChars (p : Char → Bool) (cs : List Char) : List Char :=
  dropTrailing p (dropLeading p cs)

/-- The text without blanks at either end. -/
def trim (s : String) : String :=
  String.ofList (trimChars isBlank s.toList)

end RenderGraph.Text
