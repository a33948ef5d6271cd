import RenderGraph.Text.Printable

/-!
# Quoted texts

A text is quoted with apostrophes, or with quotation marks when it holds an apostrophe and no
quotation mark. Printable characters stand for themselves; the backslash, the quote in use and all
other characters are escaped.

## Main definitions

* `Text.quoted`
-/

namespace RenderGraph.Text

/-- A number in base sixteen, with at least `width` digits. -/
def hex (width n : Nat) : String :=
  let digits := Nat.toDigits 16 n
  String.ofList (List.replicate (width - digits.length) '0' ++ digits)

/-- A character inside a text that is quoted by `quote`. -/
def quotedChar (quote c : Char) : String :=
  if c = quote || c = '\\' then String.ofList ['\\', c]
  else if c = '\t' then "\\t"
  else if c = '\n' then "\\n"
  else if c = '\r' then "\\r"
  else if isPrintable c then c.toString
  else if c.toNat < 0x100 then "\\x" ++ hex 2 c.toNat
  else if c.toNat < 0x10000 then "\\u" ++ hex 4 c.toNat
  else "\\U" ++ hex 8 c.toNat

/-- The text between quotes. -/
def quoted (s : String) : String :=
  let quote := if s.contains '\x27' && !s.contains '\x22' then '\x22' else '\x27'
  quote.toString ++ String.join (s.toList.map (quotedChar quote)) ++ quote.toString

end RenderGraph.Text
