import RenderGraph.Source.Comment
import RenderGraph.Text.Blank
import RenderGraph.Text.Scan

/-!
# Tokens of bodies

Only what the reading of entry functions needs is a token: identifiers, brackets and separators, and
whole directive lines. Numbers and operators are dropped. Lines are counted by line feeds.

## Main definitions

* `Source.Token`
* `Source.tokensFrom`, `Source.tokenize`
-/

namespace RenderGraph.Source

/-- What a token is. -/
inductive TokenKind
  | identifier
  | symbol
  /-- A line that opens with `#`, or a metadata directive. -/
  | directive
  deriving DecidableEq, Repr

/-- A word of a body and the line on which it stands. -/
structure Token where
  kind : TokenKind
  text : String
  line : Nat
  deriving DecidableEq, Repr

/-- The brackets and separators that are tokens. -/
def isSymbol (c : Char) : Bool :=
  c ∈ ['(', ')', ',', ';', '{', '}', '[', ']']

/-- A character and the text behind it open a directive line. -/
def opensDirective (c : Char) (cs : List Char) : Bool :=
  c = '#' || (c = '/' && cs.head? = some '/' && opensMetadata (cs.drop 1))

private theorem length_dropWhile_lt (p : Char → Bool) (c : Char) (cs : List Char) :
    (cs.dropWhile p).length < (c :: cs).length :=
  Nat.lt_succ_of_le (List.dropWhile_sublist p).length_le

/-- The tokens of a text whose first line has a given number. -/
def tokensFrom (line : Nat) : List Char → List Token
  | [] => []
  | c :: cs =>
    if c = '\n' then tokensFrom (line + 1) cs
    else if Text.isBlank c then tokensFrom line cs
    else if opensDirective c cs then
      { kind := .directive, text := String.ofList (c :: Text.line cs), line } ::
        tokensFrom line (Text.behindLine cs)
    else if Text.isIdentStart c then
      { kind := .identifier, text := String.ofList (c :: cs.takeWhile Text.isIdentChar), line } ::
        tokensFrom line (cs.dropWhile Text.isIdentChar)
    else if isSymbol c then
      { kind := .symbol, text := c.toString, line } :: tokensFrom line cs
    else tokensFrom line cs
termination_by cs => cs.length
decreasing_by
  · exact Nat.lt_succ_self _
  · exact Nat.lt_succ_self _
  · exact length_dropWhile_lt _ _ _
  · exact length_dropWhile_lt _ _ _
  · exact Nat.lt_succ_self _
  · exact Nat.lt_succ_self _

/-- The tokens of a body without comments. -/
def tokenize (code : String) : List Token :=
  tokensFrom 1 code.toList

end RenderGraph.Source
