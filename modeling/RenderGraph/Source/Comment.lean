/-!
# Comments in bodies

Line comments and block comments are removed before a body is read. A line comment that opens with
`[` or `Item[` is a metadata directive and is kept. A block comment leaves its line breaks behind, so
that lines keep their numbers.

## Main definitions

* `Source.opensMetadata`: the text behind `//` makes it a metadata directive
* `Source.stripChars`, `Source.stripComments`
-/

namespace RenderGraph.Source

/-- What a character belongs to. -/
inductive Context
  | code
  | lineComment
  | blockComment
  deriving DecidableEq, Repr

/-- The text behind two slashes makes them a metadata directive. -/
def opensMetadata (cs : List Char) : Bool :=
  cs.head? = some '[' || ['I', 't', 'e', 'm', '['].isPrefixOf cs

/-- The characters without comments, from a given context on. -/
def stripFrom : Context → List Char → List Char
  | _, [] => []
  | .code, '/' :: '/' :: cs =>
    if opensMetadata cs then '/' :: '/' :: stripFrom .code cs else stripFrom .lineComment cs
  | .code, '/' :: '*' :: cs => stripFrom .blockComment cs
  | .code, c :: cs => c :: stripFrom .code cs
  | .lineComment, c :: cs =>
    if c = '\n' then c :: stripFrom .code cs else stripFrom .lineComment cs
  | .blockComment, '*' :: '/' :: cs => stripFrom .code cs
  | .blockComment, c :: cs =>
    if c = '\n' then c :: stripFrom .blockComment cs else stripFrom .blockComment cs

/-- The characters of a body without comments. -/
def stripChars (cs : List Char) : List Char :=
  stripFrom .code cs

/-- A body without comments. -/
def stripComments (code : String) : String :=
  String.ofList (stripChars code.toList)

end RenderGraph.Source
