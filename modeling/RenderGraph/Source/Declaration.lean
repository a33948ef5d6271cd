import RenderGraph.Source.Comment
import RenderGraph.DataType
import RenderGraph.Text.Scan

/-!
# Names that bodies declare

Bodies of different nodes end up in one program, so the functions and constants that a body declares
have to be recognised. A function is declared at the beginning of a line by a type, a name and an
opening parenthesis; a constant by `const`, a type, a name and an equals sign.

## Main definitions

* `Source.helpers`, `Source.constants`
* `Source.entryDeclaration`, `Source.mainDeclaration`
-/

namespace RenderGraph.Source

open Text (blanks0 blanks1 word ident done)

variable {β : Type}

/-- The names of the types that functions and constants may have. -/
def valueTypeNames : List String :=
  (DataType.all.filter fun t => !t.isArray && !t.isSampler).map (·.name)

/-- Reads one of some words and the blanks behind it, then what follows. -/
def oneOf (words : List String) (next : List Char → Option β) (cs : List Char) : Option β :=
  words.findSome? fun w => word w (blanks1 next) cs

/-- The declaration of a function, and its name. -/
def functionDeclaration : Text.Pattern String :=
  Text.atLineStart <| blanks0 <| oneOf (valueTypeNames ++ ["void"]) <| ident fun name =>
    blanks0 (word "(" (done (String.ofList name)))

/-- The declaration of a constant, and its name. -/
def constantDeclaration : Text.Pattern String :=
  Text.wordStart <| word "const" <| blanks1 <| oneOf valueTypeNames <| ident fun name =>
    blanks0 (word "=" (done (String.ofList name)))

/-- The declaration of a function without result. -/
def voidDeclaration (name : String) : Text.Pattern Unit :=
  Text.wordStart (word "void" (blanks1 (word name (blanks0 (word "(" (done ()))))))

/-- The declaration of the entry function. -/
def entryDeclaration : Text.Pattern Unit :=
  voidDeclaration "run"

/-- The declaration of a main function. -/
def mainDeclaration : Text.Pattern Unit :=
  voidDeclaration "main"

/-- The functions that the shading language provides, and the names with a meaning of their own. -/
def reservedFunctions : List String :=
  ["radians", "degrees", "sin", "cos", "tan", "asin", "acos", "atan",
    "pow", "exp", "log", "exp2", "log2", "sqrt", "inversesqrt",
    "abs", "sign", "floor", "ceil", "fract", "mod", "min", "max", "clamp",
    "mix", "step", "smoothstep", "length", "distance", "dot", "cross",
    "normalize", "faceforward", "reflect", "refract", "matrixCompMult",
    "lessThan", "lessThanEqual", "greaterThan", "greaterThanEqual",
    "equal", "notEqual", "any", "all", "not", "texture", "texture2D",
    "textureLod", "textureProj", "dFdx", "dFdy", "fwidth",
    "main", "run"]

/-- The functions that a body declares beside its entry function. -/
def helpers (code : String) : List String :=
  Text.distinct ((Text.matchesOf functionDeclaration (stripChars code.toList)).filter
    fun name => name ∉ reservedFunctions)

/-- The constants that a body declares. -/
def constants (code : String) : List String :=
  Text.distinct (Text.matchesOf constantDeclaration (stripChars code.toList))

end RenderGraph.Source
