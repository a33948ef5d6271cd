import RenderGraph.Source.Declaration
import RenderGraph.Text.Template

/-!
# Renaming of declared names

The constants and functions of a body get its node's name in front, and its entry function gets the
name under which the program calls it. New names are templates, which matters for names with backslashes
only. A body without an entry function is exchanged for one that gives black.

## Main definitions

* `Source.renameLocals`
* `Source.renameEntry`
-/

namespace RenderGraph.Source

open Text (blanks0 word done)

/-- A use of a function: its name as the beginning of a word, and an opening parenthesis. -/
def functionUse (name : String) : Text.Pattern Unit :=
  Text.wordStart (word name (blanks0 (word "(" (done ()))))

/-- The code with a constant renamed. -/
def renameConstant (space name code : String) : Except Fault String :=
  Text.substitute (Text.wholeWord name) (space ++ "_" ++ name) code

/-- The code with a function renamed. -/
def renameHelper (space name code : String) : Except Fault String :=
  Text.substitute (functionUse name) (space ++ "_" ++ name ++ "(") code

/-- The code with every constant and function that it declares renamed: constants first, then the
functions of the result. -/
def renameLocals (code space : String) : Except Fault String := do
  let code ← (constants code).foldlM (fun code name => renameConstant space name code) code
  (helpers code).foldlM (fun code name => renameHelper space name code) code

/-- The body that stands in for one without an entry function. -/
def fallbackEntry (name : String) : String :=
  "void " ++ name ++ "(vec2 uv, out vec4 out_fallback) \x7b out_fallback = vec4(0.0); \x7d"

/-- The code with its entry functions renamed. -/
def renameEntry (code name : String) : Except Fault String :=
  if Text.occurs entryDeclaration code.toList then
    Text.substitute entryDeclaration ("void " ++ name ++ "(") code
  else .ok (fallbackEntry name)

end RenderGraph.Source
