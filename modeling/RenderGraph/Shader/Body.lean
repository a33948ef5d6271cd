import RenderGraph.Graph.Node
import RenderGraph.Source.Renaming
import RenderGraph.Value.Capacity

/-!
# Bodies as functions of a program

To become a function of a program, a body gets its names renamed, the array parameters of its entry
function get their capacities as sizes, and for each array input the selected index becomes a local
variable of the entry function.

## Main definitions

* `Shader.prototype`: the head of an entry function with given ports
* `Shader.setArraySizes`
* `Shader.IndexLocal`, `Shader.indexLocals`, `Shader.injectIndexLocals`
* `Shader.prepareBody`
-/

namespace RenderGraph.Shader

open Text (blanks0 blanks1 word done)

/-- The capacity of an array input. -/
def portCapacity (port : Port) (uniforms : Keyed BoundValue) (fallback : Number) :
    Except Fault Nat :=
  BoundValue.capacity port.type (uniforms.get? port.id) fallback

/-! ### Heads of entry functions -/

/-- The declaration of an input as a parameter. -/
def inputParameter (uniforms : Keyed BoundValue) (fallback : Number) (port : Port) :
    Except Fault String := do
  if port.type.isArray then
    let length ← portCapacity port uniforms fallback
    pure (port.type.element.name ++ " " ++ port.id ++ "[" ++ toString length ++ "]")
  else pure (port.type.name ++ " " ++ port.id)

/-- The declaration of an output as a parameter; arrays have the fallback as their size. -/
def outputParameter (fallback : Number) (port : Port) : String :=
  if port.type.isArray then
    "out " ++ port.type.element.name ++ " " ++ port.id ++ "[" ++ fallback.text ++ "]"
  else "out " ++ port.type.name ++ " " ++ port.id

/-- The head of an entry function with given ports. -/
def prototype (name : String) (inputs outputs : List Port) (uniforms : Keyed BoundValue)
    (fallback : Number) : Except Fault String := do
  let ins ← inputs.mapM (inputParameter uniforms fallback)
  let parameters := ["vec2 uv"] ++ ins ++ outputs.map (outputParameter fallback)
  pure ("void " ++ name ++ "(" ++ ", ".intercalate parameters ++ ")")

/-! ### Sizes of array parameters -/

/-- The text up to the parenthesis that closes `depth` open ones, and the text behind it. -/
def closeParentheses : Nat → List Char → Option (List Char × List Char)
  | 0, cs => some ([], cs)
  | _ + 1, [] => none
  | depth + 1, c :: cs =>
    let depth := if c = '(' then depth + 2 else if c = ')' then depth else depth + 1
    (closeParentheses depth cs).map fun r => (c :: r.1, r.2)

/-- An array parameter of a type and a name; reads the size with its closing bracket. -/
def arrayParameter (type name : String) : Text.Pattern (List Char) :=
  Text.wordStart <| word type <| blanks1 <| word name <| blanks0 <| word "[" fun rest =>
    match rest.dropWhile (· != ']') with
    | [] => none
    | bracket :: behind => done (rest.takeWhile (· != ']') ++ [bracket]) behind

/-- The head of an entry function with the size of one array parameter set. -/
def setArraySize (head : List Char) (port : Port) (length : Nat) : List Char :=
  Text.replaceAll (arrayParameter port.type.element.name port.id)
    (fun size whole => whole.take (whole.length - size.length) ++ (toString length ++ "]").toList)
    head

/-- The code with the array parameters of its first entry function set to their capacities. -/
def setArraySizes (code : String) (inputs : List Port) (uniforms : Keyed BoundValue)
    (fallback : Number) : Except Fault String :=
  let cs := code.toList
  match Text.search Source.entryDeclaration none cs with
  | none => .ok code
  | some (before, _, rest) =>
    match closeParentheses 1 rest with
    | none => .ok code
    | some (parameters, behind) => do
      let opening := (cs.drop before.length).take (cs.length - before.length - rest.length)
      let head ← inputs.foldlM (fun head port =>
        if port.type.isArray then do
          let length ← portCapacity port uniforms fallback
          pure (setArraySize head port length)
        else pure head) (opening ++ parameters)
      pure (String.ofList (before ++ head ++ behind))

/-! ### Selected indices -/

/-- A local variable that holds the selected index of an array input. -/
structure IndexLocal where
  name : String
  uniform : String
  greatest : Nat
  deriving DecidableEq, Repr

/-- The index variables of a node. -/
def indexLocals (node : Node) (fallback : Number) : Except Fault (List IndexLocal) :=
  (node.inputs.filter (·.type.isArray)).mapM fun port => do
    let length ← portCapacity port node.uniforms fallback
    pure { name := port.id ++ "_index", uniform := node.uniformName port.id ++ "_index",
           greatest := length - 1 }

/-- The line that declares an index variable. -/
def IndexLocal.line (l : IndexLocal) : String :=
  "  int " ++ l.name ++ " = clamp(" ++ l.uniform ++ ", 0, " ++ toString l.greatest ++ ");"

/-- The head of a function with a given name, up to its opening brace. -/
def functionHead (name : String) : Text.Pattern Unit :=
  Text.wordStart <| word "void" <| blanks1 <| word name <| blanks0 <| word "(" fun rest =>
    word ")" (blanks0 (word "\x7b" (done ()))) (rest.dropWhile (· != ')'))

/-- The code with index variables at the beginning of the functions with a given name. -/
def injectIndexLocals (code name : String) (locals : List IndexLocal) : String :=
  if locals.isEmpty then code
  else
    let lines := "\n" ++ "\n".intercalate (locals.map (·.line)) ++ "\n"
    String.ofList (Text.replaceAll (functionHead name)
      (fun _ whole => whole ++ lines.toList) code.toList)

/-! ### Whole bodies -/

/-- A body as a function of a program. -/
def prepareBody (node : Node) (source : String) (fallback : Number) : Except Fault String := do
  let code ← Source.renameLocals source ("node_" ++ node.cleanId)
  let code ← setArraySizes code node.inputs node.uniforms fallback
  let code ← Source.renameEntry code node.runName
  let locals ← indexLocals node fallback
  pure (injectIndexLocals code node.runName locals)

end RenderGraph.Shader
