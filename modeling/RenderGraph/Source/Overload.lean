import RenderGraph.Source.Token
import RenderGraph.Graph.Port
import RenderGraph.Numeric.Numeral

/-!
# Entry functions of bodies

A body declares one or more overloads of its entry function, `void run(vec2 uv, ...)`. Parameters
marked `out` or `inout` are outputs, the others inputs; the leading coordinate `uv` is neither. The
nearest directive before an overload may give it a label and an order. The default overload is the
one with the least order, and of those with equal orders the first.

## Main definitions

* `Source.metadata`: label and order in a directive
* `Source.parameter?`: the port that a parameter declares
* `Source.Overload`, `Source.overloads`, `Source.defaultOverload?`
* `Source.requireOverload`
-/

namespace RenderGraph.Source

open Text (after? blanks0 word ident)

/-! ### Metadata -/

/-- A label, the digits of an optional order behind a comma, and what closes them. -/
def metadataArguments (close : String) : List Char → Option (String × List Char) :=
  blanks0 <| ident fun label =>
    blanks0 fun rest =>
      let plain := blanks0 (word close fun _ => some (String.ofList label, [])) rest
      let ordered := word "," (blanks0 fun rest =>
        match rest.takeWhile Text.isDigit with
        | [] => none
        | digits => blanks0 (word close fun _ => some (String.ofList label, digits))
            (rest.dropWhile Text.isDigit)) rest
      ordered <|> plain

/-- Label and digits of the order in a directive, which opens with `#` or `//` and then reads
`Item[label, order]` or `[Item(label, order)]`. -/
def metadataDigits? (directive : String) : Option (String × List Char) :=
  let body :=
    match directive.toList with
    | '#' :: cs => some cs
    | '/' :: '/' :: cs => some cs
    | _ => none
  body.bind fun cs =>
    word "Item" (blanks0 (word "[" (metadataArguments "]"))) cs <|>
      word "[Item" (blanks0 (word "(" (metadataArguments ")]"))) cs

/-- Label and order in a directive. The order is zero when it is left out, and it has to be a numeral
that can be read. -/
def metadata (directive : String) : Except Fault (Option (String × Nat)) :=
  match metadataDigits? directive with
  | none => .ok none
  | some (label, digits) => (Numeral.read digits).map fun order => some (label, order)

/-! ### Parameters -/

/-- The words of a parameter declare an array type: a pair of brackets stands before the name. -/
def bracketsBeforeName (parts : List String) : Bool :=
  match parts.findIdx? (· == "["), parts.findIdx? (· == "]") with
  | some i, some j => i < j && j + 1 < parts.length
  | _, _ => false

/-- The name behind which a closing bracket ends the parameter. -/
def nameBeforeBrackets? (parts : List String) : Option String :=
  match parts.reverse with
  | "]" :: before => ((before.dropWhile (· != "[")).drop 1).head?
  | _ => none

/-- A parameter is marked as an output. -/
def isOutputMark (part : String) : Bool :=
  part == "out" || part == "inout"

/-- The port that the words of a parameter declare, and whether it is an output. The coordinate and
parameters of unknown types declare none. -/
def parameter? (parts : List String) : Option (Bool × Port) :=
  match parts with
  | [] | [_] => none
  | _ =>
    let bracketed := nameBeforeBrackets? parts
    let name := bracketed.getD (parts.getLastD "")
    let isArray := bracketed.isSome || bracketsBeforeName parts
    if name == "uv" then none
    else
      let declared := parts.findSome? DataType.ofName?
      let type := declared.bind fun t => if isArray && !t.isArray then t.arrayOf? else some t
      type.map fun t => (parts.any isOutputMark, Port.ofId name t)

/-! ### Overloads -/

/-- One of the entry functions of a body. -/
structure Overload where
  inputs : List Port
  outputs : List Port
  label : Option String := none
  order : Option Nat := none
  /-- The place among the overloads of the body. -/
  index : Nat := 0
  deriving DecidableEq, Repr

/-- What the default overload has the least of. -/
def Overload.sortKey (o : Overload) : Nat × Nat :=
  (o.order.getD 0, o.index)

/-- One overload comes before another. -/
def Overload.before (a b : Overload) : Bool :=
  let ka := a.sortKey
  let kb := b.sortKey
  ka.1 < kb.1 || (ka.1 == kb.1 && ka.2 < kb.2)

/-- The tokens behind the opening of an entry function. -/
def entry? : List Token → Option (List Token)
  | a :: b :: c :: rest =>
    if a.text == "void" && b.text == "run" && c.text == "(" then some rest else none
  | _ => none

/-- The parameters of an entry function, each as its words. -/
def parameterGroups (tokens : List Token) : List (List String) :=
  Text.split "," ((tokens.map (·.text)).takeWhile (· != ")"))

/-- Label and order that the nearest directive before an overload gives it. -/
def metadataBehind (directive : Option String) : Except Fault (Option (String × Nat)) :=
  match directive with
  | none => .ok none
  | some directive => metadata directive

/-- The overload with given parameters, behind a given directive. -/
def Overload.ofTokens (directive : Option String) (index : Nat) (tokens : List Token) :
    Except Fault Overload := do
  let data ← metadataBehind directive
  let ports := (parameterGroups tokens).filterMap parameter?
  pure {
    inputs := (ports.filter (!·.1)).map (·.2),
    outputs := (ports.filter (·.1)).map (·.2),
    label := data.map (·.1),
    order := data.map (·.2),
    index }

/-- The overloads among some tokens, given the nearest directive before them and the number of
overloads before them. -/
def overloadsFrom (directive : Option String) (index : Nat) :
    List Token → Except Fault (List Overload)
  | [] => .ok []
  | t :: ts =>
    let next := if t.kind = .directive then some t.text else directive
    match entry? (t :: ts) with
    | some params => do
      let o ← Overload.ofTokens directive index params
      let os ← overloadsFrom next (index + 1) ts
      pure (o :: os)
    | none => overloadsFrom next index ts

/-- The overloads of a body, in order. -/
def overloads (code : String) : Except Fault (List Overload) :=
  overloadsFrom none 0 (tokenize (stripComments code))

/-- The overload that comes before all others. -/
def defaultOverload? : List Overload → Option Overload
  | [] => none
  | o :: os => some (os.foldl (fun best o => if o.before best then o else best) o)

/-- The default overload of a body, which has to have one. -/
def requireOverload (code : String) (node : Option String) : Except Fault Overload := do
  match defaultOverload? (← overloads code) with
  | some o => pure o
  | none => throw (.noEntry node (some code))

end RenderGraph.Source
