import RenderGraph.Source.StageReference
import RenderGraph.Graph.Stage

/-!
# Pragmas of stages

A body may say in pragmas what a document says in fields: `#pragma pingpong` asks for a feedback
buffer, `pingpong_init`, `pingpong_clear` and `pingpong_temporary` settle its initial colour, its
clearing and its lifetime, and `#pragma loop N` repeats the stage. Fields win over pragmas, and
pragmas over defaults. Pragmas are removed from the generated program.

## Main definitions

* `Source.initialColour`: the colour that a text means
* `Stage.effectiveFeedback`, `Stage.loopCount`
* `Source.stripPragmas`
-/

namespace RenderGraph.Source

open Text (blanks0 blanks1 word done)

variable {α : Type}

/-- A pragma at the beginning of a line, and what follows it. -/
def pragma (next : List Char → Option (α × List Char)) : Text.Pattern α :=
  Text.atLineStart (blanks0 (word "#pragma" (blanks1 next)))

/-- A pragma that begins with a given word. -/
def pragmaWord (w : String) : Text.Pattern Unit :=
  pragma (word w (done ()))

/-- The argument of the initial colour: the rest of the line on which it begins. -/
def initialArgument : Text.Pattern (List Char) :=
  pragma <| word "pingpong_init" <| blanks1 fun rest =>
    match Text.line rest with
    | [] => none
    | argument => done argument (Text.behindLine rest)

/-- The digits of the argument of the loop pragma. -/
def loopArgument : Text.Pattern (List Char) :=
  pragma <| word "loop" <| blanks1 fun rest =>
    match rest.takeWhile Text.isDigit with
    | [] => none
    | digits => done digits (rest.dropWhile Text.isDigit)

/-- A whole pragma of this kind, up to the end of its line. -/
def ownPragma : Text.Pattern Unit :=
  pragma fun cs =>
    word "pingpong" (fun rest => done () (Text.behindLine rest)) cs <|>
      word "loop" (fun rest =>
        if Text.isWord? rest.head? then none else done () (Text.behindLine rest)) cs

/-- A body without the pragmas that only this program understands. -/
def stripPragmas (code : String) : String :=
  String.ofList (Text.replaceAll ownPragma (fun _ _ => []) code.toList)

/-! ### Initial colours -/

/-- The colours that have names. -/
def namedColour? (name : String) : Option (List Double) :=
  match name with
  | "black" => some [.zero, .zero, .zero, .one]
  | "white" => some [.one, .one, .one, .one]
  | "transparent" => some [.zero, .zero, .zero, .zero]
  | _ => none

/-- The colour that a text means, or why it means none. Three numbers are opaque. -/
def initialColour (text : String) : Except String (List Double) :=
  let text := Text.trim text
  match namedColour? text with
  | some colour => .ok colour
  | none =>
    let fields := (Text.split ',' text.toList).map fun f => Text.trim (String.ofList f)
    match fields.mapM Decimal.readDouble? with
    | none => .error ("Ignoring unparsable pingpong_init value '" ++ text ++ "'")
    | some (r :: g :: b :: rest) => .ok [r, g, b, rest.headD .one]
    | some _ => .error ("pingpong_init needs at least 3 components, got '" ++ text ++ "'")

end RenderGraph.Source

namespace RenderGraph.Stage

open Source

/-- The body asks for a feedback buffer. -/
def asksForFeedback (source : List Char) : Bool :=
  Text.occurs (pragmaWord "pingpong") source || Text.occurs (Text.wholeWord previousFrame) source

/-- The initial colour that the pragmas of a body ask for, and what there is to warn of. -/
def pragmaColour (source : List Char) : Option (List Value) × List String :=
  match Text.search initialArgument none source with
  | none => (none, [])
  | some (_, argument, _) =>
    match initialColour (String.ofList argument) with
    | .ok colour => (some (colour.map Value.float), [])
    | .error warning => (none, [warning])

/-- The feedback buffer of a stage with a given body, if it has one, and what there is to warn of.
Unset fields are filled by pragmas, then by defaults; the buffer is named after node and stage. -/
def effectiveFeedback (s : Stage) (body node : String) : Option Feedback × List String :=
  let f := s.feedback.getD {}
  let source := body.toList
  if !f.enabled && !asksForFeedback source then (none, [])
  else
    let (initial, warnings) :=
      match f.initial with
      | some colour => (some colour, [])
      | none => pragmaColour source
    let clears := Text.occurs (pragmaWord "pingpong_clear") source
    let temporary := Text.occurs (pragmaWord "pingpong_temporary") source
    let bufferName :=
      match f.bufferName with
      | none | some "" => node ++ "_" ++ s.id
      | some name => name
    (some {
      enabled := true,
      bufferName := some bufferName,
      initial,
      persistent := some (f.persistent.getD !temporary),
      clearEachFrame := some (f.clearEachFrame.getD clears) }, warnings)

/-- How often the pragmas of a body ask to repeat it, if more than once. -/
def pragmaLoop (body : String) : Except Fault (Option Nat) :=
  match Text.search loopArgument none body.toList with
  | some (_, digits, _) =>
    (Numeral.read digits).map fun count => if 1 < count then some count else none
  | none => .ok none

/-- How often a stage with a given body is repeated. The pragmas are read only when the stage itself
does not say it. -/
def loopCount (s : Stage) (body : String) : Except Fault Nat :=
  if 1 < s.loop then .ok s.loop.toNat else (pragmaLoop body).map (·.getD 1)

end RenderGraph.Stage
