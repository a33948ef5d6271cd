import RenderGraph.Value.Written
import RenderGraph.Numeric.Numeral
import RenderGraph.Text.Scan

/-!
# Edges

An edge leads from an output of one node to an input of another. The target of an edge may also be a
single element of an array input, written as a *handle*: the input's id, two underscores and the
index.

## Main definitions

* `Edge`, `Edge.ofValue`
* `Edge.arrayElement`: the input and the index that a handle means
* `Edge.goesTo`: the edge goes to a given port
-/

namespace RenderGraph

/-- A connection from an output to an input. -/
structure Edge where
  source : String
  target : String
  sourcePort : Option String := none
  targetPort : Option String := none
  /-- The editor's name for the edge; it has no meaning here. -/
  id : Value := .null

/-- The digits of the index at the end of a handle. A line break may follow them. -/
def handleDigits? (cs : List Char) : Option (List Char) :=
  (Text.after? ['_', '_'] cs).bind fun rest =>
    let digits := rest.takeWhile Text.isDigit
    let behind := rest.dropWhile Text.isDigit
    if !digits.isEmpty && (behind == [] || behind == ['\n']) then some digits else none

/-- The input's id and the digits of the index in a handle. The id ends as early as possible and lies on
one line. -/
def splitHandle : List Char → Option (List Char × List Char)
  | [] => none
  | c :: cs =>
    if c = '\n' then none
    else
      match handleDigits? cs with
      | some digits => some ([c], digits)
      | none => (splitHandle cs).map fun r => (c :: r.1, r.2)

/-- The input and the index that a text means, if it is a handle. The index has to be a numeral that can
be read. -/
def arrayElement (handle : String) : Except Fault (Option (String × Nat)) :=
  match splitHandle handle.toList with
  | none => .ok none
  | some (base, digits) =>
    (Numeral.read digits).map fun index => some (String.ofList base, index)

namespace Edge

/-- The edge that a document describes. -/
def ofValue (v : Value) : Except Fault Edge := do
  let source := (← v.require "source").asText
  let target := (← v.require "target").asText
  let sourcePort ← (← v.field "sourceHandle").text?
  let targetPort ← (← v.field "targetHandle").text?
  let id ← v.field "id"
  pure { source, target, sourcePort, targetPort, id }

/-- The input and the index that the edge's target means, if it is a handle. -/
def arrayElement (e : Edge) : Except Fault (Option (String × Nat)) :=
  match e.targetPort with
  | none => .ok none
  | some port => RenderGraph.arrayElement port

/-- The edge goes to a given port of a given node. -/
def goesTo (e : Edge) (node : String) (port : Option String) : Bool :=
  e.target = node && e.targetPort = port

theorem goesTo_iff {e : Edge} {node : String} {port : Option String} :
    e.goesTo node port = true ↔ e.target = node ∧ e.targetPort = port := by
  simp [goesTo]

theorem goesTo_self (e : Edge) : e.goesTo e.target e.targetPort = true :=
  goesTo_iff.2 ⟨rfl, rfl⟩

/-- Whether two edges go to one port can be asked of either. -/
theorem goesTo_comm (d e : Edge) :
    d.goesTo e.target e.targetPort = e.goesTo d.target d.targetPort := by
  rw [Bool.eq_iff_iff, goesTo_iff, goesTo_iff, eq_comm (a := d.target), eq_comm (a := d.targetPort)]

end Edge

end RenderGraph
