import RenderGraph.Graph.Kind
import RenderGraph.Text.Scan
import RenderGraph.Text.Quoted

/-!
# Faults

A `Diagnostic` is what the compiler tells its user about a graph it cannot handle: a message and the
node, the port or the body it is about. Diagnostics are sorted by kind, and each kind refines another
up to the general one.

A `Fault` is a cause of failure. Some faults are about the graph and give a diagnostic. The others
are about data that cannot be read or converted: a missing field, a number that does not fit.

## Main definitions

* `Diagnostic`, `Diagnostic.Kind`, `Diagnostic.report`
* `Fault`, `Fault.diagnostic?`
* `Fault.isCompilation`: the faults that a compilation reports in its result
-/

namespace RenderGraph

/-! ### Diagnostics -/

/-- What a diagnostic is about, from the general to the particular. -/
inductive Diagnostic.Kind
  | general
  | compilation
  | resolution
  | nodeNotFound
  | portNotFound
  | signature
  | inference
  deriving DecidableEq, Repr

namespace Diagnostic.Kind

/-- The kind that a kind refines. -/
def parent? : Kind → Option Kind
  | general => none
  | compilation => some general
  | resolution => some compilation
  | nodeNotFound => some resolution
  | portNotFound => some resolution
  | signature => some compilation
  | inference => some general

/-- The kind itself and the kinds it refines, ending with the general one. -/
def lineage : Kind → List Kind
  | general => [general]
  | compilation => [compilation, general]
  | resolution => [resolution, compilation, general]
  | nodeNotFound => [nodeNotFound, resolution, compilation, general]
  | portNotFound => [portNotFound, resolution, compilation, general]
  | signature => [signature, compilation, general]
  | inference => [inference, general]

theorem lineage_eq (k : Kind) : k.lineage = k :: (k.parent?.map lineage).getD [] := by
  cases k <;> rfl

/-- The kind tells which node it is about. -/
def tellsNode (k : Kind) : Bool :=
  resolution ∈ k.lineage || k = signature || k = inference

/-- The kind tells which port it is about. -/
def tellsPort (k : Kind) : Bool :=
  resolution ∈ k.lineage

/-- The kind shows the body it is about. -/
def showsSource (k : Kind) : Bool :=
  k = signature

end Diagnostic.Kind

/-- A message for the user, with what it is about. -/
structure Diagnostic where
  kind : Diagnostic.Kind
  message : String
  node : Option String := none
  port : Option String := none
  source : Option String := none
  deriving DecidableEq, Repr

namespace Diagnostic

/-- A line number with at least three digits. -/
def lineNumber (n : Nat) : String :=
  let digits := (Nat.toDigits 10 n)
  String.ofList (List.replicate (3 - digits.length) '0' ++ digits)

/-- The message, followed by the numbered lines of the body it is about, if there is one. -/
def report (d : Diagnostic) : String :=
  match d.source with
  | none | some "" => d.message
  | some source =>
    let lines := (Text.split '\n' source.toList).mapIdx fun i line =>
      lineNumber (i + 1) ++ ": " ++ String.ofList line
    "\n".intercalate
      (["SignatureError: " ++ d.message, "--- NODE SOURCE ---"] ++ lines ++ ["-------------------"])

end Diagnostic

/-! ### Faults -/

/-- A cause of failure. -/
inductive Fault
  /-- No node has the id; the second field names the node that refers to it. -/
  | nodeNotFound (id : String) (referrer : Option String)
  /-- The node has no such output. -/
  | portNotFound (node port : String)
  /-- A compound stands inside its own scope. -/
  | selfContaining (compound : String)
  /-- Nodes of the kind have no place inside a program. -/
  | notInlined (kind : NodeKind)
  /-- A body has no entry function. -/
  | noEntry (node : Option String) (source : Option String)
  /-- No overload of the node accepts its connections. -/
  | noOverload (node : String)
  /-- A required field of a document is missing. -/
  | missingField (name : String)
  /-- A full cache has nothing to give up. -/
  | emptyCache
  /-- The key to leave is not being planned. -/
  | notActive (key : String)
  /-- The text or value denotes no number. -/
  | notNumeric
  /-- A numeral has more digits than can be read. -/
  | longNumeral
  /-- The number does not fit its representation. -/
  | outOfRange
  /-- The value has a shape that the operation cannot handle. -/
  | wrongShape
  /-- The elements of a tensor do not fill its shape. -/
  | sizeMismatch
  /-- Fields are asked of a value that is no map. -/
  | noFields
  /-- A text is needed and the value is something else. -/
  | notText
  /-- An escape in a template has no meaning. -/
  | badTemplate
  /-- A template refers to a part of the match by a name that no part has. -/
  | unknownGroup (name : String)
  /-- A search went deeper than the graph. -/
  | tooDeep
  deriving DecidableEq, Repr

namespace Fault

/-- What the user is told about a fault of the graph. -/
def diagnostic? : Fault → Option Diagnostic
  | nodeNotFound id referrer =>
    let reference :=
      match referrer with
      | none | some "" => ""
      | some r => " (referenced by " ++ r ++ ")"
    some { kind := .nodeNotFound, message := "Node " ++ id ++ " not found" ++ reference, node := id }
  | portNotFound node port =>
    some { kind := .portNotFound, message := "Output " ++ port ++ " not found on node " ++ node,
           node := node, port := port }
  | selfContaining compound =>
    some { kind := .compilation, message := "Compound " ++ compound ++ " contains itself" }
  | notInlined kind =>
    some { kind := .compilation, message := "No emitter for node kind " ++ kind.name }
  | noEntry node source =>
    some { kind := .signature, message := "No 'void run(' entry found", node := node,
           source := source }
  | noOverload node =>
    some { kind := .inference,
           message := "No overload of node " ++ node ++ " accepts its connections", node := node }
  | _ => none

/-- The fault's diagnostic is of the compilation kind or refines it. -/
def isCompilation (f : Fault) : Bool :=
  f.diagnostic?.any fun d => .compilation ∈ d.kind.lineage

/-- What is told about a fault: the message of its diagnostic, or what is missing. Faults of
conversion have no text of their own. -/
def message (f : Fault) : String :=
  match f with
  | missingField name => Text.quoted name
  | emptyCache => Text.quoted "dictionary is empty"
  | _ => (f.diagnostic?.map (·.message)).getD ""

/-- A computation in two steps succeeds when both steps do. -/
theorem bind_eq_ok_iff {α β : Type} {x : Except Fault α} {f : α → Except Fault β} {b : β} :
    x >>= f = .ok b ↔ ∃ a, x = .ok a ∧ f a = .ok b := by
  cases x with
  | error e => simp [bind, Except.bind]
  | ok a => simp [bind, Except.bind]

theorem map_eq_ok_iff {α β : Type} {x : Except Fault α} {f : α → β} {b : β} :
    x.map f = .ok b ↔ ∃ a, x = .ok a ∧ f a = b := by
  cases x <;> simp [Except.map]

theorem bind_eq_error_iff {α β : Type} {x : Except Fault α} {f : α → Except Fault β} {e : Fault} :
    (x >>= f) = .error e ↔ x = .error e ∨ ∃ a, x = .ok a ∧ f a = .error e := by
  cases x <;> simp [bind, Except.bind]

end Fault

end RenderGraph
