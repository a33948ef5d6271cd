/-!
# Kinds of nodes

## Main definitions

* `NodeKind`: what a node stands for in the graph
* `NodeKind.name`: its written name
-/

namespace RenderGraph

/-- What a node stands for. -/
inductive NodeKind
  /-- A node with a body of its own. -/
  | standard
  /-- Exposes the inputs of a compound inside its scope. -/
  | graphInput
  /-- Collects the outputs of a compound inside its scope. -/
  | graphOutput
  /-- A named value shared by the whole graph. -/
  | globalVar
  /-- A node whose body is the graph of its children. -/
  | compound
  /-- A node with a sequence of bodies, each drawn by a pass of its own. -/
  | multiStage
  deriving DecidableEq, Repr

namespace NodeKind

/-- The written name of a kind. -/
def name : NodeKind → String
  | standard => "STANDARD"
  | graphInput => "GRAPH_INPUT"
  | graphOutput => "GRAPH_OUTPUT"
  | globalVar => "GLOBAL_VAR"
  | compound => "COMPOUND"
  | multiStage => "MULTI_STAGE"

/-- Every kind, in the order of its declaration. -/
def all : List NodeKind :=
  [standard, graphInput, graphOutput, globalVar, compound, multiStage]

/-- The kind with a given written name. -/
def ofName? (s : String) : Option NodeKind :=
  all.find? (·.name == s)

theorem ofName?_name (k : NodeKind) : ofName? k.name = some k := by
  cases k <;> decide

end NodeKind

end RenderGraph
