import RenderGraph.Plan.Passes

/-!
# Compilation

To compile a graph is to plan the passes that end with a requested output. Faults of the graph are
reported in the result; faults of data are not.

## Main definitions

* `Compile.Result`
* `Compile.Target`: the requested output
* `Compile.compile`
-/

namespace RenderGraph.Compile

/-- What is known about a compilation. -/
structure Stats where
  passCount : Nat := 0
  cycleBreaks : Nat := 0
  /-- The result was taken from a cache. -/
  cacheHit : Bool := false
  deriving DecidableEq, Repr

/-- The passes, dependencies first, or the message of a failure and no passes. -/
structure Result where
  passes : List RenderPass := []
  failure : Option String := none
  warnings : List String := []
  stats : Stats := {}

namespace Result

def ok (r : Result) : Bool :=
  r.failure.isNone

/-- The first pass with a given id. -/
def pass? (r : Result) (id : String) : Option RenderPass :=
  r.passes.find? (·.id == id)

end Result

/-- The requested output: a node and one of its ports, or a stage of a multi-stage node. -/
structure Target where
  node : Option String
  port : Option String := none
  deriving DecidableEq, Repr

/-- Plans the requested output, which has to exist. -/
def planTarget (scene : Scene) (id : String) (port : Option String) : Plan.PlanM String := do
  let node ← (scene.graph.requireNode id : Except Fault _)
  if node.isMultiStage then Plan.plan scene { node := id, stage := port }
  else
    match port with
    | none | some "" => Plan.plan scene { node := id, port }
    | some p =>
      if (node.findOutput port).isNone then throw (.portNotFound id p)
      else Plan.plan scene { node := id, port }

/-- The result of a plan that ended with a given outcome. -/
def resultOf (outcome : Except Fault String) (s : Plan.State) :
    Except Fault Result × List Journal.Record :=
  match outcome with
  | .ok _ =>
    (.ok { passes := s.passes, warnings := s.warnings,
           stats := { passCount := s.passes.length, cycleBreaks := s.cycleBreaks } }, s.journal)
  | .error f =>
    if f.isCompilation then
      (.ok { failure := some f.message, warnings := s.warnings },
        s.journal ++ [.fail ("Compilation failed: " ++ f.message)])
    else (.error f, s.journal)

/-- Compiles a graph, and tells what goes to the journal. -/
def compile (scene : Scene) (target : Target) : Except Fault Result × List Journal.Record :=
  match target.node with
  | none | some "" => (.ok { failure := some "No output node selected." }, [])
  | some id =>
    let (outcome, state) := (planTarget scene id target.port).run {}
    resultOf outcome state

/-- Passes with new values for their uniforms. -/
def refreshPasses (news : Keyed Uniform) (passes : List RenderPass) : List RenderPass :=
  passes.map (·.refresh news)

end RenderGraph.Compile
