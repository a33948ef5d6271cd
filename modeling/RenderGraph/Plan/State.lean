import RenderGraph.Journal
import RenderGraph.Plan.Loop
import RenderGraph.Plan.Subgraph

/-!
# The state of a plan

Passes are planned on demand. A plan remembers the passes it has planned, under which key each output
can be found, which keys are being planned, and which pass each sampler was first made for.

## Main definitions

* `Plan.State`, `Plan.PlanM`
* `Plan.warn`, `Plan.cycleWarning`, `Plan.breakCycle`
* `Plan.sampler`, `Plan.bindings`: samplers and the passes they read
* `Plan.whileActive`: a key is active while a computation runs, also if it fails
* `Plan.passKey`: the key of an output
-/

namespace RenderGraph.Plan

/-- What a plan remembers. -/
structure State where
  passes : List RenderPass := []
  warnings : List String := []
  cycleBreaks : Nat := 0
  /-- The pass to read for each key that has been planned. -/
  generated : Keyed String := .empty
  /-- The keys that are being planned. -/
  active : List String := []
  /-- The pass that each sampler was first made for. -/
  owners : Keyed String := .empty
  journal : List Journal.Record := []

/-- A computation on a plan; what was done stays done when it fails. -/
abbrev PlanM :=
  HostM State

/-- Writes to the journal. -/
def log (r : Journal.Record) : PlanM Unit :=
  modify fun s => { s with journal := s.journal ++ [r] }

/-- Issues a warning, in the result and in the journal. -/
def warn (message : String) : PlanM Unit :=
  modify fun s =>
    { s with warnings := s.warnings ++ [message], journal := s.journal ++ [.warn message] }

/-- What is told of a request for a key that is being planned. -/
def cycleWarning (key : String) : String :=
  "Pass Cycle detected at pass " ++ key ++ ". Breaking loop."

/-- Answers a request for a key that is being planned. -/
def breakCycle (key : String) : PlanM Unit := do
  warn (cycleWarning key)
  modify fun s => { s with cycleBreaks := s.cycleBreaks + 1 }

/-! ### Keys being planned -/

def enter (key : String) : PlanM Unit :=
  modify fun s => { s with active := s.active ++ [key] }

/-- Takes a key out of those being planned; it has to be one of them. -/
def leave (key : String) : PlanM Unit := do
  if key ∈ (← get).active then modify fun s => { s with active := s.active.erase key }
  else throw (.notActive key)

/-- Runs a computation while a key is being planned. -/
def whileActive {α : Type} (key : String) (act : PlanM α) : PlanM α :=
  ExceptT.mk do
    modify fun s => { s with active := s.active ++ [key] }
    let result ← act.run
    modify fun s => { s with active := s.active.erase key }
    pure result

/-! ### Samplers -/

/-- The sampler that reads a pass; the empty texture where there is no pass. The first pass that a
sampler is made for owns it. -/
def sampler (config : Config) (pass : String) : PlanM String := do
  if pass.isEmpty then pure config.emptyTexture
  else
    let name := Shader.samplerName pass
    modify fun s => { s with owners := s.owners.insertNew name pass }
    pure name

/-- The passes that some samplers read. -/
def bindings (samplers : List String) : PlanM (Keyed String) := do
  let owners := (← get).owners
  pure (Keyed.ofList (samplers.filterMap fun u => (owners.get? u).map fun pass => (u, pass)))

/-! ### Passes -/

/-- Adds a pass, which can be found under its own id unless that is taken. -/
def addPass (p : RenderPass) : PlanM Unit :=
  modify fun s =>
    { s with passes := s.passes ++ [p], generated := s.generated.insertNew p.id p.id }

/-- Adds passes, the last of which can be found under a key. -/
def addPasses (passes : List RenderPass) (key last : String) : PlanM Unit := do
  passes.forM addPass
  modify fun s => { s with generated := s.generated.insert key last }

/-- The key of an output: the id of the node, followed by that of the port unless it is the default
output. -/
def passKey (node : Node) (port : Option String) : String :=
  let p := node.outputPort port
  if p.id = node.defaultOutput.id then node.id else node.id ++ "::" ++ p.id

end RenderGraph.Plan
