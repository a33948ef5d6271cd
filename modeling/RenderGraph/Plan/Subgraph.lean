import RenderGraph.Graph.Basic
import RenderGraph.Shader.Call

/-!
# The nodes of one pass

A pass inlines the nodes that its output depends on. An edge is a *boundary* when its source has to be
drawn by a pass of its own: when it is a multi-stage node, or when a texture is wanted and the source
gives something else. A search from the output collects the nodes, dependencies first; at a boundary
it asks for the texture of the source's pass instead of going on, and an edge back to a node that is
still being visited is dropped with a warning.

## Main definitions

* `Plan.isBoundary`
* `Plan.Subgraph`: what a search has collected
* `Plan.collect`
-/

namespace RenderGraph.Plan

/-- An edge from an output to an input of a type needs a pass of its own for its source. -/
def isBoundary (source : Node) (port : Option String) (target : DataType) : Bool :=
  source.isMultiStage || (target = .sampler2D && (source.outputPort port).type ≠ .sampler2D)

/-- What a search has collected. -/
structure Subgraph where
  /-- The nodes that are inlined, dependencies first. -/
  order : List Node := []
  /-- The samplers of inputs that are fed by other passes. -/
  textures : Keyed String := .empty
  /-- How many edges were dropped. -/
  cycleBreaks : Nat := 0

/-- The node has been collected. -/
def Subgraph.holds (s : Subgraph) (id : String) : Bool :=
  s.order.any (·.id == id)

/-- An element of an array input is fed by the edge, so that its source is inlined. -/
def feedsElement (node source : Node) (e : Edge) : Except Fault Bool := do
  match (← e.arrayElement).bind fun r => node.findInput (some r.1) with
  | some base => pure (base.type.isArray && !source.isMultiStage)
  | none => pure false

variable {σ : Type}

/-- A computation of the host of a search, which plans the passes that the search asks for. -/
abbrev HostM (σ : Type) :=
  ExceptT Fault (StateM σ)

/-- What a search asks of its host: the sampler that reads an output, and to pass on warnings. -/
structure Host (σ : Type) where
  texture : Node → Option String → HostM σ String
  warn : String → HostM σ Unit

/-- Follows an edge into a node that is being visited: collects its source, asks for its texture, or
leaves it alone when the node has no such input. -/
def follow (g : Graph) (host : Host σ) (visit : String → Subgraph → HostM σ Subgraph) (node : Node)
    (e : Edge) (s : Subgraph) : HostM σ Subgraph := do
  let source ← (g.requireNode e.source (some node.id) : Except Fault _)
  match node.findInput e.targetPort with
  | none =>
    let feeds ← (feedsElement node source e : Except Fault _)
    if feeds then visit source.id s else pure s
  | some port =>
    if isBoundary source e.sourcePort port.type then
      let sampler ← host.texture source e.sourcePort
      pure { s with textures := s.textures.insert (Shader.textureKey node.id port.id) sampler }
    else visit source.id s

/-- Collects a node after the nodes that it depends on. `fuel` bounds the depth, and `stack` holds the
nodes being visited. -/
def visit (g : Graph) (host : Host σ) : Nat → List String → String → Subgraph → HostM σ Subgraph
  | 0, _, _, _ => throw .tooDeep
  | fuel + 1, stack, id, s => do
    if s.holds id then pure s
    else if id ∈ stack then
      host.warn ("Inline Cycle detected at node " ++ id ++ ". Breaking edge.")
      pure { s with cycleBreaks := s.cycleBreaks + 1 }
    else
      let node ← (g.requireNode id : Except Fault _)
      let s ← (g.incoming id).foldlM
        (fun s e => follow g host (visit g host fuel (id :: stack)) node e s) s
      pure { s with order := s.order ++ [node] }

/-- The nodes that are inlined in the pass of a node, and the textures that it reads. -/
def collect (g : Graph) (host : Host σ) (root : String) : HostM σ Subgraph :=
  visit g host (g.size + 1) [] root {}

end RenderGraph.Plan
