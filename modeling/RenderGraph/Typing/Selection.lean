import RenderGraph.Typing.PortType
import RenderGraph.Source.Overload

/-!
# Choice of overloads

A node that is typed automatically takes the overload that agrees best with what it is connected to.
An overload is rejected when an edge would mix samplers with other values or bring more components
than the parameter takes. The others are scored: three for a parameter that is met exactly, two for
one that is met by another type.

## Main definitions

* `Typing.Connection`, `Typing.connection`: how a node is connected
* `Typing.score?`: how well an overload agrees with the edges into a node
* `Typing.select?`: the chosen overload
-/

namespace RenderGraph.Typing

open Source (Overload)

/-- How a node is connected. -/
structure Connection where
  /-- The greatest rank at the other ends of the edges, and at least one. -/
  rank : Nat
  /-- The node has an edge to or from a known node. -/
  connected : Bool
  /-- The node has an edge from a known node. -/
  driven : Bool
  deriving DecidableEq, Repr

/-- The edges into a node that come from known nodes. -/
def knownIncoming (g : Graph) (nodes : Keyed Node) (id : String) : List Edge :=
  (g.incoming id).filter fun e => nodes.contains e.source

/-- The edges from a node that go to known nodes. -/
def knownOutgoing (g : Graph) (nodes : Keyed Node) (id : String) : List Edge :=
  (g.outgoing id).filter fun e => nodes.contains e.target

/-- The type that an edge brings, if its source is known. -/
def edgeSourceType? (nodes : Keyed Node) (e : Edge) : Option DataType :=
  (nodes.get? e.source).map (sourceType · e.sourcePort)

/-- The type that an edge is wanted as, if its target is known and has the input. -/
def edgeTargetType? (nodes : Keyed Node) (e : Edge) : Option DataType :=
  (nodes.get? e.target).bind (targetType? · e.targetPort)

/-- The greatest rank among some types, and at least a given one. -/
def maxRank (least : Nat) (types : List DataType) : Nat :=
  types.foldl (fun m t => max m t.rank) least

/-- How a node is connected. Edges into the node decide about the rank; without any, the edges from
it do. -/
def connection (g : Graph) (nodes : Keyed Node) (id : String) : Connection :=
  let incoming := knownIncoming g nodes id
  if incoming.isEmpty then
    let outgoing := knownOutgoing g nodes id
    { rank := maxRank 1 (outgoing.filterMap (edgeTargetType? nodes)),
      connected := !outgoing.isEmpty, driven := false }
  else
    { rank := maxRank 1 (incoming.filterMap (edgeSourceType? nodes)),
      connected := true, driven := true }

/-- The edges that the choice of an overload looks at. -/
def drivingEdges (g : Graph) (nodes : Keyed Node) (id : String) : List Edge :=
  if (connection g nodes id).driven then knownIncoming g nodes id else []

/-- The edge into a parameter; of several, the last. -/
def edgeOfParameter (incoming : List Edge) (param : Port) : Option Edge :=
  incoming.reverse.find? fun e => e.targetPort == some param.id

/-- What a type scores at a parameter; a type that the parameter cannot take scores nothing. -/
def pairScore? (source param : DataType) : Option Nat :=
  if source = param then some 3
  else if source.isSampler ≠ param.isSampler then none
  else if param.rank < source.rank then none
  else some 2

/-- What one parameter adds to the score of an overload. -/
def parameterScore? (incoming : List Edge) (nodes : Keyed Node) (param : Port) : Option Nat :=
  match (edgeOfParameter incoming param).bind (edgeSourceType? nodes) with
  | none => some 0
  | some source => pairScore? source param.type

/-- How well an overload agrees with the edges into a node; a rejected one has no score. -/
def score? (o : Overload) (incoming : List Edge) (nodes : Keyed Node) : Option Nat :=
  o.inputs.foldlM (fun total param => (parameterScore? incoming nodes param).map (total + ·)) 0

/-- The first overload with the greatest score. -/
def bestScored? (overloads : List Overload) (incoming : List Edge) (nodes : Keyed Node) :
    Option (Overload × Nat) :=
  overloads.foldl (fun best o =>
    match score? o incoming nodes, best with
    | none, best => best
    | some s, none => some (o, s)
    | some s, some (b, t) => if t < s then some (o, s) else some (b, t)) none

/-- The first overload whose first input has a given rank. -/
def ofRank? (overloads : List Overload) (rank : Nat) : Option Overload :=
  overloads.find? fun o => o.inputs.head?.any (·.type.rank == rank)

/-- The chosen overload: the best scored one, else the first whose first input has the rank of the
node's connections. -/
def select? (overloads : List Overload) (incoming : List Edge) (nodes : Keyed Node) (rank : Nat) :
    Option Overload :=
  let scored := if incoming.isEmpty then none else bestScored? overloads incoming nodes
  match scored with
  | some (o, _) => some o
  | none => ofRank? overloads rank

end RenderGraph.Typing
