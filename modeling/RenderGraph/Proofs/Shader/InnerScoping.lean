import RenderGraph.Proofs.Compile.Totality
import RenderGraph.Proofs.Shader.CallOrder
import RenderGraph.Proofs.Shader.InnerStatements

/-!
# Names in the bodies of compounds

The body of a compound calls the nodes inside its scope and assigns its outputs. A call inside a
compound takes the variable of a source whether or not the source has been called. If the nodes inside
a compound are wired to one another only, a variable is read before it is declared for two reasons: its
node is an output proxy, which is never called, or the edge that brings it closes a cycle, which the
search for the order of calls has broken.

## Main definitions

* `Graph.WiredWithin`: the nodes inside a scope are fed by one another only
* `Shader.InnerKnown`: what the statements of the body of a compound may read

## Main results

* `Shader.closed_compoundStatements`: what the statements of a compound read
* `Shader.inner_reads_declared_or_cyclic`: the same for its body
-/

namespace RenderGraph

/-- The nodes inside a scope are fed by one another only. -/
def Graph.WiredWithin (g : Graph) (scope : String) : Prop :=
  ∀ n ∈ g.children (some scope), ∀ e ∈ g.incoming n.id,
    e.source ∈ (g.children (some scope)).map Node.id

namespace Shader

open Relation (TransGen)

variable {scene : Scene} {scope : String} {n : Node} {port : Port}

/-! ### Calls inside a compound -/

/-- The names of the variables that the call of a node declares. -/
def outputVars (n : Node) : List String :=
  n.effectiveOutputs.map fun p => n.outputVar p.id

/-- A call inside a compound reads what is declared before, its own results, or what is known to it. -/
private theorem closed_innerStatements {known : Statement → Reference → Prop} {ss : List Statement}
    (h : innerStatements scene scope n = .ok ss) (hc : ∀ s, known s .coordinate)
    (hk : ∀ port ∈ n.inputs, ∀ r, Argument.InnerRefers scene scope n port r →
      r.name ∈ outputVars n ∨ ∀ xs results, known (.call n xs results) r) :
    Closed scene.config known ss ∧ outputVars n ⊆ ss.flatMap Statement.declares := by
  obtain ⟨values, hvalues, rfl⟩ := Fault.map_eq_ok_iff.1 h
  refine ⟨closed_callStatements ?_ (hc _) fun x hx r hr => Or.inr ?_, fun name hname => ?_⟩
  · rw [flatMap_preparation_map]
    exact .nil
  · obtain ⟨value, hvalue, rfl⟩ := List.mem_map.1 hx
    obtain ⟨port, hp, hvalue⟩ := exists_of_forall₂ (forall₂_of_mapM hvalues) hvalue
    exact (hk port hp r (refers_of_innerValue hvalue r hr)).imp_right fun hknown => hknown _ _
  · obtain ⟨port, hp, rfl⟩ := List.mem_map.1 hname
    exact declares_callStatements hp

/-- Calls inside a compound read what is declared before, their own results, or what is known to them. -/
theorem closed_innerCalls (known : Statement → Reference → Prop) (names : List String)
    {nodes : List Node} {calls : List (List Statement)}
    (h : List.Forall₂ (fun n ss => innerStatements scene scope n = .ok ss) nodes calls)
    (hc : ∀ s, known s .coordinate)
    (hk : ∀ before n after, nodes = before ++ n :: after → ∀ port ∈ n.inputs, ∀ r,
      Argument.InnerRefers scene scope n port r →
        r.name ∈ names ∨ r.name ∈ before.flatMap outputVars ∨ r.name ∈ outputVars n ∨
          ∀ xs results, known (.call n xs results) r) :
    Closed scene.config (fun s r => r.name ∈ names ∨ known s r) calls.flatten ∧
      ∀ n ∈ nodes, outputVars n ⊆ calls.flatten.flatMap Statement.declares := by
  induction h generalizing names with
  | nil => exact ⟨.nil, by simp⟩
  | @cons n ss nodes calls hn _ ih =>
    obtain ⟨hclosed, hvars⟩ : Closed scene.config (fun s r => r.name ∈ names ∨ known s r) ss ∧
        outputVars n ⊆ ss.flatMap Statement.declares := by
      refine closed_innerStatements hn (fun s => Or.inr (hc s)) fun port hp r hr => ?_
      rcases hk [] n nodes rfl port hp r hr with hname | hbefore | hown | hknown
      · exact Or.inr fun _ _ => Or.inl hname
      · cases hbefore
      · exact Or.inl hown
      · exact Or.inr fun _ _ => Or.inr (hknown _ _)
    have hk' : ∀ before m after, nodes = before ++ m :: after → ∀ port ∈ m.inputs, ∀ r,
        Argument.InnerRefers scene scope m port r →
          r.name ∈ ss.flatMap Statement.declares ++ names ∨ r.name ∈ before.flatMap outputVars ∨
            r.name ∈ outputVars m ∨ ∀ xs results, known (.call m xs results) r := by
      intro before m after hsplit port hp r hr
      rw [List.mem_append, or_assoc]
      rcases hk (n :: before) m after (by rw [hsplit]; rfl) port hp r hr with h | h | h
      · exact Or.inr (Or.inl h)
      · rw [List.flatMap_cons, List.mem_append] at h
        exact h.elim (fun h => Or.inl (hvars h)) fun h => Or.inr (Or.inr (Or.inl h))
      · exact Or.inr (Or.inr (Or.inr h))
    obtain ⟨hclosed', hdeclared'⟩ := ih _ hk'
    rw [List.flatten_cons, List.flatMap_append]
    refine ⟨hclosed.append (hclosed'.mono fun s r hr => ?_), ?_⟩
    · rw [List.mem_append, or_assoc] at hr
      exact hr
    · exact List.forall_mem_cons.2 ⟨fun name hname => List.mem_append_left _ (hvars hname),
        fun m hm name hname => List.mem_append_right _ (hdeclared' m hm hname)⟩

/-! ### Bodies of compounds -/

/-- What a statement of the body of a compound may read though no statement before declares it. Of the
variables of outputs, there are those of output proxies and those that an edge brings which closes a
cycle. -/
inductive InnerKnown (scene : Scene) (scope : String) (s : Statement) : Reference → Prop
  | coordinate : InnerKnown scene scope s .coordinate
  /-- A parameter of the compound, for which an input proxy stands. -/
  | parameter {proxy : Node} {port : Option String}
      (hn : proxy ∈ scene.graph.children (some scope)) (hk : proxy.kind = .graphInput) :
      InnerKnown scene scope s (.parameter (proxy.outputPort port))
  | global {n : Node} (hn : n ∈ scene.graph.nodeList) (hk : n.kind = .globalVar) :
      InnerKnown scene scope s (.global n)
  | bound {n : Node} {port : Port} (hn : n ∈ scene.graph.children (some scope)) (hp : port ∈ n.inputs)
      (h : (n.uniforms.get? port.id).isSome = true) : InnerKnown scene scope s (.bound n port)
  | empty : InnerKnown scene scope s (.texture scene.config.emptyTexture)
  | emptyCube : InnerKnown scene scope s (.texture scene.config.emptyCubeTexture)
  /-- An output of an output proxy. -/
  | proxy {n : Node} {port : Port} (hn : n ∈ scene.graph.children (some scope))
      (hk : n.kind = .graphOutput) : InnerKnown scene scope s (.output n port)
  /-- An output that feeds the node that is called, and is fed by it in turn. -/
  | cycle {n source : Node} {arguments : List Expression} {results : List Port} {port : Port}
      (hs : s = .call n arguments results) (hne : source ≠ n)
      (hf : Feeds scene.graph (scene.graph.children (some scope)) source.id n.id)
      (hc : TransGen (Feeds scene.graph (scene.graph.children (some scope))) n.id source.id) :
      InnerKnown scene scope s (.output source port)

theorem mem_children_iff {g : Graph} {scope : Option String} {n : Node} :
    n ∈ g.children scope ↔ n ∈ g.nodeList ∧ n.scope = scope := by
  simp [Graph.children]

/-- Nodes of a scope with one id are one node. -/
theorem eq_of_mem_children {g : Graph} {scope : Option String} {n m : Node} (hn : n ∈ g.children scope)
    (hm : g.node? m.id = some m) (hid : n.id = m.id) : n = m := by
  have hget := Graph.mem_nodeList_iff.1 (mem_children_iff.1 hn).1
  rw [hid, hm] at hget
  exact (Option.some.inj hget).symm

/-- What an edge brings inside a scope that is wired within itself: a parameter, a global value, an
output of an output proxy, or an output of a node that is called. -/
theorem sourceReference_cases (hw : scene.graph.WiredWithin scope) {target source : Node} {e : Edge}
    (ht : target ∈ scene.graph.children (some scope)) (he : e ∈ scene.graph.incoming target.id)
    (hs : scene.graph.node? e.source = some source) :
    source ∈ scene.graph.children (some scope) ∧
      Feeds scene.graph (scene.graph.children (some scope)) source.id target.id ∧
      ((∀ s, InnerKnown scene scope s (sourceReference scope source e.sourcePort)) ∨
        hasFunction source.kind = true ∧
          sourceReference scope source e.sourcePort =
            .output source (source.outputPort e.sourcePort)) := by
  have hid : source.id = e.source := scene.graph.id_eq hs
  have hin := hw target ht e he
  have hsource : source ∈ scene.graph.children (some scope) := by
    obtain ⟨m, hm, hmid⟩ := List.mem_map.1 hin
    exact eq_of_mem_children hm (hid ▸ hs) (hmid.trans hid.symm) ▸ hm
  refine ⟨hsource, ⟨hid ▸ hin, e, he, hid.symm⟩, ?_⟩
  obtain ⟨hnode, hscope⟩ := mem_children_iff.1 hsource
  unfold sourceReference
  cases hk : source.kind with
  | graphInput => exact Or.inl fun s => by simpa [hscope] using .parameter hsource hk
  | globalVar => exact Or.inl fun s => by simpa using .global hnode hk
  | graphOutput => exact Or.inl fun s => by simpa using .proxy hsource hk
  | standard => exact Or.inr ⟨rfl, by simp⟩
  | compound => exact Or.inr ⟨rfl, by simp⟩
  | multiStage => exact Or.inr ⟨rfl, by simp⟩

/-- What stands before an item of a filtered list stood before it in the list. -/
private theorem exists_split_of_filter {α : Type} {p : α → Bool} {l before after : List α} {a : α}
    (h : l.filter p = before ++ a :: after) :
    ∃ front back, l = front ++ a :: back ∧ front.filter p = before := by
  obtain ⟨l₁, l₂, rfl, rfl, h₂⟩ := List.filter_eq_append_iff.1 h
  obtain ⟨l₃, l₄, rfl, hnot, -, -⟩ := List.filter_eq_cons_iff.1 h₂
  refine ⟨l₁ ++ l₃, l₄, by rw [List.append_assoc], ?_⟩
  rw [List.filter_append, List.filter_eq_nil_iff.2 hnot, List.append_nil]

theorem mem_outputVars (n : Node) (port : Option String) :
    n.outputVar (n.outputPort port).id ∈ outputVars n :=
  List.mem_map.2 ⟨_, n.outputPort_mem port, rfl⟩

/-- What the call of a node inside a compound refers to is declared by a call before it or by itself, or
it is known. -/
theorem innerRefers_cases (hw : scene.graph.WiredWithin scope) {before after : List Node}
    (h : (callOrder scene (scene.graph.children (some scope))).filter (hasFunction ·.kind) =
      before ++ n :: after) (hp : port ∈ n.inputs) {r : Reference}
    (hr : Argument.InnerRefers scene scope n port r) :
    r.name ∈ before.flatMap outputVars ∨ r.name ∈ outputVars n ∨
      ∀ xs results, InnerKnown scene scope (.call n xs results) r := by
  obtain ⟨front, back, horder, rfl⟩ := exists_split_of_filter h
  have hchild {m : Node} (hm : m ∈ front ++ n :: back) : m ∈ scene.graph.children (some scope) :=
    mem_of_mem_callOrder (horder ▸ hm)
  have hn := hchild (List.mem_append_right _ List.mem_cons_self)
  cases hr with
  | bound hb => exact Or.inr (Or.inr fun _ _ => .bound hn hp hb)
  | empty => exact Or.inr (Or.inr fun _ _ => .empty)
  | emptyCube => exact Or.inr (Or.inr fun _ _ => .emptyCube)
  | @edge e source he hs =>
    obtain ⟨hsource, hfeeds, hknown | ⟨hfunction, heq⟩⟩ := sourceReference_cases hw hn he hs
    · exact Or.inr (Or.inr fun _ _ => hknown _)
    rw [heq]
    by_cases hself : source = n
    · exact Or.inr (Or.inl (hself ▸ mem_outputVars source e.sourcePort))
    rcases mem_of_callOrder_split horder hfeeds with hbefore | hcycle
    · obtain ⟨m, hm, hid⟩ := List.mem_map.1 hbefore
      obtain rfl := eq_of_mem_children (hchild (List.mem_append_left _ hm))
        (Graph.mem_nodeList_iff.1 (mem_children_iff.1 hsource).1) hid
      exact Or.inl (List.mem_flatMap.2
        ⟨m, List.mem_filter.2 ⟨hm, hfunction⟩, mem_outputVars m e.sourcePort⟩)
    · exact Or.inr (Or.inr fun _ _ => .cycle rfl hself hfeeds hcycle)

/-- If the nodes inside a compound are fed by one another only, then the statements of the compound read
variables of outputs behind their declarations, except for those of output proxies and for those that
an edge brings which closes a cycle. -/
theorem closed_compoundStatements {compound : Node} {ss : List Statement}
    (hw : scene.graph.WiredWithin compound.id) (h : compoundStatements scene compound = .ok ss) :
    Closed scene.config (InnerKnown scene compound.id) ss := by
  obtain ⟨calls, hcalls, h⟩ := Fault.bind_eq_ok_iff.1 h
  obtain ⟨assignments, hassignments, h⟩ := Fault.bind_eq_ok_iff.1 h
  cases h
  obtain ⟨hclosed, hdeclared⟩ :=
    closed_innerCalls (InnerKnown scene compound.id) [] (forall₂_of_mapM hcalls)
      (fun _ => .coordinate)
      fun before n after hsplit port hp r hr => Or.inr (innerRefers_cases hw hsplit hp hr)
  refine Closed.append (hclosed.mono fun s r hr => hr.resolve_left List.not_mem_nil)
    (.of_known fun s hs r hr => ?_)
  obtain ⟨port, -, hs⟩ := exists_of_forall₂ (forall₂_of_mapM hassignments) hs
  rcases refers_of_innerAssignment hs r hr with ⟨p, hp, e, he, source, hsource, rfl⟩ | rfl | rfl
  · have hmem := (List.mem_filter.1 (List.mem_of_getLast? hp)).1
    obtain ⟨hchild, hfeeds, hk | ⟨hfunction, heq⟩⟩ :=
      sourceReference_cases hw (mem_of_mem_callOrder hmem) he hsource
    · exact Or.inr (hk s)
    -- The source has been called by the time of the assignments.
    obtain ⟨m, hm, hid⟩ := List.mem_map.1 (mem_callOrder_of_feeds hmem hfeeds)
    obtain rfl := eq_of_mem_children (mem_of_mem_callOrder hm)
      (Graph.mem_nodeList_iff.1 (mem_children_iff.1 hchild).1) hid
    rw [heq]
    exact Or.inl (hdeclared m (List.mem_filter.2 ⟨hm, hfunction⟩) (mem_outputVars m e.sourcePort))
  · exact Or.inr .empty
  · exact Or.inr .emptyCube

/-- If the nodes inside a compound are fed by one another only, then the body of the compound, which ends
with its statements, reads variables of outputs behind their declarations, except for those of output
proxies and for those that an edge brings which closes a cycle. -/
theorem inner_reads_declared_or_cyclic {fuel : Nat} {stack : List String} {compound : Node}
    {body : String} (hw : scene.graph.WiredWithin compound.id)
    (h : compoundWithin scene fuel stack compound = .ok body) :
    ∃ front ss, compoundStatements scene compound = .ok ss ∧
      body = front ++ " \x7b\n" ++ "\n".intercalate (ss.map (Statement.text scene)) ++ "\n\x7d\n" ∧
      Closed scene.config (InnerKnown scene compound.id) ss := by
  obtain ⟨front, ss, hss, hbody⟩ := exists_statements_of_compoundWithin h
  exact ⟨front, ss, hss, hbody, closed_compoundStatements hw hss⟩

/-- A node that passes on what it gets. -/
def relay (id : String) : Node :=
  { id, inputs := [.ofId "t" .vec4], outputs := [.ofId "o" .vec4], scope := some "C" }

def ringCompound : Node :=
  { id := "C", kind := .compound, outputs := [.ofId "r" .vec4] }

/-- A compound inside which two nodes feed each other. -/
def ringScene : Scene where
  graph := .ofLists
    [relay "x", relay "y",
      { id := "z", kind := .graphOutput, inputs := [.ofId "r" .vec4], scope := some "C" }, ringCompound]
    [{ source := "y", target := "x", sourcePort := some "o", targetPort := some "t" },
      { source := "x", target := "y", sourcePort := some "o", targetPort := some "t" },
      { source := "x", target := "z", sourcePort := some "o", targetPort := some "r" }]
  config := {}

private theorem wiredWithin_ringScene : ringScene.graph.WiredWithin "C" := by
  unfold Graph.WiredWithin
  decide +kernel

private theorem exists_ringBody : ∃ body, compoundBody ringScene ringCompound = .ok body :=
  exists_compoundBody (Graph.mem_nodeList_iff.2 rfl) fun _ =>
    not_cause_of_plain (by decide +kernel) (by decide +kernel) (by decide +kernel) (by decide +kernel)
      rfl (by decide +kernel) (by decide +kernel) (by decide +kernel)

theorem inner_reads_declared_or_cyclic_ring : ringScene.graph.WiredWithin ringCompound.id ∧
    ∃ body, compoundBody ringScene ringCompound = .ok body ∧
      ∃ front ss, compoundStatements ringScene ringCompound = .ok ss ∧
        body = front ++ " \x7b\n" ++ "\n".intercalate (ss.map (Statement.text ringScene)) ++
          "\n\x7d\n" ∧
        Closed ringScene.config (InnerKnown ringScene "C") ss := by
  obtain ⟨body, hbody⟩ := exists_ringBody
  exact ⟨wiredWithin_ringScene, body, hbody, inner_reads_declared_or_cyclic wiredWithin_ringScene hbody⟩

/-- The statements of the compound. -/
def ringStatements : List Statement :=
  let value (id : String) : Expression := .value (.output (relay id) (.ofId "o" .vec4)) .vec4 .vec4
  [.output (relay "y") (.ofId "o" .vec4), .call (relay "y") [value "x"] [.ofId "o" .vec4],
    .output (relay "x") (.ofId "o" .vec4), .call (relay "x") [value "y"] [.ofId "o" .vec4],
    .assign (.ofId "r" .vec4) (value "x")]

/-- The compound calls one of its nodes with the variable of the other, which is declared only behind
the call. -/
theorem inner_cycle_undeclared : ringScene.graph.WiredWithin ringCompound.id ∧
    compoundStatements ringScene ringCompound = .ok ringStatements ∧
    ∃ body front, compoundBody ringScene ringCompound = .ok body ∧
      body = front ++ " \x7b\n" ++
        "\n".intercalate (ringStatements.map (Statement.text ringScene)) ++ "\n\x7d\n" ∧
      ∃ before s after, ringStatements = before ++ s :: after ∧
        .output (relay "x") (.ofId "o" .vec4) ∈ s.reads ringScene.config ∧
        (relay "x").outputVar "o" ∉ before.flatMap Statement.declares := by
  have hstatements : compoundStatements ringScene ringCompound = .ok ringStatements := rfl
  obtain ⟨body, hbody⟩ := exists_ringBody
  obtain ⟨front, ss, hss, htext⟩ := exists_statements_of_compoundWithin hbody
  obtain rfl := Except.ok.inj (hstatements.symm.trans hss)
  refine ⟨wiredWithin_ringScene, hstatements, body, front, hbody, htext,
    [.output (relay "y") (.ofId "o" .vec4)], _, _, rfl, ?_, ?_⟩
  · simp [Statement.reads, Expression.references]
  · decide +kernel

end Shader

end RenderGraph
