import RenderGraph.Proofs.Shader.Calls
import RenderGraph.Proofs.Shader.Emission
import RenderGraph.Proofs.Shader.Statement

/-!
# The statements of a main function

The calls of a main function are written as text. Here they are written as statements, for the same
nodes and with the same choices; the text of the statements is the text of the calls. What the
statements read is declared by a statement before, or it has to be supplied by the program.

## Main definitions

* `Shader.CallContext.provision`: what an input is given
* `Shader.CallContext.statements`: the statements that call some nodes
* `Shader.CallRefers`, `Shader.Supplies`: what these may refer to, and what has to be supplied

## Main results

* `Shader.leads_callNodes_statements`: the lines of a main function are the texts of the statements
* `Shader.closed_statements`: the statements read what is declared or supplied
-/

namespace RenderGraph.Shader

variable {ctx : CallContext} {n : Node} {port : Port}

/-! ### What inputs are given -/

namespace CallContext

/-- What an edge brings, if its source was called before. -/
def brought? (ctx : CallContext) (e : Edge) (t : DataType) : Option Expression :=
  (ctx.scene.graph.node? e.source).bind fun source =>
    if source.id ∈ ctx.emitted then some (sourceExpression source e.sourcePort t) else none

/-- What an input is given that nothing feeds. -/
def own (ctx : CallContext) (n : Node) (port : Port) : Except Fault Expression :=
  match boundExpression? n port with
  | some x => pure x
  | none =>
    if port.type.isArray then do
      let length ← portCapacity port n.uniforms ctx.scene.fallback
      pure (.default port.type (some length))
    else pure (.default port.type none)

/-- What an input is given when no texture and no assembled array feeds it. -/
def plain (ctx : CallContext) (n : Node) (port : Port) (edge : Option Edge) : Except Fault Expression :=
  match edge.bind (ctx.brought? · port.type) with
  | some x => pure x
  | none => ctx.own n port

/-- The statement that assigns an element of an array. -/
def assignment (ctx : CallContext) (n : Node) (port : Port) (length : Nat) (element : Edge × Nat) :
    Statement :=
  .element n port length element.2
    ((ctx.brought? element.1 port.type.element).getD (.default port.type.element none))

/-- The statements that assemble an array from the bound value of an input and the edges to its
elements. -/
def assembly (ctx : CallContext) (n : Node) (port : Port) (length : Nat)
    (elements : List (Edge × Nat)) : List Statement :=
  .array n port length ::
    ((if (n.uniforms.get? port.id).any (·.type = port.type) then [.copy n port length] else []) ++
      (elements.mergeSort fun a b => a.2 ≤ b.2).map (ctx.assignment n port length))

/-- The edges to elements of an input, unless an edge feeds it as a whole. -/
def elements (ctx : CallContext) (n : Node) (port : Port) : Except Fault (List (Edge × Nat)) :=
  if (ctx.scene.graph.edgeInto n.id (some port.id)).isNone && port.type.isArray then
    elementEdges ctx n port
  else pure []

/-- What an input is given. -/
def provision (ctx : CallContext) (n : Node) (port : Port) : Except Fault Provision :=
  match ctx.texture? n.id port.id with
  | some texture => pure { value := .sampled texture port.type }
  | none => do
    let elements ← ctx.elements n port
    if elements.isEmpty then
      let value ← ctx.plain n port (ctx.scene.graph.edgeInto n.id (some port.id))
      pure { value }
    else
      let length ← portCapacity port n.uniforms ctx.scene.fallback
      pure
        { value := .value (.array n port) port.type port.type,
          preparation := ctx.assembly n port length elements }

end CallContext

theorem edgeExpression?_eq {e : Edge} {t : DataType} {brought : Option String}
    (h : edgeExpression? ctx e t = .ok brought) :
    brought = (ctx.brought? e t).map (Expression.text ctx.scene.config) := by
  unfold edgeExpression? Graph.requireNode at h
  unfold CallContext.brought?
  cases hs : ctx.scene.graph.node? e.source with
  | none =>
    rw [hs] at h
    cases h
  | some source =>
    rw [hs] at h
    obtain ⟨_, hsource, h⟩ := Fault.bind_eq_ok_iff.1 h
    cases hsource
    rw [Option.bind_some]
    split at h
    · next hm =>
      cases h
      rw [if_neg hm]
      rfl
    · next hm =>
      rw [if_pos (not_not.1 hm), sourceExpression]
      split at h
      · next hk =>
        cases h
        rw [if_pos hk]
        rfl
      · next hk =>
        cases h
        rw [if_neg hk]
        rfl

theorem ownArgument_eq (ctx : CallContext) (n : Node) (port : Port) :
    ownArgument ctx n port = (ctx.own n port).map (Expression.text ctx.scene.config) := by
  unfold ownArgument CallContext.own
  rw [boundArgument?_eq_map ctx.scene.config]
  cases boundExpression? n port with
  | some x => rfl
  | none =>
    dsimp only [Option.map_none, defaultArgument]
    split
    · show (do let length ← portCapacity port n.uniforms ctx.scene.fallback; _) = _
      cases portCapacity port n.uniforms ctx.scene.fallback <;> rfl
    · rfl

/-- An assignment to an element of an array, as a statement. -/
private theorem text_assignment {length : Nat} {element : Edge × Nat} {line : String}
    (h : Assigned ctx n port length element line) :
    (ctx.assignment n port length element).text ctx.scene = line := by
  obtain ⟨value, rfl, hv | ⟨hv, rfl⟩⟩ := h
  · obtain ⟨x, hx, rfl⟩ := Option.map_eq_some_iff.1 (edgeExpression?_eq hv).symm
    rw [CallContext.assignment, hx]
    rfl
  · rw [CallContext.assignment, Option.map_eq_none_iff.1 (edgeExpression?_eq hv).symm]
    rfl

private theorem text_assembly {length : Nat} {elements : List (Edge × Nat)} {lines : List String}
    (h : List.Forall₂ (Assigned ctx n port length) (elements.mergeSort fun a b => a.2 ≤ b.2) lines) :
    (ctx.assembly n port length elements).map (Statement.text ctx.scene) =
      arrayOpening ctx n port length ++ lines := by
  have hlines : (elements.mergeSort fun a b => a.2 ≤ b.2).map
      (fun element => (ctx.assignment n port length element).text ctx.scene) = lines := by
    rw [← List.forall₂_eq_eq_eq, List.forall₂_map_left_iff]
    exact h.imp fun _ _ => text_assignment
  rw [CallContext.assembly, List.map_cons, List.map_append, List.map_map, arrayOpening,
    List.append_assoc, ← hlines, List.singleton_append]
  split <;> rfl

private theorem provision_of_plain {x : Expression} (ht : ctx.texture? n.id port.id = none)
    (he : ctx.elements n port = .ok [])
    (hx : ctx.plain n port (ctx.scene.graph.edgeInto n.id (some port.id)) = .ok x) :
    ctx.provision n port = .ok { value := x } := by
  rw [CallContext.provision, ht]
  dsimp only
  rw [he]
  show (ctx.plain n port (ctx.scene.graph.edgeInto n.id (some port.id)) >>= fun value => _) = _
  rw [hx]
  rfl

/-- What an input is given by a call is what it is provided with. -/
theorem Argument.Chosen.exists_provision {a : Argument} (h : Argument.Chosen ctx n port a) :
    ∃ x, ctx.provision n port = .ok x ∧ x.value.text ctx.scene.config = a.text ∧
      x.preparation.map (Statement.text ctx.scene) = a.lines := by
  cases h with
  | texture hu =>
    rw [CallContext.provision, hu]
    exact ⟨_, rfl, rfl, rfl⟩
  | @edge e text ht he hv =>
    obtain ⟨x, hx, rfl⟩ := Option.map_eq_some_iff.1 (edgeExpression?_eq hv).symm
    refine ⟨_, provision_of_plain ht ?_ ?_, rfl, rfl⟩
    · rw [CallContext.elements, he]
      rfl
    · rw [he, CallContext.plain, Option.bind_some, hx]
      rfl
  | @array elements length lines ht hn ha he hne hc hl =>
    have helements : ctx.elements n port = .ok elements := by
      rw [CallContext.elements, hn, ha]
      exact he
    have hfull : ¬ elements.isEmpty = true := fun h => hne (List.isEmpty_iff.1 h)
    refine ⟨{ value := .value (.array n port) port.type port.type, preparation := _ }, ?_,
      cast_self _ _, text_assembly hl⟩
    rw [CallContext.provision, ht]
    dsimp only
    rw [helements]
    show (if elements.isEmpty = true then _ else _) = _
    rw [if_neg hfull, hc]
    rfl
  | @own text ht hn he hv =>
    rw [ownArgument_eq] at hv
    obtain ⟨x, hx, rfl⟩ := Fault.map_eq_ok_iff.1 hv
    refine ⟨_, provision_of_plain ht ?_ ?_, rfl, rfl⟩
    · rw [CallContext.elements]
      split
      · next hfree =>
        obtain ⟨hfree, harray⟩ := Bool.and_eq_true_iff.1 hfree
        exact he (Option.isNone_iff_eq_none.1 hfree) harray
      · rfl
    · rw [CallContext.plain]
      cases hedge : ctx.scene.graph.edgeInto n.id (some port.id) with
      | none => exact hx
      | some e =>
        rw [Option.bind_some, Option.map_eq_none_iff.1 (edgeExpression?_eq (hn e hedge)).symm]
        exact hx

/-! ### What inputs refer to -/

/-- What an argument of a call in a main function may refer to. -/
inductive Argument.Refers (ctx : CallContext) (n : Node) (port : Port) : Reference → Prop
  /-- The texture of another pass. -/
  | texture {u : String} (h : ctx.texture? n.id port.id = some u) : Refers ctx n port (.texture u)
  /-- The variable of a node called before, which an edge leads to. -/
  | output {e : Edge} {source : Node} (he : e ∈ ctx.scene.graph.edges)
      (hs : ctx.scene.graph.node? e.source = some source) (hm : source.id ∈ ctx.emitted)
      (hk : source.kind ≠ .globalVar) :
      Refers ctx n port (.output source (source.outputPort e.sourcePort))
  /-- A global value, which an edge leads to. -/
  | global {source : Node} (hs : source ∈ ctx.scene.graph.nodeList) (hm : source.id ∈ ctx.emitted)
      (hk : source.kind = .globalVar) : Refers ctx n port (.global source)
  /-- The bound value. -/
  | bound (h : (n.uniforms.get? port.id).isSome = true) : Refers ctx n port (.bound n port)
  /-- The textures that stand for missing ones. -/
  | empty : Refers ctx n port (.texture ctx.scene.config.emptyTexture)
  | emptyCube : Refers ctx n port (.texture ctx.scene.config.emptyCubeTexture)

namespace Argument

/-- What an edge brings is the uniform of a global value or the variable of an output, of a node that was
called before. -/
theorem exists_source_of_brought? {e : Edge} {t : DataType} {x : Expression}
    (h : ctx.brought? e t = some x) :
    ∃ source, ctx.scene.graph.node? e.source = some source ∧ source.id ∈ ctx.emitted ∧
      x = sourceExpression source e.sourcePort t := by
  obtain ⟨source, hs, h⟩ := Option.bind_eq_some_iff.1 h
  split at h
  · next hm => exact ⟨source, hs, hm, (Option.some.inj h).symm⟩
  · cases h

theorem exists_source_of_edge {e : Edge} {t : DataType} {text : String}
    (h : edgeExpression? ctx e t = .ok (some text)) :
    ∃ source, ctx.scene.graph.node? e.source = some source ∧ source.id ∈ ctx.emitted ∧
      (source.kind = .globalVar ∧ text = cast source.globalUniformName source.outputType t ∨
        source.kind ≠ .globalVar ∧ text = cast (source.outputVar (source.outputPort e.sourcePort).id)
          (source.outputPort e.sourcePort).type t) := by
  obtain ⟨x, hx, rfl⟩ := Option.map_eq_some_iff.1 (edgeExpression?_eq h).symm
  obtain ⟨source, hs, hm, rfl⟩ := exists_source_of_brought? hx
  refine ⟨source, hs, hm, ?_⟩
  by_cases hk : source.kind = .globalVar
  · exact Or.inl ⟨hk, by rw [sourceExpression, if_pos hk]; rfl⟩
  · exact Or.inr ⟨hk, by rw [sourceExpression, if_neg hk]; rfl⟩

/-- An edge brings something if its source was called before. -/
theorem edgeExpression?_ne_none {e : Edge} {t : DataType} {source : Node}
    (hs : ctx.scene.graph.node? e.source = some source) (hm : source.id ∈ ctx.emitted) :
    edgeExpression? ctx e t ≠ .ok none := by
  intro h
  have hnone := Option.map_eq_none_iff.1 (edgeExpression?_eq h).symm
  rw [CallContext.brought?, hs, Option.bind_some, if_pos hm] at hnone
  cases hnone

theorem refers_of_brought? {e : Edge} {t : DataType} {x : Expression}
    (he : e ∈ ctx.scene.graph.edges) (h : ctx.brought? e t = some x) :
    ∀ r ∈ x.references ctx.scene.config, Refers ctx n port r := by
  intro r hr
  obtain ⟨source, hs, hm, rfl⟩ := exists_source_of_brought? h
  unfold sourceExpression at hr
  split at hr
  · next hk =>
    rw [List.mem_singleton.1 hr]
    exact .global (Graph.mem_nodeList_of_node? hs) hm hk
  · next hk =>
    rw [List.mem_singleton.1 hr]
    exact .output he hs hm hk

private theorem refers_default (t : DataType) (length : Option Nat) :
    ∀ r ∈ (Expression.default t length).references ctx.scene.config, Refers ctx n port r := by
  intro r hr
  rcases Expression.eq_of_mem_references_default hr with rfl | rfl
  · exact .empty
  · exact .emptyCube

theorem refers_of_own {x : Expression} (h : ctx.own n port = .ok x) :
    ∀ r ∈ x.references ctx.scene.config, Refers ctx n port r := by
  intro r hr
  unfold CallContext.own at h
  split at h
  · next y hy =>
    cases h
    obtain ⟨rfl, hb⟩ := eq_of_mem_references_bound hy hr
    exact .bound hb
  · split at h
    · obtain ⟨length, -, h⟩ := Fault.bind_eq_ok_iff.1 h
      cases h
      exact refers_default _ _ r hr
    · cases h
      exact refers_default _ _ r hr

theorem refers_of_plain {edge : Option Edge} (he : ∀ e ∈ edge, e ∈ ctx.scene.graph.edges)
    {x : Expression} (h : ctx.plain n port edge = .ok x) :
    ∀ r ∈ x.references ctx.scene.config, Refers ctx n port r := by
  unfold CallContext.plain at h
  split at h
  · next y hy =>
    cases h
    obtain ⟨e, hedge, hbrought⟩ := Option.bind_eq_some_iff.1 hy
    exact refers_of_brought? (he e hedge) hbrought
  · exact refers_of_own h

/-- The assembly of an array declares it, and reads it and what an argument may refer to. -/
private theorem closed_assembly {length : Nat} {elements : List (Edge × Nat)}
    (he : ∀ element ∈ elements, element.1 ∈ ctx.scene.graph.edges) :
    Closed ctx.scene.config (fun _ => Refers ctx n port) (ctx.assembly n port length elements) := by
  have harray : (Reference.array n port).name ∈ (Statement.array n port length).declares :=
    List.mem_singleton_self _
  refine .cons (by simp [Statement.reads]) (.of_known fun s hs r hr => ?_)
  rcases List.mem_append.1 hs with hs | hs
  · split at hs
    · next hb =>
      rw [List.mem_singleton.1 hs] at hr
      rcases List.mem_cons.1 hr with rfl | hr
      · exact Or.inl harray
      · rw [List.mem_singleton.1 hr]
        exact Or.inr (.bound (Option.isSome_of_any hb))
    · cases hs
  · obtain ⟨element, hmem, rfl⟩ := List.mem_map.1 hs
    rcases List.mem_cons.1 hr with rfl | hr
    · exact Or.inl harray
    · refine Or.inr ?_
      cases hb : ctx.brought? element.1 port.type.element with
      | some x =>
        rw [hb] at hr
        exact refers_of_brought? (he element (List.mem_mergeSort.1 hmem)) hb r hr
      | none =>
        rw [hb] at hr
        exact refers_default _ _ r hr

end Argument

/-- What an input is given refers to the assembled array or to what an argument may refer to. -/
theorem isClosed_of_provision {x : Provision} (h : ctx.provision n port = .ok x) :
    x.IsClosed ctx.scene.config (Argument.Refers ctx n port) := by
  unfold CallContext.provision at h
  split at h
  · next u hu =>
    cases h
    refine Provision.isClosed_of_references fun r hr => ?_
    rw [List.mem_singleton.1 hr]
    exact .texture hu
  · obtain ⟨elements, helements, h⟩ := Fault.bind_eq_ok_iff.1 h
    split at h
    · obtain ⟨value, hvalue, h⟩ := Fault.bind_eq_ok_iff.1 h
      cases h
      exact Provision.isClosed_of_references
        (Argument.refers_of_plain (fun e he => List.mem_of_find?_eq_some he) hvalue)
    · obtain ⟨length, -, h⟩ := Fault.bind_eq_ok_iff.1 h
      cases h
      have hedges : ∀ element ∈ elements, element.1 ∈ ctx.scene.graph.edges := by
        unfold CallContext.elements at helements
        split at helements
        · exact fun element hm => (mem_of_elementEdges helements hm).1
        · cases helements
          simp
      refine ⟨Argument.closed_assembly hedges, fun r hr => Or.inl ?_⟩
      rw [List.mem_singleton.1 hr, CallContext.assembly, List.flatMap_cons]
      exact List.mem_append_left _ (List.mem_singleton_self _)

/-! ### Calls -/

/-- The outputs for which a call in a main function declares variables. -/
def callResults (n : Node) : List Port :=
  match n.kind with
  | .globalVar => []
  | .graphInput => n.outputs
  | .graphOutput => [resultPort]
  | _ => n.effectiveOutputs

theorem callResults_eq (hk : n.kind ≠ .globalVar ∧ n.kind ≠ .graphInput) :
    callResults n = if n.kind = .graphOutput then [resultPort] else n.effectiveOutputs := by
  unfold callResults
  split
  · next h => exact absurd h hk.1
  · next h => exact absurd h hk.2
  · next h => rw [if_pos h]
  · next h => rw [if_neg h]

namespace CallContext

/-- The statements that call a node. Uniforms are not called, and input proxies are called without
arguments. -/
def nodeStatements (ctx : CallContext) (n : Node) : Except Fault (List Statement) :=
  match n.kind with
  | .globalVar => pure []
  | .graphInput => pure (callStatements n [] (callResults n))
  | _ => do
    let provisions ← n.inputs.mapM (ctx.provision n)
    pure (callStatements n provisions (callResults n))

/-- The statements that call some nodes, each of which may refer to those before it. -/
def statements : CallContext → List Node → Except Fault (List Statement)
  | _, [] => pure []
  | ctx, n :: nodes => do
    let first ← ctx.nodeStatements n
    let rest ← statements { ctx with emitted := n.id :: ctx.emitted } nodes
    pure (first ++ rest)

theorem nodeStatements_of_ne (hk : n.kind ≠ .globalVar ∧ n.kind ≠ .graphInput) :
    ctx.nodeStatements n =
      (n.inputs.mapM (ctx.provision n)).map fun provisions =>
        callStatements n provisions (callResults n) := by
  unfold nodeStatements
  split
  · next h => exact absurd h hk.1
  · next h => exact absurd h hk.2
  · cases n.inputs.mapM (ctx.provision n) <;> rfl

end CallContext

/-- An argument of a call has the text of what its input is given. -/
def Provision.Writes (scene : Scene) (x : Provision) (a : Argument) : Prop :=
  x.value.text scene.config = a.text ∧ x.preparation.map (Statement.text scene) = a.lines

/-- The text of a call is that of a block. -/
theorem map_text_callStatements {scene : Scene} {provisions : List Provision}
    {arguments : List Argument} (h : List.Forall₂ (Provision.Writes scene) provisions arguments)
    (results : List Port) :
    (callStatements n provisions results).map (Statement.text scene) =
      Block.lines scene { node := n, arguments, results } := by
  have htexts : (provisions.map (·.value)).map (Expression.text scene.config) =
      arguments.map (·.text) := by
    rw [← List.forall₂_eq_eq_eq, List.map_map, List.forall₂_map_left_iff, List.forall₂_map_right_iff]
    exact h.imp fun _ _ => And.left
  have hlines : (provisions.map fun x => x.preparation.map (Statement.text scene)) =
      arguments.map (·.lines) := by
    rw [← List.forall₂_eq_eq_eq, List.forall₂_map_left_iff, List.forall₂_map_right_iff]
    exact h.imp fun _ _ => And.right
  have hprepared : (provisions.flatMap (·.preparation)).map (Statement.text scene) =
      arguments.flatMap (·.lines) := by
    rw [List.map_flatMap, List.flatMap_def, hlines, ← List.flatMap_def]
  have hcall : Statement.text scene (.call n (provisions.map (·.value)) results) =
      callLine n.runName (["uv"] ++ arguments.map (·.text) ++
        results.map fun p => n.outputVar p.id) := by
    rw [← htexts]
    rfl
  have houtputs : (results.map (Statement.output n)).map (Statement.text scene) =
      results.map fun p => outputDeclaration scene (n.outputVar p.id) p.type :=
    List.map_map
  rw [callStatements, List.map_append, hprepared, List.map_append, houtputs, List.map_singleton, hcall,
    ← List.append_assoc]
  rfl

/-- What the inputs of a node are given is what they are provided with. -/
private theorem exists_provisions {ports : List Port} {arguments : List Argument}
    (hg : List.Forall₂ (Argument.Given ctx n) ports arguments)
    (hc : ∀ a ∈ arguments, ∃ port, Argument.Chosen ctx n port a) :
    ∃ provisions, ports.mapM (ctx.provision n) = .ok provisions ∧
      List.Forall₂ (Provision.Writes ctx.scene) provisions arguments := by
  induction hg with
  | nil => exact ⟨[], rfl, .nil⟩
  | @cons port a ports arguments hgiven _ ih =>
    obtain ⟨⟨port', hchosen⟩, hc⟩ := List.forall_mem_cons.1 hc
    obtain rfl : port' = port := hchosen.given.port_eq.symm.trans hgiven.port_eq
    obtain ⟨x, hx, hwrites⟩ := hchosen.exists_provision
    obtain ⟨provisions, hprovisions, hrest⟩ := ih hc
    refine ⟨x :: provisions, ?_, .cons hwrites hrest⟩
    rw [List.mapM_cons, hx, hprovisions]
    rfl

/-- The blocks that call a node are the texts of its statements. -/
private theorem Called.exists_nodeStatements {blocks : List Block} (h : Called ctx n blocks)
    (hc : ∀ b ∈ blocks, b.Chosen ctx [n]) :
    ∃ ss, ctx.nodeStatements n = .ok ss ∧
      ss.map (Statement.text ctx.scene) = blocks.flatMap (Block.lines ctx.scene) := by
  cases h with
  | uniform hk => exact ⟨[], by rw [CallContext.nodeStatements, hk]; rfl, rfl⟩
  | proxy hk =>
    refine ⟨callStatements n [] (callResults n), by rw [CallContext.nodeStatements, hk]; rfl, ?_⟩
    rw [List.flatMap_singleton, map_text_callStatements .nil, callResults, hk]
  | @call arguments results hk hr ha =>
    obtain ⟨provisions, hprovisions, hwrites⟩ := exists_provisions ha fun a hmem => by
      -- Nothing is called before.
      obtain ⟨port, -, before, after, hsplit, hchosen⟩ := List.forall_mem_singleton.1 hc a hmem
      obtain rfl : before = [] := by
        rcases List.singleton_eq_append_iff.1 hsplit with ⟨hbefore, -⟩ | ⟨-, hrest⟩
        · exact hbefore
        · exact absurd hrest (List.cons_ne_nil _ _)
      exact ⟨port, hchosen⟩
    refine ⟨_, by rw [CallContext.nodeStatements_of_ne hk, hprovisions]; rfl, ?_⟩
    rw [List.flatMap_singleton, map_text_callStatements hwrites, callResults_eq hk, hr]

/-- The calls of some nodes write the texts of their statements. -/
theorem leads_callNodes_statements {nodes : List Node} (s : CallState) :
    Leads (callNodes ctx nodes) (fun _ s' => ∃ ss, ctx.statements nodes = .ok ss ∧
      s'.lines = s.lines ++ ss.map (Statement.text ctx.scene)) s := by
  induction nodes generalizing ctx s with
  | nil => exact ⟨[], rfl, (List.append_nil _).symm⟩
  | cons n nodes ih =>
    unfold callNodes
    rw [Leads, ends_bind]
    refine Ends.mono (leads_nodeCall s) ?_ fun _ _ => id
    rintro _ t ⟨blocks, hcalled, hchosen, ht⟩
    obtain ⟨first, hfirst, htexts⟩ := hcalled.exists_nodeStatements hchosen
    refine Ends.mono (ih t) ?_ fun _ _ => id
    rintro _ u ⟨rest, hrest, hu⟩
    refine ⟨first ++ rest, ?_, ?_⟩
    · rw [CallContext.statements, hfirst, hrest]
      rfl
    · rw [hu, ht, ← htexts, List.map_append, List.append_assoc]

/-! ### What calls refer to -/

/-- What the call of a node in a main function may refer to. Uniforms are not called, and input
proxies are called without arguments. -/
def CallRefers (ctx : CallContext) (n : Node) (r : Reference) : Prop :=
  r = .coordinate ∨ (n.kind ≠ .globalVar ∧ n.kind ≠ .graphInput) ∧
    ∃ port ∈ n.inputs, Argument.Refers ctx n port r

/-- The call of a node reads what it may refer to, and declares the variables of its results. -/
theorem closed_nodeStatements {ss : List Statement} (h : ctx.nodeStatements n = .ok ss) :
    Closed ctx.scene.config (fun _ => CallRefers ctx n) ss ∧
      ∀ port ∈ callResults n, n.outputVar port.id ∈ ss.flatMap Statement.declares := by
  by_cases hk : n.kind ≠ .globalVar ∧ n.kind ≠ .graphInput
  · rw [CallContext.nodeStatements_of_ne hk] at h
    obtain ⟨provisions, hprovisions, rfl⟩ := Fault.map_eq_ok_iff.1 h
    have hmono (r : Reference) (hr : ∃ port ∈ n.inputs, Argument.Refers ctx n port r) :
        CallRefers ctx n r := Or.inr ⟨hk, hr⟩
    obtain ⟨hclosed, hreads⟩ := closed_of_forall₂
      ((forall₂_of_mapM hprovisions).imp fun _ _ => isClosed_of_provision)
    refine ⟨closed_callStatements (hclosed.mono fun _ => hmono) (Or.inl rfl) fun x hx r hr => ?_,
      fun _ => declares_callStatements⟩
    exact (hreads x hx r hr).imp_right fun hr => Or.inr (hmono r hr)
  · unfold CallContext.nodeStatements at h
    split at h
    · next hk =>
      cases h
      exact ⟨.nil, by simp [callResults, hk]⟩
    · cases h
      exact ⟨closed_callStatements .nil (Or.inl rfl) (by simp), fun _ => declares_callStatements⟩
    · next hk' hk'' => exact absurd ⟨hk', hk''⟩ hk

/-- What a program has to supply for the calls of some nodes in its main function. -/
structure Supplies (scene : Scene) (textures : Keyed String) (order : List Node)
    (known : Reference → Prop) : Prop where
  coordinate : known .coordinate
  texture : ∀ u ∈ textures.values, known (.texture u)
  empty : known (.texture scene.config.emptyTexture)
  emptyCube : known (.texture scene.config.emptyCubeTexture)
  global : ∀ n ∈ order, n.kind = .globalVar → known (.global n)
  bound : ∀ n ∈ order, n.kind ≠ .globalVar ∧ n.kind ≠ .graphInput → ∀ port ∈ n.inputs,
    (n.uniforms.get? port.id).isSome = true → known (.bound n port)
  /-- Outputs for which no variable is declared. -/
  output : ∀ n ∈ order, n.kind ≠ .globalVar → ∀ port,
    (n.outputPort port).id ∉ (callResults n).map Port.id → known (.output n (n.outputPort port))

/-- The nodes that are called, and the variables that were declared for them. -/
def Emitted (order : List Node) (names : List String) (id : String) : Prop :=
  ∃ n ∈ order, n.id = id ∧ ∀ port ∈ callResults n, n.outputVar port.id ∈ names

/-- Of the nodes that an argument may refer to, the variables are declared. -/
private theorem eq_of_emitted {order : List Node} {names : List String} {source : Node}
    (hg : ∀ n ∈ order, n ∈ ctx.scene.graph.nodeList) (hs : source ∈ ctx.scene.graph.nodeList)
    (h : Emitted order names source.id) :
    source ∈ order ∧ ∀ port ∈ callResults source, source.outputVar port.id ∈ names := by
  obtain ⟨m, hm, hid, hnames⟩ := h
  have heq := Graph.mem_nodeList_iff.1 (hg m hm)
  rw [hid, Graph.mem_nodeList_iff.1 hs] at heq
  cases heq
  exact ⟨hm, hnames⟩

/-- What a call refers to is declared or supplied. -/
theorem CallRefers.supplied {order : List Node} {known : Reference → Prop} {names : List String}
    {r : Reference} (h : CallRefers ctx n r) (hs : Supplies ctx.scene ctx.textures order known)
    (hg : ∀ n ∈ order, n ∈ ctx.scene.graph.nodeList) (hn : n ∈ order)
    (he : ∀ id ∈ ctx.emitted, Emitted order names id) : r.name ∈ names ∨ known r := by
  rcases h with rfl | ⟨hk, port, hp, h⟩
  · exact Or.inr hs.coordinate
  · cases h with
    | texture hu =>
      unfold CallContext.texture? at hu
      split at hu
      · cases hu
      · cases hu
      · next hget =>
        cases hu
        exact Or.inr (hs.texture _ (Keyed.mem_values_of_get? hget))
    | @output e source _ hsource hm hkind =>
      obtain ⟨hmem, hnames⟩ := eq_of_emitted hg (Graph.mem_nodeList_of_node? hsource) (he _ hm)
      by_cases hport : (source.outputPort e.sourcePort).id ∈ (callResults source).map Port.id
      · obtain ⟨result, hresult, hid⟩ := List.mem_map.1 hport
        have hdeclared := hnames result hresult
        rw [hid] at hdeclared
        exact Or.inl hdeclared
      · exact Or.inr (hs.output source hmem hkind _ hport)
    | global hsource hm hkind => exact Or.inr (hs.global _ (eq_of_emitted hg hsource (he _ hm)).1 hkind)
    | bound hb => exact Or.inr (hs.bound n hn hk port hp hb)
    | empty => exact Or.inr hs.empty
    | emptyCube => exact Or.inr hs.emptyCube

/-- The calls of a main function read only what is declared before and what the program supplies. -/
theorem closed_statements {order nodes : List Node} {known : Reference → Prop} {names : List String}
    {ss : List Statement} (h : ctx.statements nodes = .ok ss)
    (hs : Supplies ctx.scene ctx.textures order known)
    (hg : ∀ n ∈ order, n ∈ ctx.scene.graph.nodeList) (hnodes : ∀ n ∈ nodes, n ∈ order)
    (he : ∀ id ∈ ctx.emitted, Emitted order names id) :
    Closed ctx.scene.config (fun _ r => r.name ∈ names ∨ known r) ss ∧
      ∀ n ∈ nodes, ∀ port ∈ callResults n, n.outputVar port.id ∈ ss.flatMap Statement.declares := by
  induction nodes generalizing ctx names ss with
  | nil =>
    cases h
    exact ⟨.nil, by simp⟩
  | cons n nodes ih =>
    obtain ⟨hn, hnodes⟩ := List.forall_mem_cons.1 hnodes
    obtain ⟨first, hfirst, h⟩ := Fault.bind_eq_ok_iff.1 h
    obtain ⟨rest, hrest, h⟩ := Fault.bind_eq_ok_iff.1 h
    cases h
    obtain ⟨hclosed, hdeclared⟩ := closed_nodeStatements hfirst
    -- The node counts as called for the nodes behind it.
    have he' : ∀ id ∈ n.id :: ctx.emitted,
        Emitted order (first.flatMap Statement.declares ++ names) id := by
      refine List.forall_mem_cons.2 ⟨⟨n, hn, rfl, fun port hp => ?_⟩, fun id hid => ?_⟩
      · exact List.mem_append_left _ (hdeclared port hp)
      · obtain ⟨m, hm, hid, hnames⟩ := he id hid
        exact ⟨m, hm, hid, fun port hp => List.mem_append_right _ (hnames port hp)⟩
    obtain ⟨hclosed', hdeclared'⟩ := ih hrest hs hg hnodes he'
    refine ⟨(hclosed.mono fun _ r hr => hr.supplied hs hg hn he).append
      (hclosed'.mono fun _ r hr => ?_), ?_⟩
    · rw [List.mem_append, or_assoc] at hr
      exact hr
    · simp only [List.flatMap_append, List.mem_append]
      exact List.forall_mem_cons.2 ⟨fun port hp => Or.inl (hdeclared port hp),
        fun m hm port hp => Or.inr (hdeclared' m hm port hp)⟩

end RenderGraph.Shader
