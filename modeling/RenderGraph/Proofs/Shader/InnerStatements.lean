import RenderGraph.Proofs.Shader.Calls
import RenderGraph.Proofs.Shader.Statement

/-!
# The statements of a compound

The body of a compound ends with the calls of the nodes inside its scope and the assignments of its
outputs. Here these lines are written as statements, in the same order and with the same choices. A
call inside a compound takes what an edge brings whether or not its source has been called, and nothing
has to be prepared for it.

## Main definitions

* `Shader.sourceReference`, `Shader.innerExpression`: what an edge brings inside a scope
* `Shader.innerStatements`: the statements that call a node inside a scope
* `Shader.compoundStatements`: the statements of a compound
* `Shader.Argument.InnerRefers`: what a call inside a scope may refer to

## Main results

* `Shader.exists_statements_of_compoundWithin`: the body of a compound ends with the texts of its
  statements
* `Shader.refers_of_innerStatements`, `Shader.refers_of_innerAssignment`: what the statements read
-/

namespace RenderGraph.Shader

variable {scene : Scene} {scope : String} {n : Node} {port : Port}

/-! ### What edges bring -/

/-- What an edge brings inside a scope. An input proxy of the scope stands for a parameter. -/
def sourceReference (scope : String) (source : Node) (port : Option String) : Reference :=
  if source.kind = .graphInput ∧ source.scope = some scope then .parameter (source.outputPort port)
  else if source.kind = .globalVar then .global source
  else .output source (source.outputPort port)

/-- What a node gives along an edge inside a scope, as a value of a type. -/
def innerExpression (scope : String) (source : Node) (port : Option String) (t : DataType) :
    Expression :=
  if source.kind = .graphInput ∧ source.scope = some scope then
    .value (.parameter (source.outputPort port)) (source.outputPort port).type t
  else sourceExpression source port t

theorem references_innerExpression (config : Config) (scope : String) (source : Node)
    (port : Option String) (t : DataType) :
    (innerExpression scope source port t).references config = [sourceReference scope source port] := by
  unfold innerExpression sourceExpression sourceReference
  split
  · rfl
  · split <;> rfl

/-- What an edge brings inside a scope, as a value of a type. -/
def innerBrought (scene : Scene) (scope : String) (e : Edge) (t : DataType) : Except Fault Expression :=
  (scene.graph.requireNode e.source (some e.target)).map (innerExpression scope · e.sourcePort t)

theorem innerSource_eq (scene : Scene) (scope : String) (e : Edge) (t : DataType) :
    innerSource scene scope e t =
      (innerBrought scene scope e t).map (Expression.text scene.config) := by
  unfold innerSource innerBrought
  cases scene.graph.requireNode e.source (some e.target) with
  | error f => rfl
  | ok source =>
    show _ = Except.ok ((innerExpression scope source e.sourcePort t).text scene.config)
    unfold innerExpression sourceExpression
    show (if _ then _ else _) = _
    split
    · rfl
    · split <;> rfl

/-! ### Calls -/

/-- What an input is given inside a scope. -/
def innerValue (scene : Scene) (scope : String) (n : Node) (port : Port) : Except Fault Expression :=
  match scene.graph.edgeInto n.id (some port.id) with
  | some e => innerBrought scene scope e port.type
  | none => pure ((boundExpression? n port).getD (.default port.type none))

theorem innerArgument_eq (scene : Scene) (scope : String) (n : Node) (port : Port) :
    innerArgument scene scope n port =
      (innerValue scene scope n port).map (Expression.text scene.config) := by
  unfold innerArgument innerValue
  cases scene.graph.edgeInto n.id (some port.id) with
  | some e => exact innerSource_eq scene scope e port.type
  | none =>
    rw [boundArgument?_eq_map scene.config]
    cases boundExpression? n port <;> rfl

/-- The statements that call a node inside a scope. -/
def innerStatements (scene : Scene) (scope : String) (n : Node) : Except Fault (List Statement) :=
  (n.inputs.mapM (innerValue scene scope n)).map fun values =>
    callStatements n (values.map fun value => { value }) n.effectiveOutputs

theorem innerCall_eq (scene : Scene) (scope : String) (n : Node) :
    innerCall scene scope n = (innerStatements scene scope n).map (List.map (Statement.text scene)) := by
  have harguments : n.inputs.mapM (innerArgument scene scope n) =
      (n.inputs.mapM (innerValue scene scope n)).map (List.map (Expression.text scene.config)) := by
    rw [funext (innerArgument_eq scene scope n), mapM_map]
  unfold innerCall innerStatements
  rw [harguments]
  cases n.inputs.mapM (innerValue scene scope n) with
  | error f => rfl
  | ok values =>
    show _ = Except.ok (List.map _ (callStatements n (values.map fun value => { value }) _))
    rw [callStatements_unprepared, List.map_append, List.map_map]
    rfl

/-! ### Compounds -/

/-- The statement that assigns an output of a compound. -/
def innerAssignment (scene : Scene) (compound : Node) (proxy : Option Node) (port : Port) :
    Except Fault Statement :=
  (match proxy.bind fun p => scene.graph.edgeInto p.id (some port.id) with
    | some e => innerBrought scene compound.id e port.type
    | none => pure (.default port.type none)).map (.assign port)

theorem outputAssignment_eq (scene : Scene) (compound : Node) (proxy : Option Node) (port : Port) :
    outputAssignment scene compound proxy port =
      (innerAssignment scene compound proxy port).map (Statement.text scene) := by
  unfold outputAssignment innerAssignment
  cases proxy.bind fun p => scene.graph.edgeInto p.id (some port.id) with
  | none => rfl
  | some e =>
    dsimp only
    rw [innerSource_eq]
    cases innerBrought scene compound.id e port.type <;> rfl

/-- The nodes that a compound calls. -/
def calledInside (scene : Scene) (compound : Node) : List Node :=
  (callOrder scene (scene.graph.children (some compound.id))).filter (hasFunction ·.kind)

/-- The output proxy that gives the outputs of a compound. -/
def outputProxy? (scene : Scene) (compound : Node) : Option Node :=
  ((callOrder scene (scene.graph.children (some compound.id))).filter
    (·.kind = .graphOutput)).getLast?

/-- The statements of a compound: the calls of the nodes inside its scope, and the assignments of its
outputs. -/
def compoundStatements (scene : Scene) (compound : Node) : Except Fault (List Statement) := do
  let calls ← (calledInside scene compound).mapM (innerStatements scene compound.id)
  let assignments ← compound.outputs.mapM
    (innerAssignment scene compound (outputProxy? scene compound))
  pure (calls.flatten ++ assignments)

/-- The body of a compound ends with the texts of its statements. -/
theorem exists_statements_of_compoundWithin {fuel : Nat} {stack : List String} {compound : Node}
    {body : String} (h : compoundWithin scene fuel stack compound = .ok body) :
    ∃ front ss, compoundStatements scene compound = .ok ss ∧ body = front ++ " \x7b\n" ++
      "\n".intercalate (ss.map (Statement.text scene)) ++ "\n\x7d\n" := by
  obtain ⟨front, lines, assigned, hcalls, hassigned, rfl⟩ := exists_lines_of_compoundWithin h
  rw [funext (innerCall_eq scene compound.id), mapM_map] at hcalls
  rw [funext (outputAssignment_eq scene compound _), mapM_map] at hassigned
  obtain ⟨calls, hinner, rfl⟩ := Fault.map_eq_ok_iff.1 hcalls
  obtain ⟨assignments, hassignments, rfl⟩ := Fault.map_eq_ok_iff.1 hassigned
  refine ⟨front, calls.flatten ++ assignments, ?_, ?_⟩
  · rw [compoundStatements, calledInside, outputProxy?, hinner, hassignments]
    rfl
  · rw [List.map_append, List.map_flatten]

/-! ### What the statements refer to -/

/-- What an argument of a call inside a compound may refer to. -/
inductive Argument.InnerRefers (scene : Scene) (scope : String) (n : Node) (port : Port) :
    Reference → Prop
  /-- What an edge brings. -/
  | edge {e : Edge} {source : Node} (he : e ∈ scene.graph.incoming n.id)
      (hs : scene.graph.node? e.source = some source) :
      InnerRefers scene scope n port (sourceReference scope source e.sourcePort)
  /-- The bound value. -/
  | bound (h : (n.uniforms.get? port.id).isSome = true) : InnerRefers scene scope n port (.bound n port)
  /-- The textures that stand for missing ones. -/
  | empty : InnerRefers scene scope n port (.texture scene.config.emptyTexture)
  | emptyCube : InnerRefers scene scope n port (.texture scene.config.emptyCubeTexture)

theorem mem_incoming_of_edgeInto {g : Graph} {id : String} {port : Option String} {e : Edge}
    (h : g.edgeInto id port = some e) : e ∈ g.incoming id := by
  obtain ⟨htarget, -⟩ := Graph.target_of_edgeInto h
  exact List.mem_filter.2 ⟨List.mem_of_find?_eq_some h, by simpa using htarget⟩

theorem exists_source_of_innerBrought {e : Edge} {t : DataType} {x : Expression}
    (h : innerBrought scene scope e t = .ok x) :
    ∃ source, scene.graph.node? e.source = some source ∧
      x.references scene.config = [sourceReference scope source e.sourcePort] := by
  obtain ⟨source, hsource, rfl⟩ := Fault.map_eq_ok_iff.1 h
  refine ⟨source, ?_, references_innerExpression scene.config scope source e.sourcePort t⟩
  unfold Graph.requireNode at hsource
  cases hs : scene.graph.node? e.source with
  | none =>
    rw [hs] at hsource
    cases hsource
  | some source' =>
    rw [hs] at hsource
    cases hsource
    rfl

theorem refers_of_innerValue {x : Expression} (h : innerValue scene scope n port = .ok x) :
    ∀ r ∈ x.references scene.config, Argument.InnerRefers scene scope n port r := by
  intro r hr
  unfold innerValue at h
  split at h
  · next e he =>
    obtain ⟨source, hs, hreferences⟩ := exists_source_of_innerBrought h
    rw [hreferences, List.mem_singleton] at hr
    exact hr ▸ .edge (mem_incoming_of_edgeInto he) hs
  · cases h
    cases hb : boundExpression? n port with
    | some y =>
      rw [hb] at hr
      obtain ⟨rfl, hbound⟩ := eq_of_mem_references_bound hb hr
      exact .bound hbound
    | none =>
      rw [hb] at hr
      rcases Expression.eq_of_mem_references_default hr with rfl | rfl
      · exact .empty
      · exact .emptyCube

/-- The call of a node inside a scope refers to the coordinate, to what its arguments may refer to and to
the variables of its results. -/
theorem refers_of_innerStatements {ss : List Statement} (h : innerStatements scene scope n = .ok ss) :
    ∀ s ∈ ss, ∀ r ∈ s.reads scene.config, r = .coordinate ∨
      (∃ port ∈ n.inputs, Argument.InnerRefers scene scope n port r) ∨
        ∃ port ∈ n.effectiveOutputs, r = .output n port := by
  obtain ⟨values, hvalues, rfl⟩ := Fault.map_eq_ok_iff.1 h
  rw [callStatements_unprepared]
  intro s hs r hr
  rcases List.mem_append.1 hs with hs | hs
  · obtain ⟨port, -, rfl⟩ := List.mem_map.1 hs
    cases hr
  · rw [List.mem_singleton.1 hs, Statement.reads, List.cons_append, List.mem_cons,
      List.mem_append] at hr
    refine hr.imp_right (Or.imp (fun hr => ?_) fun hr => ?_)
    · obtain ⟨x, hx, hr⟩ := List.mem_flatMap.1 hr
      obtain ⟨port, hp, hvalue⟩ := exists_of_forall₂ (forall₂_of_mapM hvalues) hx
      exact ⟨port, hp, refers_of_innerValue hvalue r hr⟩
    · obtain ⟨port, hp, rfl⟩ := List.mem_map.1 hr
      exact ⟨port, hp, rfl⟩

/-- The assignment of an output refers to what an edge brings to the output proxy, or to a texture that
stands for a missing one. -/
theorem refers_of_innerAssignment {compound : Node} {proxy : Option Node} {s : Statement}
    (h : innerAssignment scene compound proxy port = .ok s) :
    ∀ r ∈ s.reads scene.config,
      (∃ p ∈ proxy, ∃ e ∈ scene.graph.incoming p.id, ∃ source,
        scene.graph.node? e.source = some source ∧
          r = sourceReference compound.id source e.sourcePort) ∨
      r = .texture scene.config.emptyTexture ∨ r = .texture scene.config.emptyCubeTexture := by
  obtain ⟨x, hx, rfl⟩ := Fault.map_eq_ok_iff.1 h
  intro r hr
  split at hx
  · next e he =>
    obtain ⟨p, hp, he⟩ := Option.bind_eq_some_iff.1 he
    obtain ⟨source, hs, hreferences⟩ := exists_source_of_innerBrought hx
    rw [Statement.reads, hreferences, List.mem_singleton] at hr
    exact Or.inl ⟨p, hp, e, mem_incoming_of_edgeInto he, source, hs, hr⟩
  · cases hx
    exact Or.inr (Expression.eq_of_mem_references_default hr)

end RenderGraph.Shader
