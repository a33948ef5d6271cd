import Mathlib.Data.List.Nodup
import Mathlib.Data.List.Perm.Subperm
import RenderGraph.Proofs.Cause
import RenderGraph.Proofs.Outcome
import RenderGraph.Proofs.Source.Renaming
import RenderGraph.Shader.Fragment

/-!
# Why the writing of a program may fail

The program of nodes of a graph is written unless the graph is malformed, a value cannot be packed or
a number cannot be read. In particular no search runs out of fuel: the scopes around a compound are
distinct, so that there are at most as many of them as nodes.

## Main results

* `Shader.failsIn_prepareBody`, `Shader.failsIn_compoundBody`, `Shader.failsIn_declareWithin`
* `Shader.stopsIn_fragment`: why a fragment program may not be written
-/

namespace RenderGraph.Shader

variable {scene : Scene} {n : Node}

/-! ### Bodies -/

theorem isIdent_cleanId (n : Node) : Source.IsIdent n.cleanId := by
  intro c hc
  rw [Node.cleanId, Node.cleanName, String.toList_ofList, List.mem_map] at hc
  obtain ⟨d, -, rfl⟩ := hc
  split
  · assumption
  · decide

section Capacity

variable {inputs : List Port} {uniforms : Keyed BoundValue} {fallback : Number} {E : Fault → Prop}

theorem failsIn_prototype (h : ∀ port ∈ inputs, port.type.isArray = true →
      FailsIn (portCapacity port uniforms fallback) E) (name : String) (outputs : List Port) :
    FailsIn (prototype name inputs outputs uniforms fallback) E := by
  unfold prototype
  refine FailsIn.bind (FailsIn.mapM fun port hp => ?_) fun _ _ => trivial
  unfold inputParameter
  split
  · next ht => exact (h port hp ht).bind fun _ _ => trivial
  · trivial

theorem failsIn_setArraySizes (h : ∀ port ∈ inputs, port.type.isArray = true →
      FailsIn (portCapacity port uniforms fallback) E) (code : String) :
    FailsIn (setArraySizes code inputs uniforms fallback) E := by
  unfold setArraySizes
  dsimp only
  split
  · trivial
  · split
    · trivial
    · refine FailsIn.bind (FailsIn.foldlM (fun head port hp => ?_) _) fun _ _ => trivial
      split
      · next ht => exact (h port hp ht).bind fun _ _ => trivial
      · trivial

theorem failsIn_indexLocals (h : ∀ port ∈ n.inputs, port.type.isArray = true →
      FailsIn (portCapacity port n.uniforms fallback) E) :
    FailsIn (indexLocals n fallback) E := by
  refine FailsIn.mapM fun port hp => ?_
  rw [List.mem_filter] at hp
  exact (h port hp.1 hp.2).bind fun _ _ => trivial

/-- A body becomes a function unless a capacity cannot be found. -/
theorem failsIn_prepareBody (h : ∀ port ∈ n.inputs, port.type.isArray = true →
      FailsIn (portCapacity port n.uniforms fallback) E) (source : String) :
    FailsIn (prepareBody n source fallback) E := by
  have hspace : '\\' ∉ ("node_" ++ n.cleanId).toList := by
    simpa using (isIdent_cleanId n).notMem
  have hname : '\\' ∉ n.runName.toList := by
    simpa [Node.runName] using (isIdent_cleanId n).notMem
  unfold prepareBody
  obtain ⟨_, hlocals⟩ := Source.exists_renameLocals source hspace
  refine FailsIn.bind (.of_eq_ok hlocals) fun code _ => ?_
  refine FailsIn.bind (failsIn_setArraySizes h code) fun code _ => ?_
  obtain ⟨_, hentry⟩ := Source.exists_renameEntry code hname
  refine FailsIn.bind (.of_eq_ok hentry) fun code _ => ?_
  exact FailsIn.bind (failsIn_indexLocals h) fun _ _ => trivial

end Capacity

/-- Capacities of the inputs of a node fail to be found by packing faults only. -/
theorem failsIn_portCapacity (hn : n ∈ scene.graph.nodeList) (port : Port) (hp : port ∈ n.inputs)
    (ht : port.type.isArray = true) :
    FailsIn (portCapacity port n.uniforms scene.fallback) (Cause scene) :=
  failsIn_iff.2 fun _ hf => .packing (.input hn hp ht hf)

/-! ### Compounds -/

/-- The source of an edge is found unless the graph lacks it. -/
theorem failsIn_requireNode {e : Edge} (he : e ∈ scene.graph.edges) :
    FailsIn (scene.graph.requireNode e.source (some e.target)) (Cause scene) := by
  unfold Graph.requireNode
  cases hs : scene.graph.node? e.source with
  | some source => trivial
  | none => exact .graph (.source he hs)

theorem failsIn_innerSource {e : Edge} (he : e ∈ scene.graph.edges) (scope : String)
    (t : DataType) : FailsIn (innerSource scene scope e t) (Cause scene) := by
  unfold innerSource
  refine FailsIn.bind (failsIn_requireNode he) fun source _ => ?_
  dsimp only
  split
  · trivial
  · split <;> trivial

theorem failsIn_innerCall (scope : String) (node : Node) :
    FailsIn (innerCall scene scope node) (Cause scene) := by
  unfold innerCall
  refine FailsIn.bind (FailsIn.mapM fun port _ => ?_) fun _ _ => trivial
  unfold innerArgument
  split
  · next e he => exact failsIn_innerSource (List.mem_of_find?_eq_some he) scope port.type
  · trivial

theorem failsIn_outputAssignment (compound : Node) (proxy : Option Node) (port : Port) :
    FailsIn (outputAssignment scene compound proxy port) (Cause scene) := by
  unfold outputAssignment
  dsimp only
  split
  · next e he =>
    obtain ⟨p, -, hp⟩ := Option.bind_eq_some_iff.1 he
    exact (failsIn_innerSource (List.mem_of_find?_eq_some hp) compound.id port.type).bind
      fun _ _ => trivial
  · trivial

/-- A compound can be written unless it stands inside its own scope. The scopes around it are distinct
nodes, so that they are fewer than the fuel. -/
theorem failsIn_compoundWithin {fuel : Nat} {stack : List String} {compound : Node}
    (hn : compound ∈ scene.graph.nodeList) (hnodup : stack.Nodup)
    (hsub : stack ⊆ scene.graph.nodes.keys) (hfuel : scene.graph.size < fuel + stack.length)
    (hscope : ∀ outer ∈ stack, Relation.TransGen scene.graph.Encloses outer compound.id) :
    FailsIn (compoundWithin scene fuel stack compound) (Cause scene) := by
  induction fuel generalizing stack compound with
  | zero =>
    have hle : stack.length ≤ scene.graph.nodes.keys.length :=
      (List.subperm_of_subset hnodup hsub).length_le
    rw [Keyed.length_keys] at hle
    exact absurd hle (by unfold Graph.size at hfuel; omega)
  | succ fuel ih =>
    unfold compoundWithin
    by_cases hmem : compound.id ∈ stack
    · simp only [hmem, if_true]
      exact .graph (.contains (hscope _ hmem))
    · simp only [hmem, if_false]
      have hinner : ∀ inner ∈ scene.graph.children (some compound.id), inner.kind = .compound →
          FailsIn (compoundWithin scene fuel (stack ++ [compound.id]) inner) (Cause scene) := by
        intro inner hi hk
        obtain ⟨hi, hs⟩ := List.mem_filter.1 hi
        have hencl : scene.graph.Encloses compound.id inner.id :=
          ⟨inner, hi, hk, rfl, by simpa using hs⟩
        refine ih hi ?_ ?_ ?_ ?_
        · simpa using hnodup.concat hmem
        · intro id hid
          rcases List.mem_append.1 hid with hid | hid
          · exact hsub hid
          · exact List.mem_singleton.1 hid ▸ Graph.id_mem_keys hn
        · rw [List.length_append, List.length_singleton]
          omega
        · intro outer ho
          rcases List.mem_append.1 ho with ho | ho
          · exact (hscope outer ho).tail hencl
          · exact List.mem_singleton.1 ho ▸ .single hencl
      refine FailsIn.bind (FailsIn.mapM fun inner hi => ?_) fun functions _ => ?_
      · obtain ⟨hi, -⟩ := List.mem_filter.1 hi
        have hmemi : inner ∈ scene.graph.nodeList := (List.mem_filter.1 hi).1
        split
        · next hk =>
          refine (hinner inner hi hk).bind fun source _ => ?_
          exact (failsIn_prepareBody (failsIn_portCapacity hmemi) source).bind fun _ _ => trivial
        · exact (failsIn_prepareBody (failsIn_portCapacity hmemi) _).bind fun _ _ => trivial
      · refine FailsIn.bind (FailsIn.mapM fun node _ => failsIn_innerCall _ node) fun calls _ => ?_
        refine FailsIn.bind (FailsIn.mapM fun port _ => failsIn_outputAssignment _ _ port)
          fun assignments _ => ?_
        exact (failsIn_prototype (failsIn_portCapacity hn) "run" _).bind fun _ _ => trivial

theorem failsIn_compoundBody {compound : Node} (hn : compound ∈ scene.graph.nodeList) :
    FailsIn (compoundBody scene compound) (Cause scene) :=
  failsIn_compoundWithin hn List.nodup_nil (by simp) (by simp) (by simp)

/-- A compound has a body where there is no cause of failure. -/
theorem exists_compoundBody {compound : Node} (hn : compound ∈ scene.graph.nodeList)
    (hc : ∀ f, ¬ Cause scene f) : ∃ body, compoundBody scene compound = .ok body := by
  cases hb : compoundBody scene compound with
  | ok body => exact ⟨body, rfl⟩
  | error f => exact absurd (failsIn_iff.1 (failsIn_compoundBody hn) f hb) (hc f)

/-! ### Uniforms -/

section Uniforms

variable {E : Fault → Prop}

theorem failsIn_declareInputs (hpack : ∀ f, PackingFault scene f → E f)
    (hread : ∀ f, ReadingFault scene f → E f) (hn : n ∈ scene.graph.nodeList) (d : Declarations) :
    FailsIn (declareInputs scene n d) E := by
  unfold declareInputs
  refine FailsIn.bind (FailsIn.foldlM (fun d port _ => ?_) d) fun d _ => ?_
  · split
    · next b hb => exact failsIn_iff.2 fun _ hf => hpack _ (.bound hn hb hf)
    · trivial
  · refine FailsIn.foldlM (fun d port hp => ?_) d
    split
    · next ht =>
      unfold BoundValue.selectedIndex
      refine FailsIn.bind (FailsIn.bind (failsIn_iff.2 fun _ hf => hpack _ (.input hn hp ht hf))
        fun length _ => ?_) fun _ _ => trivial
      exact (failsIn_iff.2 fun _ hf => hread _ (.index hn hp ht hf)).bind fun _ _ => trivial
    · trivial

/-- Uniforms are declared unless a value cannot be packed or an index cannot be read. -/
theorem failsIn_declareWithin (hpack : ∀ f, PackingFault scene f → E f)
    (hread : ∀ f, ReadingFault scene f → E f) {fuel : Nat} {stack : List String}
    (hn : n ∈ scene.graph.nodeList) (d : Declarations) :
    FailsIn (declareWithin scene fuel stack n d) E := by
  induction fuel generalizing stack n d with
  | zero => trivial
  | succ fuel ih =>
    unfold declareWithin
    split
    · next hk => exact failsIn_iff.2 fun _ hf => hpack _ (.global hn hk hf)
    · next hk => exact failsIn_iff.2 fun _ hf => hpack _ (.proxy hn hk hf)
    · trivial
    · trivial
    · exact failsIn_declareInputs hpack hread hn d
    · refine (failsIn_declareInputs hpack hread hn d).bind fun d _ => ?_
      split
      · trivial
      · exact FailsIn.foldlM (fun d inner hi => ih (List.mem_filter.1 hi).1 d) d

end Uniforms

/-! ### Calls -/

private theorem stopsIn_writeLine (line : String) : StopsIn (writeLine line) (Cause scene) :=
  fun _ => trivial

variable {ctx : CallContext}

theorem failsIn_edgeExpression? {e : Edge} (he : e ∈ ctx.scene.graph.edges) (t : DataType) :
    FailsIn (edgeExpression? ctx e t) (Cause ctx.scene) := by
  unfold edgeExpression?
  refine FailsIn.bind (failsIn_requireNode he) fun source _ => ?_
  split
  · trivial
  · split <;> trivial

/-- The edges to elements of an array are edges of the graph whose handles name the array. -/
theorem mem_of_elementEdges {port : Port} {elements : List (Edge × Nat)}
    (h : elementEdges ctx n port = .ok elements) {element : Edge × Nat} (he : element ∈ elements) :
    element.1 ∈ ctx.scene.graph.edges ∧
      element.1.arrayElement = .ok (some (port.id, element.2)) := by
  obtain ⟨found, hf, h⟩ := Fault.bind_eq_ok_iff.1 h
  cases h
  obtain ⟨r, hr, hid⟩ := List.mem_filterMap.1 he
  obtain rfl : r = some element := hid
  obtain ⟨e, hmem, hx⟩ := exists_of_mem_mapM (R := fun e r => ∀ x ∈ r, x.1 = e ∧
      e.arrayElement = .ok (some (port.id, x.2))) (fun e _ r hr => by
    obtain ⟨handle, hhandle, hr⟩ := Fault.bind_eq_ok_iff.1 hr
    rcases handle with _ | ⟨base, index⟩
    · cases hr
      simp
    · cases hr
      split
      · next hb => simpa [hb] using hhandle
      · simp) hf hr
  obtain ⟨rfl, helement⟩ := hx element rfl
  exact ⟨(List.mem_filter.1 hmem).1, helement⟩

theorem failsIn_elementEdges (port : Port) :
    FailsIn (elementEdges ctx n port) (Cause ctx.scene) := by
  unfold elementEdges
  refine FailsIn.bind (FailsIn.mapM fun e he => ?_) fun _ _ => trivial
  have hedge : e ∈ ctx.scene.graph.edges := (List.mem_filter.1 he).1
  refine FailsIn.bind (failsIn_iff.2 fun _ hf => .reading (.handle hedge hf)) fun r _ => ?_
  rcases r with _ | ⟨base, index⟩ <;> trivial

theorem stopsIn_assignElement (port : Port) (length : Nat) {element : Edge × Nat}
    (he : element.1 ∈ ctx.scene.graph.edges) :
    StopsIn (assignElement ctx n port length element) (Cause ctx.scene) := by
  unfold assignElement
  refine StopsIn.bind (stopsIn_lift (failsIn_edgeExpression? he _)) fun value => ?_
  cases value with
  | some value => exact stopsIn_writeLine _
  | none =>
    have hwarn (message : String) : StopsIn (warnCall message) (Cause ctx.scene) := fun _ => trivial
    exact (hwarn _).bind fun _ => stopsIn_writeLine _

theorem stopsIn_assembleArray (hn : n ∈ ctx.scene.graph.nodeList) {port : Port}
    (hp : port ∈ n.inputs) (ht : port.type.isArray = true) {elements : List (Edge × Nat)}
    (he : ∀ element ∈ elements, element.1 ∈ ctx.scene.graph.edges) :
    StopsIn (assembleArray ctx n port elements) (Cause ctx.scene) := by
  unfold assembleArray
  refine StopsIn.bind (stopsIn_lift (failsIn_portCapacity hn _ hp ht)) fun length => ?_
  refine StopsIn.bind (StopsIn.forM fun line _ => stopsIn_writeLine line) fun _ => ?_
  refine StopsIn.bind (StopsIn.forM fun element h => ?_) fun _ => stopsIn_pure _ _
  exact stopsIn_assignElement port length (he element (List.mem_mergeSort.1 h))

theorem failsIn_defaultArgument (hn : n ∈ ctx.scene.graph.nodeList) {port : Port}
    (hp : port ∈ n.inputs) : FailsIn (defaultArgument ctx n port) (Cause ctx.scene) := by
  unfold defaultArgument
  split
  · next ht => exact FailsIn.bind (failsIn_portCapacity hn _ hp ht) fun _ _ => trivial
  · trivial

theorem failsIn_ownArgument (hn : n ∈ ctx.scene.graph.nodeList) {port : Port}
    (hp : port ∈ n.inputs) : FailsIn (ownArgument ctx n port) (Cause ctx.scene) := by
  unfold ownArgument
  split
  · trivial
  · exact failsIn_defaultArgument hn hp

theorem failsIn_plainArgument (hn : n ∈ ctx.scene.graph.nodeList) {port : Port}
    (hp : port ∈ n.inputs) {edge : Option Edge} (he : ∀ e ∈ edge, e ∈ ctx.scene.graph.edges) :
    FailsIn (plainArgument ctx n port edge) (Cause ctx.scene) := by
  unfold plainArgument
  cases edge with
  | none => exact failsIn_ownArgument hn hp
  | some e =>
    refine (failsIn_edgeExpression? (he e rfl) port.type).bind fun brought _ => ?_
    cases brought with
    | none => exact failsIn_ownArgument hn hp
    | some value => trivial

theorem stopsIn_argument (hn : n ∈ ctx.scene.graph.nodeList) {port : Port} (hp : port ∈ n.inputs) :
    StopsIn (argument ctx n port) (Cause ctx.scene) := by
  have hplain : StopsIn (liftM (plainArgument ctx n port
      (ctx.scene.graph.edgeInto n.id (some port.id))) : CallM String) (Cause ctx.scene) :=
    stopsIn_lift (failsIn_plainArgument hn hp fun e he => List.mem_of_find?_eq_some he)
  unfold argument
  split
  · exact stopsIn_pure _ _
  · dsimp only
    split
    · next hedge =>
      have ht : port.type.isArray = true := (Bool.and_eq_true_iff.1 hedge).2
      intro s
      rw [ends_bind, ends_lift, yields_iff]
      refine ⟨fun elements h => ?_, failsIn_iff.1 (failsIn_elementEdges port)⟩
      split
      · exact hplain s
      · exact stopsIn_assembleArray hn hp ht (fun element he => (mem_of_elementEdges h he).1) s
    · exact hplain

/-- Every node that may be inlined has a role in programs, but for multi-stage nodes without stages. -/
theorem failsIn_ofKind (h : scene.graph.Inlines n) : FailsIn (Role.ofKind n.kind) (Cause scene) := by
  cases hk : n.kind with
  | multiStage =>
    have hs : n.stages = [] := by
      simpa [Node.isMultiStage, hk] using h.2
    exact .graph (.stageless h.1 hk hs)
  | _ => trivial

theorem failsIn_nodeFunctions (h : scene.graph.Inlines n) :
    FailsIn (nodeFunctions scene n) (Cause scene) := by
  unfold nodeFunctions
  refine FailsIn.bind (failsIn_ofKind h) fun role _ => ?_
  cases role with
  | uniform => trivial
  | inputProxy =>
    have hhead : FailsIn (prototype n.runName [] n.outputs .empty scene.fallback) (Cause scene) :=
      .of_eq_ok rfl
    exact hhead.bind fun _ _ => trivial
  | outputProxy => exact (failsIn_prototype (failsIn_portCapacity h.1) _ _).bind fun _ _ => trivial
  | function =>
    dsimp only
    split
    · refine (failsIn_compoundBody h.1).bind fun source _ => ?_
      exact (failsIn_prepareBody (failsIn_portCapacity h.1) source).bind fun _ _ => trivial
    · exact (failsIn_prepareBody (failsIn_portCapacity h.1) _).bind fun _ _ => trivial

theorem stopsIn_nodeCall (h : ctx.scene.graph.Inlines n) :
    StopsIn (nodeCall ctx n) (Cause ctx.scene) := by
  have hwith (results : List Port) : StopsIn (callWith ctx n results) (Cause ctx.scene) := by
    unfold callWith
    refine StopsIn.bind (StopsIn.mapM fun port hp => stopsIn_argument h.1 hp) fun arguments => ?_
    exact (StopsIn.forM fun _ _ => stopsIn_writeLine _).bind fun _ => stopsIn_writeLine _
  unfold nodeCall
  refine StopsIn.bind (stopsIn_lift (failsIn_ofKind h)) fun role => ?_
  cases role with
  | uniform => exact stopsIn_pure _ _
  | inputProxy =>
    exact (StopsIn.forM fun _ _ => stopsIn_writeLine _).bind fun _ => stopsIn_writeLine _
  | outputProxy => exact hwith _
  | function => exact hwith _

theorem stopsIn_callNodes {order : List Node} (h : ∀ n ∈ order, ctx.scene.graph.Inlines n) :
    StopsIn (callNodes ctx order) (Cause ctx.scene) := by
  induction order generalizing ctx with
  | nil => exact stopsIn_pure _ _
  | cons n order ih =>
    unfold callNodes
    refine (stopsIn_nodeCall (h n List.mem_cons_self)).bind fun _ => ?_
    have hrest : ∀ m ∈ order, ctx.scene.graph.Inlines m :=
      fun m hm => h m (List.mem_cons_of_mem n hm)
    exact @ih { ctx with emitted := n.id :: ctx.emitted } hrest

/-- The program of nodes of the graph is written unless there is a cause of failure. -/
theorem stopsIn_fragment {textures : Keyed String} {order : List Node} {output : Node} {port : Port}
    (h : ∀ n ∈ order, scene.graph.Inlines n) :
    StopsIn (fragment scene textures order output port) (Cause scene) := by
  unfold fragment
  refine StopsIn.bind (stopsIn_lift (FailsIn.foldlM
    (fun d n hn => failsIn_declareWithin (fun _ => .packing) (fun _ => .reading) (h n hn).1 d) _)) fun d => ?_
  refine StopsIn.bind (stopsIn_lift (FailsIn.mapM fun n hn => failsIn_nodeFunctions (h n hn)))
    fun functions => ?_
  refine StopsIn.bind ?_ fun main => stopsIn_pure _ _
  unfold mainFunction
  refine StopsIn.bind (stopsIn_callNodes h) fun _ => ?_
  intro s
  trivial

end RenderGraph.Shader
