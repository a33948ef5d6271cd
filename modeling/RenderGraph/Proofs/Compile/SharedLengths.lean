import RenderGraph.Proofs.Compile.ArrayLengths
import RenderGraph.Proofs.Compile.Refresh

/-!
# One length for an array

The length of an array input is found anew in every place where it is needed: for the uniform of its bound
value, for the limit of its selected index and for the value of that index, for the array that is assembled
from edges to its elements, and for the default. The places agree. Only the names may get in the way:
uniforms bear names that are joined from an id, an input and an ending, and the first declaration of a name
is kept. So under the name of an array, or of its index, may stand what another input has declared.

## Main definitions

* `RenderPass.Carries`, `Scene.Supplants`: a declaration is kept, or another one of its name is
* `Scene.KeepsOrSupplants`: a declaration of a node that is kept or supplanted
* `Shader.Parts`: the nodes of a program and the blocks of its main function
* `Shader.Argument.Fits`: an argument for an array of a given length
* `Shader.SharesLength`: all places agree on a length

## Main results

* `Plan.Drawing.exists_parts`: the parts of the pass of an output
* `Compile.lengths_shared_or_supplanted`: the lengths in the passes of a compilation
-/

namespace RenderGraph

/-- The selected element of an array is one of its elements. -/
theorem BoundValue.exists_of_selectedIndex {t : DataType} {bound : Option BoundValue} {fallback : Number}
    {i : Nat} (h : selectedIndex t bound fallback = .ok i) :
    ∃ L, capacity t bound fallback = .ok L ∧ i < L := by
  obtain ⟨L, hL, h⟩ := Fault.bind_eq_ok_iff.1 h
  obtain ⟨index, -, h⟩ := Fault.bind_eq_ok_iff.1 h
  cases h
  have hpos := capacity_pos hL
  exact ⟨L, hL, by omega⟩

/-! ### Kept declarations -/

/-- The pass has the uniform that is declared, and the line that declares it. -/
def RenderPass.Carries (p : RenderPass) (c : Declaration) : Prop :=
  p.uniforms.get? c.name = some c.uniform ∧ Plan.HasLine p.fragment c.line

/-- Instead of a declaration the pass has another one of the same name, by one of its nodes, which stands
before it among the declarations of the program. -/
def Scene.Supplants (scene : Scene) (order : List Node) (p : RenderPass) (c : Declaration) : Prop :=
  ∃ m, scene.Brings order m ∧ ∃ e, .ok e ∈ m.declarations scene.fallback ∧ e ≠ c ∧ e.name = c.name ∧
    List.Sublist [.ok e, .ok c] (scene.declarations order) ∧ p.Carries e

/-- A node makes a declaration, and the pass keeps it or has another one instead. -/
structure Scene.KeepsOrSupplants (scene : Scene) (order : List Node) (p : RenderPass) (n : Node)
    (c : Declaration) : Prop where
  declared : .ok c ∈ n.declarations scene.fallback
  kept : p.Carries c ∨ scene.Supplants order p c

/-- What is found by its name stands before everything else of that name. -/
theorem sublist_of_find?_name {cs : List Declaration} {c e : Declaration}
    (he : cs.find? (·.name == c.name) = some e) (hc : c ∈ cs) (hne : e ≠ c) :
    List.Sublist [e, c] cs := by
  obtain ⟨-, before, after, rfl, hbefore⟩ := List.find?_eq_some_iff_append.1 he
  refine (List.Sublist.cons_cons e (List.singleton_sublist.2 ?_)).trans
    (List.sublist_append_right before (e :: after))
  rcases List.mem_append.1 hc with hc | hc
  · simpa using hbefore c hc
  · exact (List.mem_cons.1 hc).resolve_left (Ne.symm hne)

namespace Shader

variable {scene : Scene} {order : List Node} {p : RenderPass} {blocks : List Block}

/-- The nodes of the program of a pass, dependencies first, and the blocks of its main function. -/
structure Parts (scene : Scene) (p : RenderPass) (order : List Node) (blocks : List Block) : Prop where
  mem : ∀ n ∈ order, n ∈ scene.graph.nodeList
  /-- The search from the node for whose output the pass is drawn has collected them. -/
  collected : ∃ n ∈ order, ∃ port plan s subgraph t, p.id = Plan.passKey n port ∧
    (Plan.collect scene.graph (Plan.host scene plan) n.id).run s = (.ok subgraph, t) ∧
    subgraph.order = order ∧ subgraph.textures = p.textures
  calls : Calls { scene, textures := p.textures } order blocks
  chosen : ∀ b ∈ blocks, b.Chosen { scene, textures := p.textures } order
  fragment_eq : ∃ front functions value, order.mapM (nodeFunctions scene) = .ok functions ∧
    p.fragment = "\n".intercalate (front ++
      [String.join functions, "\n".intercalate (mainLines scene blocks value)])
  declared : ∀ n, scene.Brings order n → ∀ x ∈ n.declarations scene.fallback,
    ∃ c, x = .ok c ∧ scene.KeepsOrSupplants order p n c

end Shader

/-- The pass of an output has parts. -/
theorem Plan.Drawing.exists_parts {scene : Scene} {p : RenderPass} (d : Drawing scene p) :
    ∃ order blocks, Shader.Parts scene p order blocks := by
  obtain ⟨subgraph, _, _, ⟨_, hcollect, -⟩, hadds, hroot, hwritten, htextures, -⟩ :=
    exists_of_buildPass d.inlines d.built
  have hmem : ∀ n ∈ subgraph.order, n ∈ scene.graph.nodeList := fun n hn => (hadds.inlined n hn).1
  obtain ⟨_, functions, blocks, -, hfunctions, hcalls, hchosen, hcode⟩ :=
    Shader.exists_parts_of_fragment hwritten
  obtain ⟨cs, hcs, hget, hlines⟩ := exists_declarations_of_fragment hwritten
  rw [← htextures] at hcalls hchosen
  refine ⟨subgraph.order, blocks, hmem, ?_, hcalls, hchosen, ?_, fun n hn x hx => ?_⟩
  · exact ⟨d.node, hroot, d.port, _, _, subgraph, _, (leads_buildPass.of_run_ok d.built).1, hcollect, rfl,
      htextures.symm⟩
  · exact ⟨[Shader.header scene.config subgraph.textures.values false, _, ""], functions, _, hfunctions,
      hcode⟩
  · have hall : x ∈ scene.declarations subgraph.order :=
      List.mem_flatMap.2 ⟨n, (Scene.mem_members_iff hmem).2 hn, hx⟩
    rw [hcs] at hall
    obtain ⟨c, hc, rfl⟩ := List.mem_map.1 hall
    -- The first declaration of the name is the one that is kept.
    obtain ⟨e, he⟩ : ∃ e, cs.find? (·.name == c.name) = some e :=
      Option.isSome_iff_exists.1 (List.find?_isSome.2 ⟨c, hc, beq_self_eq_true c.name⟩)
    have hname : e.name = c.name := by simpa using List.find?_some he
    have hcarries : p.Carries e := ⟨by rw [hname, hget, he]; rfl, hlines _ e he⟩
    refine ⟨c, rfl, hx, ?_⟩
    by_cases heq : e = c
    · exact Or.inl (heq ▸ hcarries)
    · have hmem' : .ok e ∈ scene.declarations subgraph.order := by
        rw [hcs]
        exact List.mem_map_of_mem (List.mem_of_find?_eq_some he)
      obtain ⟨m, hm, hdeclared⟩ := List.mem_flatMap.1 hmem'
      have hbefore : List.Sublist [.ok e, .ok c] (scene.declarations subgraph.order) := by
        rw [hcs]
        exact (sublist_of_find?_name he hc heq).map Except.ok
      exact Or.inr ⟨m, (Scene.mem_members_iff hmem).1 hm, e, hdeclared, heq, hname, hbefore, hcarries⟩

namespace Shader

variable {scene : Scene} {order : List Node} {p : RenderPass} {blocks : List Block} {n : Node}
  {port : Port} {L : Nat}

/-- The id of a pass tells for which node it is drawn, and thereby which nodes are collected. -/
theorem Parts.eq_of_key (h : Parts scene p order blocks)
    (hs : ∀ m ∈ scene.graph.nodeList, m.isMultiStage = false)
    (hid : ∀ m ∈ scene.graph.nodeList, p.id ∈ Plan.plannedKeys m → m.id = n.id)
    (subgraph : Plan.Subgraph) (hc : ∀ plan s,
      (Plan.collect scene.graph (Plan.host scene plan) n.id).run s = (.ok subgraph, s)) :
    order = subgraph.order ∧ p.textures = subgraph.textures := by
  obtain ⟨m, hm, port, plan, s, subgraph', t, hkey, hcollect, horder, htextures⟩ := h.collected
  have hmem := h.mem m hm
  have hin : (Plan.Item.output m port).In scene.graph := ⟨hmem, hs m hmem⟩
  rw [hid m hmem (hkey ▸ hin.key_mem), hc] at hcollect
  obtain rfl : subgraph = subgraph' := Except.ok.inj (Prod.mk.inj hcollect).1
  exact ⟨horder.symm, htextures.symm⟩

/-! ### Limits of indices -/

/-- The index of an array input is among the variables of its node, limited by the capacity. -/
theorem mem_indexLocals {fallback : Number} {locals : List IndexLocal}
    (h : indexLocals n fallback = .ok locals) (hp : port ∈ n.inputs) (ht : port.type.isArray = true)
    (hL : portCapacity port n.uniforms fallback = .ok L) :
    { name := port.id ++ "_index", uniform := n.uniformName port.id ++ "_index", greatest := L - 1 } ∈
      locals := by
  have hall : Yields (indexLocals n fallback) (List.Forall₂ (fun port l => ∃ L,
      portCapacity port n.uniforms fallback = .ok L ∧ l = {
        name := port.id ++ "_index", uniform := n.uniformName port.id ++ "_index",
        greatest := L - 1 }) (n.inputs.filter (·.type.isArray))) fun _ => True := by
    refine Yields.mapM fun port _ => ?_
    rw [yields_bind, yields_iff]
    exact ⟨fun L hL => ⟨L, hL, rfl⟩, fun _ _ => trivial⟩
  rw [h, yields_ok] at hall
  obtain ⟨l, hl, L', hL', rfl⟩ := exists_of_forall₂ hall.flip (List.mem_filter.2 ⟨hp, ht⟩)
  obtain rfl : L' = L := Except.ok.inj (hL'.symm.trans hL)
  exact hl

/-- A prepared body begins its entry functions with the indices of its node. -/
theorem exists_of_prepareBody {source code : String} {fallback : Number}
    (h : prepareBody n source fallback = .ok code) :
    ∃ body locals, indexLocals n fallback = .ok locals ∧
      code = injectIndexLocals body n.runName locals := by
  obtain ⟨_, -, h⟩ := Fault.bind_eq_ok_iff.1 h
  obtain ⟨_, -, h⟩ := Fault.bind_eq_ok_iff.1 h
  obtain ⟨body, -, h⟩ := Fault.bind_eq_ok_iff.1 h
  obtain ⟨locals, hlocals, h⟩ := Fault.bind_eq_ok_iff.1 h
  exact ⟨body, locals, hlocals, (Except.ok.inj h).symm⟩

/-! ### Arguments -/

/-- What an array input is given in a program that reads some textures, if arrays that are made for it have
a given length. -/
inductive Argument.Fits (scene : Scene) (textures : Keyed String) (n : Node) (port : Port) (L : Nat) :
    Argument → Prop
  /-- The texture of another pass. -/
  | texture {u : String} (h : CallContext.texture? { scene, textures } n.id port.id = some u) :
      Fits scene textures n port L { port, text := sample u port.type }
  /-- What an edge brings from a node that was called before. -/
  | edge {emitted : List String} {e : Edge} {text : String}
      (he : scene.graph.edgeInto n.id (some port.id) = some e)
      (hv : edgeExpression? { scene, textures, emitted } e port.type = .ok (some text)) :
      Fits scene textures n port L { port, text, inlined := [e] }
  /-- An array of the length, into which the bound value is copied, with elements below the length. -/
  | array {emitted : List String} {elements : List (Edge × Nat)} {lines : List String}
      (he : elementEdges { scene, textures, emitted } n port = .ok elements)
      (hl : List.Forall₂ (Assigned { scene, textures, emitted } n port L)
        (elements.mergeSort fun a b => a.2 ≤ b.2) lines) :
      Fits scene textures n port L
        { port, text := arrayName n port,
          lines := arrayOpening { scene, textures, emitted } n port L ++ lines,
          inlined := (elements.map Prod.fst).filter (·.source ∈ emitted) }
  | bound {b : BoundValue} (hb : n.uniforms.get? port.id = some b) :
      Fits scene textures n port L { port, text := n.uniformName port.id }
  /-- The default of the length. -/
  | default (hb : n.uniforms.get? port.id = none) :
      Fits scene textures n port L { port, text := defaultLiteral scene.config port.type (some L) }

/-- The arrays that are made for an input have its capacity as their length. -/
theorem Argument.Chosen.fits {ctx : CallContext} {a : Argument} (h : Argument.Chosen ctx n port a)
    (ht : port.type.isArray = true)
    (hb : ∀ b, n.uniforms.get? port.id = some b → b.type = port.type)
    (hL : portCapacity port n.uniforms ctx.scene.fallback = .ok L) :
    a.Fits ctx.scene ctx.textures n port L := by
  cases h with
  | texture hu => exact .texture hu
  | edge _ he hv => exact .edge he hv
  | @array _ length _ _ _ _ he _ hc hl =>
    obtain rfl : length = L := Except.ok.inj (hc.symm.trans hL)
    exact .array he hl
  | @own text _ _ _ hv =>
    cases hbound : n.uniforms.get? port.id with
    | some b =>
      have hvalue : boundArgument? n port = some (n.uniformName port.id) := by
        rw [boundArgument?, hbound, Option.bind_some, if_pos (hb b hbound)]
      rw [ownArgument, hvalue] at hv
      cases hv
      exact .bound hbound
    | none =>
      have hvalue : boundArgument? n port = none := by
        rw [boundArgument?, hbound, Option.bind_none]
      simp only [ownArgument, hvalue, defaultArgument, if_pos ht] at hv
      obtain ⟨length, hlength, hv⟩ := Fault.bind_eq_ok_iff.1 hv
      obtain rfl : length = L := Except.ok.inj (hlength.symm.trans hL)
      cases hv
      exact .default hbound

/-! ### All places -/

/-- All places where the length of an array input is needed agree on it, as far as its uniforms are not
supplanted. -/
structure SharesLength (scene : Scene) (p : RenderPass) (order : List Node) (blocks : List Block)
    (n : Node) (port : Port) (L : Nat) : Prop where
  pos : 1 ≤ L
  capacity_eq : portCapacity port n.uniforms scene.fallback = .ok L
  /-- The uniform of the bound value. -/
  bound : ∀ b, n.uniforms.get? port.id = some b → ∃ c,
    b.declaration scene.fallback (n.uniformName port.id) = .ok c ∧
      scene.KeepsOrSupplants order p n c ∧ c.name = n.uniformName port.id ∧
      c.uniform.type = port.type ∧ c.length = some L ∧ c.uniform.Holds L
  /-- The variable of the selected index, in every body that is prepared for the node. -/
  limit : ∀ source code, prepareBody n source scene.fallback = .ok code → ∃ body locals,
    indexLocals n scene.fallback = .ok locals ∧ code = injectIndexLocals body n.runName locals ∧
      { name := port.id ++ "_index", uniform := n.uniformName port.id ++ "_index",
        greatest := L - 1 } ∈ locals
  /-- The uniform of the selected index. -/
  index : ∃ c, n.indexDeclaration scene.fallback port = .ok c ∧ scene.KeepsOrSupplants order p n c ∧
    c.name = n.uniformName port.id ++ "_index" ∧
      ∃ i < L, c.uniform = { type := .int, value := .int (i : Nat) }
  arguments : ∀ b ∈ blocks, b.node = n → ∀ a ∈ b.arguments, a.port = port →
    a.Fits scene p.textures n port L

/-- The declarations of a standard node are those of its inputs. -/
private theorem declarations_of_standard (hk : n.kind = .standard) (fallback : Number) :
    n.declarations fallback = n.inputDeclarations fallback := by
  rw [Node.declarations, hk]

/-- The selected index of an array input is declared, and it is below the capacity. -/
theorem Parts.exists_index (h : Parts scene p order blocks) (hn : scene.Brings order n)
    (hk : n.kind = .standard) (hp : port ∈ n.inputs) (ht : port.type.isArray = true) :
    ∃ L, portCapacity port n.uniforms scene.fallback = .ok L ∧
      ∃ c, n.indexDeclaration scene.fallback port = .ok c ∧ scene.KeepsOrSupplants order p n c ∧
        c.name = n.uniformName port.id ++ "_index" ∧
          ∃ i < L, c.uniform = { type := .int, value := .int (i : Nat) } := by
  obtain ⟨c, hindex, hc⟩ := h.declared n hn (n.indexDeclaration scene.fallback port) (by
    rw [declarations_of_standard hk]
    exact List.mem_append_right _ (List.mem_map_of_mem (List.mem_filter.2 ⟨hp, ht⟩)))
  obtain ⟨i, hi, rfl⟩ := Fault.map_eq_ok_iff.1 hindex
  obtain ⟨L, hL, hlt⟩ := BoundValue.exists_of_selectedIndex hi
  exact ⟨L, hL, _, hindex, hc, rfl, i, hlt, rfl⟩

/-- The array inputs of a node that is brought into a program share their lengths. -/
theorem Parts.exists_sharesLength (h : Parts scene p order blocks) (hn : scene.Brings order n)
    (hk : n.kind = .standard) (hp : port ∈ n.inputs) (ht : port.type.isArray = true)
    (hb : ∀ b, n.uniforms.get? port.id = some b → b.type = port.type) :
    ∃ L, SharesLength scene p order blocks n port L := by
  obtain ⟨L, hL, hindex⟩ := h.exists_index hn hk hp ht
  have hpos := BoundValue.capacity_pos hL
  refine ⟨L, hpos, hL, fun b hbound => ?_, fun source code hcode => ?_, hindex,
    fun b hmem hnode a ha hport => ?_⟩
  · obtain ⟨c, hc, hkept⟩ := h.declared n hn (b.declaration scene.fallback (n.uniformName port.id)) (by
      rw [declarations_of_standard hk]
      exact List.mem_append_left _ (List.mem_filterMap.2 ⟨port, hp, by rw [hbound]; rfl⟩))
    have hdeclared := hc
    rw [portCapacity, hbound, ← hb b hbound] at hL
    rw [← hb b hbound] at ht
    obtain ⟨length, hlength, hdeclared⟩ := Fault.bind_eq_ok_iff.1 hdeclared
    rw [BoundValue.declaredLength_eq ht, hL] at hlength
    cases hlength
    obtain ⟨value, hvalue, hdeclared⟩ := Fault.bind_eq_ok_iff.1 hdeclared
    cases hdeclared
    exact ⟨_, hc, hkept, rfl, hb b hbound, rfl, holds_of_pack ht hpos hvalue⟩
  · obtain ⟨body, locals, hlocals, rfl⟩ := exists_of_prepareBody hcode
    exact ⟨body, locals, hlocals, rfl, mem_indexLocals hlocals hp ht hL⟩
  · obtain ⟨port', -, before, after, -, hchosen⟩ := h.chosen b hmem a ha
    obtain rfl : port' = port := hchosen.given.port_eq.symm.trans hport
    subst hnode
    exact hchosen.fits ht hb hL

end Shader

namespace Compile

variable {scene : Scene} {target : Target} {r : Result} {log : List Journal.Record} {p : RenderPass}

/-- The passes of a compilation have parts, unless they are drawn for stages. -/
theorem exists_parts (h : compile scene target = (.ok r, log)) (hf : r.failure = none)
    (hp : p ∈ r.passes) :
    Plan.IsStagePass scene p ∨ ∃ order blocks, Shader.Parts scene p order blocks := by
  obtain ⟨s, hs, hpasses, -⟩ := exists_steps_of_compile h hf
  obtain ⟨before, after, hsplit⟩ := List.append_of_mem hp
  refine (Plan.exists_drawing (hs.steps.origin rfl (hpasses.trans hsplit))).imp_right ?_
  rintro ⟨d, -⟩
  exact d.exists_parts

/-- In every pass that is not drawn for a stage, all places where the length of an array input is needed
agree on it, if the input has no bound value of another type: the node may be called by the main function or
stand inside a compound. Only the uniforms of the bound value and of the selected index may be supplanted,
by declarations of the same name. -/
theorem lengths_shared_or_supplanted (h : compile scene target = (.ok r, log)) (hf : r.failure = none)
    (hp : p ∈ r.passes) :
    Plan.IsStagePass scene p ∨ ∃ order blocks, Shader.Parts scene p order blocks ∧
      ∀ n, scene.Brings order n → n.kind = .standard → ∀ port ∈ n.inputs, port.type.isArray = true →
        (∀ b, n.uniforms.get? port.id = some b → b.type = port.type) →
          ∃ L, Shader.SharesLength scene p order blocks n port L := by
  refine (exists_parts h hf hp).imp_right ?_
  rintro ⟨order, blocks, hparts⟩
  exact ⟨order, blocks, hparts, fun n hn hk port hport ht hb =>
    hparts.exists_sharesLength hn hk hport ht hb⟩

/-- A node with an array input that asks for five elements, and an edge to one of them. -/
def kernelNode : Node :=
  { id := "n", inputs := [.ofId "x" (.array .float)], outputs := [.ofId "o" .vec4],
    uniforms := .ofList [("x", {
      type := .array .float
      value := .list [.int 1, .int 2]
      settings := .ofList [("arrayLength", .int 5), ("arrayIndex", .int 9)] })] }

def feeder : Node :=
  { id := "m", outputs := [.ofId "o" .float] }

def kernels : Scene where
  graph := .ofLists [feeder, kernelNode]
    [{ source := "m", target := "n", sourcePort := some "o", targetPort := some "x__1" }]
  config := {}

theorem lengths_shared_or_supplanted_kernels : ∃ r log p order blocks,
    compile kernels { node := some "n" } = (.ok r, log) ∧ r.failure = none ∧ p ∈ r.passes ∧
      Shader.Parts kernels p order blocks ∧ kernels.Brings order kernelNode ∧
      Shader.SharesLength kernels p order blocks kernelNode (.ofId "x" (.array .float)) 5 := by
  have hrun : succeedsWith kernels { node := some "n" } (fun r => r.passes.any (·.id == "n")) = true := by
    decide +kernel
  obtain ⟨r, log, hr, hf, htest⟩ := exists_of_succeedsWith hrun
  obtain ⟨p, hp, hid⟩ := List.any_eq_true.1 htest
  obtain ⟨order, blocks, hparts, hall⟩ := (lengths_shared_or_supplanted hr hf hp).resolve_left
    (Plan.not_isStagePass (by decide +kernel))
  have hid : ∀ m ∈ kernels.graph.nodeList, p.id ∈ Plan.plannedKeys m → m.id = kernelNode.id := by
    rw [eq_of_beq hid]
    decide +kernel
  obtain ⟨rfl, -⟩ := hparts.eq_of_key (by decide +kernel) hid { order := [feeder, kernelNode] }
    fun _ _ => rfl
  have hm : kernelNode ∈ [feeder, kernelNode] := List.mem_cons_of_mem _ List.mem_cons_self
  obtain ⟨L, hL⟩ := hall kernelNode (.listed hm) rfl (.ofId "x" (.array .float)) List.mem_cons_self rfl
    (by decide +kernel)
  have hfive : Shader.portCapacity (.ofId "x" (.array .float)) kernelNode.uniforms kernels.fallback =
      .ok 5 := rfl
  obtain rfl : L = 5 := Except.ok.inj (hL.capacity_eq.symm.trans hfive)
  exact ⟨r, log, p, _, blocks, hr, hf, hp, hparts, .listed hm, hL⟩

/-- A node with an array input, and an input that bears the name of the array's index. -/
def indexNamed : Node :=
  { id := "n", inputs := [.ofId "x" (.array .float), .ofId "x_index" .int],
    outputs := [.ofId "o" .vec4],
    uniforms := .ofList [("x_index", { type := .int, value := .int 99 })] }

def indexNames : Scene where
  graph := .ofLists [indexNamed] []
  config := {}

/-- The bound value of the second input stands where the selected index of the array should, though the
array has sixteen elements. -/
theorem bound_value_as_index : ∃ r log p,
    compile indexNames { node := some "n" } = (.ok r, log) ∧ r.failure = none ∧ p ∈ r.passes ∧
      Shader.portCapacity (.ofId "x" (.array .float)) indexNamed.uniforms indexNames.fallback = .ok 16 ∧
      numberAt (indexNamed.uniformName "x" ++ "_index") p.uniforms = some (.int 99) ∧
      ¬ ∃ i < 16, p.uniforms.get? (indexNamed.uniformName "x" ++ "_index") =
        some { type := .int, value := .int (i : Nat) } := by
  have hrun : succeedsWith indexNames { node := some "n" } (fun r => r.passes.any fun p =>
      numberAt (indexNamed.uniformName "x" ++ "_index") p.uniforms = some (.int 99)) = true := by
    decide +kernel
  obtain ⟨r, log, hr, hf, htest⟩ := exists_of_succeedsWith hrun
  obtain ⟨p, hp, hnumber⟩ := List.any_eq_true.1 htest
  have hnumber := of_decide_eq_true hnumber
  refine ⟨r, log, p, hr, hf, hp, rfl, hnumber, ?_⟩
  rintro ⟨i, hi, hget⟩
  rw [numberAt, hget] at hnumber
  have hvalue : (Number.int i) = .int 99 := Option.some.inj hnumber
  rw [Number.int.injEq] at hvalue
  omega

end Compile

end RenderGraph
