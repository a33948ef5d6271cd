import RenderGraph.Proofs.Outcome
import RenderGraph.Shader.Fragment

/-!
# What calls are given

Programs call their nodes in blocks: the lines that assemble arrays for a call, the variables of its
results, and the call itself. A block records for each argument the edges whose values it takes inline,
that is, as a variable of a node that was called before. The main function and the bodies of compounds
are made of blocks, but they choose their arguments differently: only the main function knows textures.

## Main definitions

* `Shader.Argument`, `Shader.Block`
* `Shader.Argument.Given`, `Shader.Calls`: the blocks of a main function
* `Shader.Argument.Chosen`, `Shader.Block.Chosen`: what decides between the possibilities
* `Shader.Argument.InnerGiven`, `Shader.InnerCalls`: the blocks of a compound

## Main results

* `Shader.exists_parts_of_fragment`, `Shader.exists_calls_of_fragment`: the main function of a program
  is made of its blocks
* `Shader.exists_lines_of_compoundWithin`, `Shader.exists_innerCalls`: so is the body of a compound
-/

namespace RenderGraph.Shader

/-- An argument of a call: its text, the lines that prepare it, and the edges that it takes inline. -/
structure Argument where
  port : Port
  text : String
  lines : List String := []
  inlined : List Edge := []

/-- The call of a node, with variables for some results. -/
structure Block where
  node : Node
  arguments : List Argument
  results : List Port

/-- The lines of a block. -/
def Block.lines (scene : Scene) (b : Block) : List String :=
  b.arguments.flatMap (·.lines) ++
    (b.results.map fun p => outputDeclaration scene (b.node.outputVar p.id) p.type) ++
    [callLine b.node.runName
      (["uv"] ++ b.arguments.map (·.text) ++ b.results.map fun p => b.node.outputVar p.id)]

variable {ctx : CallContext} {n : Node} {port : Port}

/-! ### Arguments in a main function -/

/-- A line that assigns an element of an array: what an edge brings, or the default if the source of the
edge was not called before. -/
def Assigned (ctx : CallContext) (n : Node) (port : Port) (length : Nat) (element : Edge × Nat)
    (line : String) : Prop :=
  ∃ value, line = elementLine (arrayName n port) length element.2 value ∧
    (edgeExpression? ctx element.1 port.type.element = .ok (some value) ∨
      edgeExpression? ctx element.1 port.type.element = .ok none ∧
        value = defaultLiteral ctx.scene.config port.type.element)

/-- What an input is given by a call in a main function. -/
inductive Argument.Given (ctx : CallContext) (n : Node) (port : Port) : Argument → Prop
  /-- The texture of another pass. -/
  | texture {u : String} (h : ctx.texture? n.id port.id = some u) :
      Given ctx n port { port, text := sample u port.type }
  /-- What an edge brings. -/
  | edge {e : Edge} {text : String} (ht : ctx.texture? n.id port.id = none)
      (he : ctx.scene.graph.edgeInto n.id (some port.id) = some e)
      (hv : edgeExpression? ctx e port.type = .ok (some text)) :
      Given ctx n port { port, text, inlined := [e] }
  /-- An array that is assembled from edges to its elements. -/
  | array {elements : List (Edge × Nat)} {length : Nat} {lines : List String}
      (ht : ctx.texture? n.id port.id = none)
      (he : elementEdges ctx n port = .ok elements)
      (hl : List.Forall₂ (Assigned ctx n port length) (elements.mergeSort fun a b => a.2 ≤ b.2) lines) :
      Given ctx n port
        { port, text := arrayName n port, lines := arrayOpening ctx n port length ++ lines,
          inlined := (elements.map Prod.fst).filter (·.source ∈ ctx.emitted) }
  /-- The bound value or the default. -/
  | own {text : String} (ht : ctx.texture? n.id port.id = none)
      (hv : ownArgument ctx n port = .ok text) :
      Given ctx n port { port, text }

/-- What an input is given by a call in a main function, with what rules out the other possibilities. -/
inductive Argument.Chosen (ctx : CallContext) (n : Node) (port : Port) : Argument → Prop
  /-- The texture of another pass. -/
  | texture {u : String} (h : ctx.texture? n.id port.id = some u) :
      Chosen ctx n port { port, text := sample u port.type }
  /-- What an edge brings. -/
  | edge {e : Edge} {text : String} (ht : ctx.texture? n.id port.id = none)
      (he : ctx.scene.graph.edgeInto n.id (some port.id) = some e)
      (hv : edgeExpression? ctx e port.type = .ok (some text)) :
      Chosen ctx n port { port, text, inlined := [e] }
  /-- An array that is assembled from edges to its elements. -/
  | array {elements : List (Edge × Nat)} {length : Nat} {lines : List String}
      (ht : ctx.texture? n.id port.id = none)
      (hn : ctx.scene.graph.edgeInto n.id (some port.id) = none) (ha : port.type.isArray = true)
      (he : elementEdges ctx n port = .ok elements) (hne : elements ≠ [])
      (hc : portCapacity port n.uniforms ctx.scene.fallback = .ok length)
      (hl : List.Forall₂ (Assigned ctx n port length) (elements.mergeSort fun a b => a.2 ≤ b.2) lines) :
      Chosen ctx n port
        { port, text := arrayName n port, lines := arrayOpening ctx n port length ++ lines,
          inlined := (elements.map Prod.fst).filter (·.source ∈ ctx.emitted) }
  /-- The bound value or the default. -/
  | own {text : String} (ht : ctx.texture? n.id port.id = none)
      (hn : ∀ e, ctx.scene.graph.edgeInto n.id (some port.id) = some e →
        edgeExpression? ctx e port.type = .ok none)
      (he : ctx.scene.graph.edgeInto n.id (some port.id) = none → port.type.isArray = true →
        elementEdges ctx n port = .ok [])
      (hv : ownArgument ctx n port = .ok text) :
      Chosen ctx n port { port, text }

namespace Argument

theorem Given.port_eq {a : Argument} (h : Given ctx n port a) : a.port = port := by
  cases h <;> rfl

theorem Chosen.given {a : Argument} (h : Chosen ctx n port a) : Given ctx n port a := by
  cases h with
  | texture h => exact .texture h
  | edge ht he hv => exact .edge ht he hv
  | array ht _ _ he _ _ hl => exact .array ht he hl
  | own ht _ _ hv => exact .own ht hv

end Argument

/-- Lines are written one after the other. -/
theorem ends_writeLines {α : Type} (line : α → String) (items : List α) (s : CallState)
    {E : Fault → CallState → Prop} :
    Ends (items.forM fun a => writeLine (line a))
      (fun _ s' => s'.lines = s.lines ++ items.map line ∧ s'.warnings = s.warnings) E s := by
  induction items generalizing s with
  | nil => exact ⟨(List.append_nil _).symm, rfl⟩
  | cons a items ih =>
    show Ends (writeLine (line a) >>= fun _ => items.forM fun a => writeLine (line a)) _ E s
    rw [ends_bind]
    refine (ih { s with lines := s.lines ++ [line a] }).mono ?_ fun _ _ => id
    rintro _ s' ⟨hlines, hwarnings⟩
    refine ⟨?_, hwarnings⟩
    rw [hlines, List.map_cons, List.append_assoc]
    rfl

private theorem leads_assignElement (length : Nat) (element : Edge × Nat) (s : CallState) :
    Leads (assignElement ctx n port length element)
      (fun _ s' => ∃ line, Assigned ctx n port length element line ∧ s'.lines = s.lines ++ [line])
      s := by
  unfold assignElement
  rw [Leads, ends_bind, ends_lift, yields_iff]
  refine ⟨fun value hv => ?_, fun _ _ => trivial⟩
  cases value with
  | some value => exact ⟨_, ⟨value, rfl, Or.inl hv⟩, rfl⟩
  | none => exact ⟨_, ⟨_, rfl, Or.inr ⟨hv, rfl⟩⟩, rfl⟩

private theorem leads_assignElements (length : Nat) (elements : List (Edge × Nat)) (s : CallState) :
    Leads (elements.forM (assignElement ctx n port length))
      (fun _ s' => ∃ lines, List.Forall₂ (Assigned ctx n port length) elements lines ∧
        s'.lines = s.lines ++ lines) s := by
  induction elements generalizing s with
  | nil => exact ⟨[], .nil, (List.append_nil _).symm⟩
  | cons element elements ih =>
    show Ends (assignElement ctx n port length element >>= fun _ => elements.forM _) _ _ s
    rw [ends_bind]
    refine Ends.mono (leads_assignElement length element s) ?_ fun _ _ => id
    rintro _ t ⟨line, hline, ht⟩
    refine Ends.mono (ih t) ?_ fun _ _ => id
    rintro _ u ⟨lines, hlines, hu⟩
    refine ⟨line :: lines, .cons hline hlines, ?_⟩
    rw [hu, ht, List.append_assoc]
    rfl

private theorem leads_assembleArray {elements : List (Edge × Nat)}
    (ht : ctx.texture? n.id port.id = none)
    (hn : ctx.scene.graph.edgeInto n.id (some port.id) = none) (ha : port.type.isArray = true)
    (he : elementEdges ctx n port = .ok elements) (hne : elements ≠ []) (s : CallState) :
    Leads (assembleArray ctx n port elements)
      (fun text s' => ∃ a, Argument.Chosen ctx n port a ∧ a.text = text ∧
        s'.lines = s.lines ++ a.lines) s := by
  unfold assembleArray
  dsimp only
  rw [Leads, ends_bind, ends_lift, yields_iff]
  refine ⟨fun length hlength => ?_, fun _ _ => trivial⟩
  rw [ends_bind]
  refine (ends_writeLines (fun line => line) (arrayOpening ctx n port length) s).mono ?_ fun _ _ => id
  rintro _ t ⟨hopening, -⟩
  rw [ends_bind]
  refine Ends.mono (leads_assignElements length _ t) ?_ fun _ _ => id
  rintro _ u ⟨lines, hlines, hu⟩
  refine ⟨_, .array ht hn ha he hne hlength hlines, rfl, ?_⟩
  rw [hu, hopening, List.map_id', List.append_assoc]

private theorem yields_plainArgument (ht : ctx.texture? n.id port.id = none)
    (hels : ctx.scene.graph.edgeInto n.id (some port.id) = none → port.type.isArray = true →
      elementEdges ctx n port = .ok []) :
    Yields (plainArgument ctx n port (ctx.scene.graph.edgeInto n.id (some port.id)))
      (fun text => ∃ a, Argument.Chosen ctx n port a ∧ a.text = text ∧ a.lines = [])
      (fun _ => True) := by
  have hown (hn : ∀ e, ctx.scene.graph.edgeInto n.id (some port.id) = some e →
      edgeExpression? ctx e port.type = .ok none) : Yields (ownArgument ctx n port)
      (fun text => ∃ a, Argument.Chosen ctx n port a ∧ a.text = text ∧ a.lines = [])
      (fun _ => True) :=
    yields_iff.2 ⟨fun text hv => ⟨_, .own ht hn hels hv, rfl, rfl⟩, fun _ _ => trivial⟩
  unfold plainArgument
  cases he : ctx.scene.graph.edgeInto n.id (some port.id) with
  | none => exact hown fun e h => by simp [he] at h
  | some e =>
    dsimp only
    rw [yields_bind, yields_iff]
    refine ⟨fun brought hb => ?_, fun _ _ => trivial⟩
    cases brought with
    | none => exact hown fun e' h => by rwa [← Option.some.inj (he.symm.trans h)]
    | some text => exact ⟨_, .edge ht he hb, rfl, rfl⟩

/-- An input is given an argument, and its lines are written. -/
theorem leads_argument (s : CallState) :
    Leads (argument ctx n port)
      (fun text s' => ∃ a, Argument.Chosen ctx n port a ∧ a.text = text ∧
        s'.lines = s.lines ++ a.lines) s := by
  unfold argument
  cases ht : ctx.texture? n.id port.id with
  | some u => exact ⟨_, .texture ht, rfl, (List.append_nil _).symm⟩
  | none =>
    have hplain (hels : ctx.scene.graph.edgeInto n.id (some port.id) = none →
        port.type.isArray = true → elementEdges ctx n port = .ok []) :
        Leads (liftM (plainArgument ctx n port
          (ctx.scene.graph.edgeInto n.id (some port.id))) : CallM String)
          (fun text s' => ∃ a, Argument.Chosen ctx n port a ∧ a.text = text ∧
            s'.lines = s.lines ++ a.lines) s := by
      rw [Leads, ends_lift]
      refine (yields_plainArgument ht hels).mono ?_ fun _ => id
      rintro text ⟨a, ha, htext, hlines⟩
      refine ⟨a, ha, htext, ?_⟩
      rw [hlines, List.append_nil]
    dsimp only
    split
    · next hfree =>
      obtain ⟨hn, ha⟩ := Bool.and_eq_true_iff.1 hfree
      rw [Leads, ends_bind, ends_lift, yields_iff]
      refine ⟨fun elements he => ?_, fun _ _ => trivial⟩
      split
      · next hempty => exact hplain fun _ _ => by rw [he, List.isEmpty_iff.1 hempty]
      · next hne =>
        exact leads_assembleArray ht (Option.isNone_iff_eq_none.1 hn) ha he
          (fun h => hne (List.isEmpty_iff.2 h)) s
    · next hfed =>
      refine hplain fun hn ha => absurd ?_ hfed
      rw [hn, ha]
      rfl

/-! ### Blocks of a main function -/

/-- The blocks that call a node: none for a uniform, and no arguments for an input proxy. -/
inductive Called (ctx : CallContext) (n : Node) : List Block → Prop
  | uniform (h : n.kind = .globalVar) : Called ctx n []
  | proxy (h : n.kind = .graphInput) : Called ctx n [{ node := n, arguments := [], results := n.outputs }]
  | call {arguments : List Argument} {results : List Port}
      (hk : n.kind ≠ .globalVar ∧ n.kind ≠ .graphInput)
      (hr : results = if n.kind = .graphOutput then [resultPort] else n.effectiveOutputs)
      (ha : List.Forall₂ (Argument.Given ctx n) n.inputs arguments) :
      Called ctx n [{ node := n, arguments, results }]

/-- The blocks that call some nodes, each of which may refer to those before it. -/
inductive Calls : CallContext → List Node → List Block → Prop
  | nil {ctx : CallContext} : Calls ctx [] []
  | cons {ctx : CallContext} {n : Node} {nodes : List Node} {blocks blocks' : List Block}
      (h : Called ctx n blocks) (hs : Calls { ctx with emitted := n.id :: ctx.emitted } nodes blocks') :
      Calls ctx (n :: nodes) (blocks ++ blocks')

/-- Each argument of a block was chosen in view of the nodes that are called before. -/
def Block.Chosen (ctx : CallContext) (nodes : List Node) (b : Block) : Prop :=
  ∀ a ∈ b.arguments, ∃ port ∈ b.node.inputs, ∃ before after, nodes = before ++ b.node :: after ∧
    Argument.Chosen { ctx with emitted := (before.map (·.id)).reverse ++ ctx.emitted } b.node port a

theorem Block.Chosen.cons {nodes : List Node} {b : Block}
    (h : Block.Chosen { ctx with emitted := n.id :: ctx.emitted } nodes b) :
    Block.Chosen ctx (n :: nodes) b := by
  intro a ha
  obtain ⟨port, hport, before, after, rfl, hchosen⟩ := h a ha
  refine ⟨port, hport, n :: before, after, rfl, ?_⟩
  rw [List.map_cons, List.reverse_cons, List.append_assoc]
  exact hchosen

private theorem leads_arguments (s : CallState) :
    Leads (n.inputs.mapM (argument ctx n))
      (fun texts s' => ∃ arguments, List.Forall₂ (Argument.Chosen ctx n) n.inputs arguments ∧
        arguments.map (·.text) = texts ∧ s'.lines = s.lines ++ arguments.flatMap (·.lines)) s := by
  refine Ends.mapM (I := fun done texts (s' : CallState) => ∃ arguments,
    List.Forall₂ (Argument.Chosen ctx n) done arguments ∧ arguments.map (·.text) = texts ∧
      s'.lines = s.lines ++ arguments.flatMap (·.lines)) ?_ ⟨[], .nil, rfl, (List.append_nil _).symm⟩
  rintro done port texts t - ⟨arguments, hchosen, htexts, ht⟩
  refine Ends.mono (leads_argument t) ?_ fun _ _ => id
  rintro text u ⟨a, ha, rfl, hu⟩
  refine ⟨arguments ++ [a], List.rel_append hchosen (.cons ha .nil), ?_, ?_⟩
  · rw [List.map_append, htexts, List.map_singleton]
  · rw [hu, ht, List.flatMap_append, List.flatMap_singleton, List.append_assoc]

private theorem leads_callWith (results : List Port) (s : CallState) :
    Leads (callWith ctx n results)
      (fun _ s' => ∃ arguments, List.Forall₂ (Argument.Chosen ctx n) n.inputs arguments ∧
        s'.lines = s.lines ++ Block.lines ctx.scene { node := n, arguments, results }) s := by
  unfold callWith
  rw [Leads, ends_bind]
  refine Ends.mono (leads_arguments s) ?_ fun _ _ => id
  rintro _ t ⟨arguments, hchosen, rfl, ht⟩
  rw [ends_bind]
  refine (ends_writeLines _ results t).mono ?_ fun _ _ => id
  rintro _ u ⟨hu, -⟩
  refine ⟨arguments, hchosen, ?_⟩
  show u.lines ++ [_] = _
  rw [hu, ht]
  simp only [Block.lines, List.append_assoc]

theorem leads_nodeCall (s : CallState) :
    Leads (nodeCall ctx n) (fun _ s' => ∃ blocks, Called ctx n blocks ∧
      (∀ b ∈ blocks, b.Chosen ctx [n]) ∧
      s'.lines = s.lines ++ blocks.flatMap (Block.lines ctx.scene)) s := by
  -- A call that is written is a block.
  have hcall (results : List Port) (hk : n.kind ≠ .globalVar ∧ n.kind ≠ .graphInput)
      (hr : results = if n.kind = .graphOutput then [resultPort] else n.effectiveOutputs) :
      Leads (callWith ctx n results) (fun _ s' => ∃ blocks, Called ctx n blocks ∧
        (∀ b ∈ blocks, b.Chosen ctx [n]) ∧
        s'.lines = s.lines ++ blocks.flatMap (Block.lines ctx.scene)) s := by
    refine Ends.mono (leads_callWith results s) ?_ fun _ _ => id
    rintro _ t ⟨arguments, hchosen, ht⟩
    refine ⟨_, .call hk hr (hchosen.imp fun _ _ => Argument.Chosen.given), ?_, ?_⟩
    · refine List.forall_mem_singleton.2 fun a ha => ?_
      obtain ⟨port, hport, hchosen⟩ := exists_of_forall₂ hchosen ha
      exact ⟨port, hport, [], [], rfl, hchosen⟩
    · rw [ht, List.flatMap_singleton]
  unfold nodeCall
  rw [Leads, ends_bind, ends_lift, yields_iff]
  refine ⟨fun role hrole => ?_, fun _ _ => trivial⟩
  cases hk : n.kind with
  | standard | compound =>
    rw [hk] at hrole
    cases hrole
    exact hcall _ (by simp [hk]) (by simp [hk])
  | graphOutput =>
    rw [hk] at hrole
    cases hrole
    exact hcall _ (by simp [hk]) (by simp [hk])
  | globalVar =>
    rw [hk] at hrole
    cases hrole
    exact ⟨[], .uniform hk, List.forall_mem_nil _, (List.append_nil _).symm⟩
  | graphInput =>
    rw [hk] at hrole
    cases hrole
    dsimp only
    rw [ends_bind]
    refine (ends_writeLines _ n.outputs s).mono ?_ fun _ _ => id
    rintro _ t ⟨ht, -⟩
    refine ⟨_, .proxy hk, List.forall_mem_singleton.2 (List.forall_mem_nil _), ?_⟩
    show t.lines ++ [_] = _
    rw [ht, List.flatMap_singleton]
    simp [Block.lines]
  | multiStage =>
    rw [hk] at hrole
    cases hrole

theorem leads_callNodes {nodes : List Node} (s : CallState) :
    Leads (callNodes ctx nodes) (fun _ s' => ∃ blocks, Calls ctx nodes blocks ∧
      (∀ b ∈ blocks, b.Chosen ctx nodes) ∧
      s'.lines = s.lines ++ blocks.flatMap (Block.lines ctx.scene)) s := by
  induction nodes generalizing ctx s with
  | nil => exact ⟨[], .nil, List.forall_mem_nil _, (List.append_nil _).symm⟩
  | cons n nodes ih =>
    unfold callNodes
    rw [Leads, ends_bind]
    refine Ends.mono (leads_nodeCall s) ?_ fun _ _ => id
    rintro _ t ⟨blocks, hblocks, hfirst, ht⟩
    refine Ends.mono (ih t) ?_ fun _ _ => id
    rintro _ u ⟨blocks', hblocks', hrest, hu⟩
    refine ⟨blocks ++ blocks', .cons hblocks hblocks', List.forall_mem_append.2 ⟨?_, ?_⟩, ?_⟩
    · intro b hb a ha
      obtain ⟨port, hport, before, after, hsplit, hchosen⟩ := hfirst b hb a ha
      obtain ⟨rfl, hn, rfl⟩ : before = [] ∧ n = b.node ∧ after = [] := by
        rcases List.singleton_eq_append_iff.1 hsplit with ⟨hb, hrest⟩ | ⟨-, hrest⟩
        · exact ⟨hb, by simpa [eq_comm] using hrest⟩
        · exact absurd hrest (List.cons_ne_nil _ _)
      exact ⟨port, hport, [], nodes, by rw [hn]; rfl, hchosen⟩
    · exact fun b hb => (hrest b hb).cons
    · rw [hu, ht, List.flatMap_append, List.append_assoc]

/-- Every argument of a call was given to an input of a node that is called. -/
theorem Calls.exists_given {nodes : List Node} {blocks : List Block} (h : Calls ctx nodes blocks)
    {b : Block} (hb : b ∈ blocks) {a : Argument} (ha : a ∈ b.arguments) :
    b.node ∈ nodes ∧ ∃ port ∈ b.node.inputs,
      ∃ emitted, Argument.Given { ctx with emitted } b.node port a := by
  induction h with
  | nil => simp at hb
  | @cons ctx n nodes blocks blocks' hcalled _ ih =>
    rcases List.mem_append.1 hb with hb | hb
    · cases hcalled with
      | uniform => simp at hb
      | proxy =>
        rw [List.mem_singleton] at hb
        subst hb
        simp at ha
      | call _ _ hgiven =>
        rw [List.mem_singleton] at hb
        subst hb
        obtain ⟨port, hport, hgiven⟩ := exists_of_forall₂ hgiven ha
        exact ⟨List.mem_cons_self, port, hport, ctx.emitted, hgiven⟩
    · obtain ⟨hmem, port, hport, emitted, hgiven⟩ := ih hb
      exact ⟨List.mem_cons_of_mem _ hmem, port, hport, emitted, hgiven⟩

/-- The lines of a main function that calls some nodes and writes a value. -/
def mainLines (scene : Scene) (blocks : List Block) (value : String) : List String :=
  ["void main() \x7b", "  vec2 uv = vUv;"] ++ blocks.flatMap (Block.lines scene) ++
    ["  fragColor = " ++ value ++ ";", "\x7d"]

/-- The parts of a program: the header, the declarations of its nodes, their functions, and a main
function that is made of their calls. -/
theorem exists_parts_of_fragment {scene : Scene} {textures : Keyed String} {order : List Node}
    {output : Node} {code : String} {uniforms : Keyed Uniform} {s : CallState}
    (h : (fragment scene textures order output port).run {} = (.ok (code, uniforms), s)) :
    ∃ d functions blocks,
      order.foldlM (fun d node => declareNode scene node d) ({} : Declarations) = .ok d ∧
      order.mapM (nodeFunctions scene) = .ok functions ∧ Calls { scene, textures } order blocks ∧
      (∀ b ∈ blocks, b.Chosen { scene, textures } order) ∧ code = "\n".intercalate
        [header scene.config textures.values false, "\n".intercalate d.lines, "",
          String.join functions, "\n".intercalate (mainLines scene blocks
            (cast (finalValue output port).1 (finalValue output port).2 .vec4))] := by
  have hleads : Leads (fragment scene textures order output port)
      (fun program _ => ∃ d functions blocks,
        order.foldlM (fun d node => declareNode scene node d) ({} : Declarations) = .ok d ∧
        order.mapM (nodeFunctions scene) = .ok functions ∧ Calls { scene, textures } order blocks ∧
        (∀ b ∈ blocks, b.Chosen { scene, textures } order) ∧ program.1 = "\n".intercalate
          [header scene.config textures.values false, "\n".intercalate d.lines, "",
            String.join functions, "\n".intercalate (mainLines scene blocks
              (cast (finalValue output port).1 (finalValue output port).2 .vec4))]) {} := by
    unfold fragment
    rw [Leads, ends_bind, ends_lift, yields_iff]
    refine ⟨fun d hd => ?_, fun _ _ => trivial⟩
    rw [ends_bind, ends_lift, yields_iff]
    refine ⟨fun functions hfunctions => ?_, fun _ _ => trivial⟩
    unfold mainFunction
    rw [ends_bind, ends_bind]
    refine Ends.mono (leads_callNodes {}) ?_ fun _ _ => id
    rintro _ u ⟨blocks, hblocks, hchosen, hu⟩
    have hlines : u.lines = blocks.flatMap (Block.lines scene) := hu
    refine ⟨d, functions, blocks, hd, hfunctions, hblocks, hchosen, ?_⟩
    rw [mainLines, ← hlines]
    rfl
  exact hleads.of_run_ok h

/-- A program ends with the functions of its nodes and a main function that is made of their calls. -/
theorem exists_calls_of_fragment {scene : Scene} {textures : Keyed String} {order : List Node}
    {output : Node} {code : String} {uniforms : Keyed Uniform} {s : CallState}
    (h : (fragment scene textures order output port).run {} = (.ok (code, uniforms), s)) :
    ∃ front functions blocks value, order.mapM (nodeFunctions scene) = .ok functions ∧
      Calls { scene, textures } order blocks ∧
      code = "\n".intercalate (front ++
        [String.join functions, "\n".intercalate (mainLines scene blocks value)]) := by
  obtain ⟨d, functions, blocks, -, hfunctions, hblocks, -, hcode⟩ := exists_parts_of_fragment h
  exact ⟨[header scene.config textures.values false, "\n".intercalate d.lines, ""], functions, blocks,
    _, hfunctions, hblocks, hcode⟩

/-! ### Blocks of a compound -/

variable {scene : Scene} {scope : String}

/-- What an input is given by a call in the body of a compound. -/
inductive Argument.InnerGiven (scene : Scene) (scope : String) (n : Node) (port : Port) :
    Argument → Prop
  /-- What an edge brings. -/
  | edge {e : Edge} {text : String} (he : scene.graph.edgeInto n.id (some port.id) = some e)
      (hv : innerSource scene scope e port.type = .ok text) :
      InnerGiven scene scope n port { port, text, inlined := [e] }
  /-- The bound value or the default. -/
  | own (he : scene.graph.edgeInto n.id (some port.id) = none) :
      InnerGiven scene scope n port
        { port, text := (boundArgument? n port).getD (defaultLiteral scene.config port.type) }

/-- The block that calls a node inside a scope. -/
structure InnerCalled (scene : Scene) (scope : String) (n : Node) (b : Block) : Prop where
  node_eq : b.node = n
  results_eq : b.results = n.effectiveOutputs
  given : List.Forall₂ (Argument.InnerGiven scene scope n) n.inputs b.arguments

theorem Argument.InnerGiven.port_eq {a : Argument} (h : InnerGiven scene scope n port a) :
    a.port = port := by
  cases h <;> rfl

theorem Argument.InnerGiven.argument_eq {a : Argument} (h : InnerGiven scene scope n port a) :
    innerArgument scene scope n port = .ok a.text := by
  unfold innerArgument
  cases h with
  | edge he hv =>
    rw [he]
    exact hv
  | own he =>
    rw [he]
    rfl

theorem Argument.InnerGiven.lines_eq {a : Argument} (h : InnerGiven scene scope n port a) :
    a.lines = [] := by
  cases h <;> rfl

/-- Results that are read off things related to some items are read off a list of such things. -/
theorem exists_map_eq {α β γ : Type} {R : α → β → Prop} {f : β → γ} {l : List α}
    {l' : List γ} (h : List.Forall₂ (fun a c => ∃ b, R a b ∧ f b = c) l l') :
    ∃ bs, List.Forall₂ R l bs ∧ bs.map f = l' := by
  induction h with
  | nil => exact ⟨[], .nil, rfl⟩
  | cons hb _ ih =>
    obtain ⟨b, hb, rfl⟩ := hb
    obtain ⟨bs, hbs, rfl⟩ := ih
    exact ⟨b :: bs, .cons hb hbs, rfl⟩

theorem flatMap_lines_eq {ports : List Port} {arguments : List Argument}
    (h : List.Forall₂ (Argument.InnerGiven scene scope n) ports arguments) :
    arguments.flatMap (·.lines) = [] := by
  induction h with
  | nil => rfl
  | cons ha _ ih =>
    rw [List.flatMap_cons, ha.lines_eq, ih]
    rfl

private theorem yields_innerCall (scene : Scene) (scope : String) (n : Node) :
    Yields (innerCall scene scope n) (fun lines => ∃ b, InnerCalled scene scope n b ∧
      b.lines scene = lines) (fun _ => True) := by
  have hgiven : Yields (n.inputs.mapM (innerArgument scene scope n))
      (List.Forall₂ (fun port text => ∃ a, Argument.InnerGiven scene scope n port a ∧ a.text = text)
        n.inputs) (fun _ => True) := by
    refine Yields.mapM fun port _ => ?_
    unfold innerArgument
    split
    · next e he =>
      rw [yields_iff]
      exact ⟨fun text hv => ⟨_, .edge he hv, rfl⟩, fun _ _ => trivial⟩
    · next he => exact ⟨_, .own he, rfl⟩
  unfold innerCall
  rw [yields_bind]
  refine hgiven.mono ?_ fun _ => id
  intro texts htexts
  obtain ⟨arguments, harguments, rfl⟩ := exists_map_eq htexts
  refine ⟨{ node := n, arguments, results := n.effectiveOutputs }, ⟨rfl, rfl, harguments⟩, ?_⟩
  rw [Block.lines, flatMap_lines_eq harguments, List.nil_append]

theorem exists_of_innerCalls {nodes : List Node} {calls : List (List String)}
    (h : nodes.mapM (innerCall scene scope) = .ok calls) :
    ∃ blocks, List.Forall₂ (InnerCalled scene scope) nodes blocks ∧
      blocks.map (Block.lines scene) = calls := by
  have hcalled : Yields (nodes.mapM (innerCall scene scope))
      (List.Forall₂ (fun n lines => ∃ b, InnerCalled scene scope n b ∧ b.lines scene = lines) nodes)
      (fun _ => True) :=
    Yields.mapM fun n _ => yields_innerCall scene scope n
  rw [h, yields_ok] at hcalled
  exact exists_map_eq hcalled

/-- The lines of the body of a compound: the calls of the nodes inside its scope, and the assignments of
its outputs from what feeds its output proxy. -/
theorem exists_lines_of_compoundWithin {fuel : Nat} {stack : List String} {compound : Node}
    {body : String} (h : compoundWithin scene fuel stack compound = .ok body) :
    ∃ front calls assignments,
      ((callOrder scene (scene.graph.children (some compound.id))).filter (hasFunction ·.kind)).mapM
        (innerCall scene compound.id) = .ok calls ∧
      compound.outputs.mapM (outputAssignment scene compound
        ((callOrder scene (scene.graph.children (some compound.id))).filter
          (·.kind = .graphOutput)).getLast?) = .ok assignments ∧
      body = front ++ " \x7b\n" ++ "\n".intercalate (calls.flatten ++ assignments) ++ "\n\x7d\n" := by
  cases fuel with
  | zero => cases h
  | succ fuel =>
    unfold compoundWithin at h
    by_cases hstack : compound.id ∈ stack
    · simp only [hstack, if_true] at h
      cases h
    · simp only [hstack, if_false] at h
      obtain ⟨functions, -, h⟩ := Fault.bind_eq_ok_iff.1 h
      obtain ⟨calls, hcalls, h⟩ := Fault.bind_eq_ok_iff.1 h
      obtain ⟨assignments, hassignments, h⟩ := Fault.bind_eq_ok_iff.1 h
      obtain ⟨head, -, h⟩ := Fault.bind_eq_ok_iff.1 h
      cases h
      exact ⟨"\n".intercalate functions ++ "\n" ++ head, calls, assignments, hcalls, hassignments, rfl⟩

/-- The body of a compound is made of the blocks that call the nodes inside its scope. -/
structure InnerCalls (scene : Scene) (compound : Node) (body : String) (blocks : List Block) :
    Prop where
  called : List.Forall₂ (InnerCalled scene compound.id)
    ((callOrder scene (scene.graph.children (some compound.id))).filter (hasFunction ·.kind)) blocks
  body_eq : ∃ front proxy assignments,
    compound.outputs.mapM (outputAssignment scene compound proxy) = .ok assignments ∧
      body = front ++ " \x7b\n" ++
        "\n".intercalate (blocks.flatMap (Block.lines scene) ++ assignments) ++ "\n\x7d\n"

theorem exists_innerCalls {fuel : Nat} {stack : List String} {compound : Node} {body : String}
    (h : compoundWithin scene fuel stack compound = .ok body) :
    ∃ blocks, InnerCalls scene compound body blocks := by
  obtain ⟨front, calls, assignments, hcalls, hassignments, rfl⟩ := exists_lines_of_compoundWithin h
  obtain ⟨blocks, hcalled, rfl⟩ := exists_of_innerCalls hcalls
  refine ⟨blocks, hcalled, front, _, assignments, hassignments, ?_⟩
  rw [List.flatMap_def]

end RenderGraph.Shader
