import RenderGraph.Proofs.Shader.Twin

/-!
# The main functions of twins

The main function of a program calls its nodes with arguments. What a node and its twin are called with
is the same as far as the capacities of their array inputs are the same, and so are the lines that are
written before. The warnings are the same in any case.

## Main definitions

* `Shader.CallState.Alike`: main functions that differ where capacities get into them

## Main results

* `Shader.agrees_argument`, `Shader.agrees_nodeCall`
* `Shader.agrees_fragment`: the fragment programs of twins
-/

namespace RenderGraph.Shader

variable {config : Config} {sized : Prop} {g k : Graph} {n m : Node} {textures : Keyed String}
  {emitted : List String} {port : Port}

/-- The same warnings have been issued and, under `sized`, the same lines written. -/
structure CallState.Alike (sized : Prop) (s t : CallState) : Prop where
  lines : EqIf sized s.lines t.lines
  warnings_eq : t.warnings = s.warnings

theorem agrees_writeLine {line line' : String} (h : EqIf sized line line') :
    Agrees (CallState.Alike sized) (fun _ _ => True) (writeLine line) (writeLine line') :=
  .modify fun _ _ hst => ⟨fun hs => by rw [hst.lines hs, h hs], hst.warnings_eq⟩

theorem agrees_warnCall (message : String) :
    Agrees (CallState.Alike sized) (fun _ _ => True) (warnCall message) (warnCall message) :=
  .modify fun _ _ hst => ⟨hst.lines, by rw [hst.warnings_eq]⟩

/-! ### Arguments -/

theorem agree_edgeExpression? (hg : g.Twin config sized k) (e : Edge) (t : DataType) :
    Agree Eq (edgeExpression? { scene := { graph := g, config }, textures, emitted } e t)
      (edgeExpression? { scene := { graph := k, config }, textures, emitted } e t) := by
  refine (hg.requireNode e.source (some e.target)).bind ?_
  rintro n _ ⟨-, -, ⟨-, -, -⟩⟩
  exact .refl _

theorem elementEdges_eq (hg : g.Twin config sized k) (hp : Graph.Paired config sized g k n m)
    (port : Port) :
    elementEdges { scene := { graph := k, config }, textures, emitted } m port =
      elementEdges { scene := { graph := g, config }, textures, emitted } n port := by
  unfold elementEdges
  dsimp only
  rw [hg.incoming_eq, hp.id_eq]

theorem forall₂_arrayOpening (hp : Graph.Paired config sized g k n m) {length length' : Nat}
    (hl : EqIf sized length length') :
    List.Forall₂ (EqIf sized)
      (arrayOpening { scene := { graph := g, config }, textures, emitted } n port length)
      (arrayOpening { scene := { graph := k, config }, textures, emitted } m port length') := by
  unfold arrayOpening
  rw [hp.any_type_eq]
  obtain ⟨-, -, ⟨-, -, -⟩⟩ := hp
  refine .cons (fun hs => by rw [hl hs]; rfl) ?_
  split
  · exact .cons (fun hs => by rw [hl hs]; rfl) .nil
  · exact .nil

theorem agrees_assignElement (hg : g.Twin config sized k) (hp : Graph.Paired config sized g k n m)
    {length length' : Nat} (hl : EqIf sized length length') (element : Edge × Nat) :
    Agrees (CallState.Alike sized) (fun _ _ => True)
      (assignElement { scene := { graph := g, config }, textures, emitted } n port length element)
      (assignElement { scene := { graph := k, config }, textures, emitted } m port length' element) := by
  unfold assignElement
  refine (Agrees.lift (agree_edgeExpression? hg _ _)).bind ?_
  rintro value _ rfl
  obtain ⟨-, -, ⟨-, -, -⟩⟩ := hp
  have hwrite (value : String) : Agrees (CallState.Alike sized) (fun _ _ => True)
      (writeLine (elementLine (arrayName n port) length element.2 value))
      (writeLine (elementLine (arrayName n port) length' element.2 value)) :=
    agrees_writeLine fun hs => by rw [hl hs]
  cases value with
  | some value => exact hwrite value
  | none => exact (agrees_warnCall _).bind fun _ _ _ => hwrite _

theorem agrees_assembleArray (hg : g.Twin config sized k) (hp : Graph.Paired config sized g k n m)
    (hport : port ∈ n.inputs) (ht : port.type.isArray = true) (elements : List (Edge × Nat)) :
    Agrees (CallState.Alike sized) (EqIf sized)
      (assembleArray { scene := { graph := g, config }, textures, emitted } n port elements)
      (assembleArray { scene := { graph := k, config }, textures, emitted } m port elements) := by
  refine (Agrees.lift (agree_portCapacity hp hport ht)).bind fun length length' hl => ?_
  refine (Agrees.forM (forall₂_arrayOpening hp hl) fun _ _ h => agrees_writeLine h).bind fun _ _ _ => ?_
  refine (Agrees.forM (forall₂_self _) ?_).bind fun _ _ _ => ?_
  · rintro element _ ⟨-, rfl⟩
    exact agrees_assignElement hg hp hl element
  · obtain ⟨-, -, ⟨-, -, -⟩⟩ := hp
    exact .pure fun _ => rfl

theorem agree_ownArgument (hp : Graph.Paired config sized g k n m) (hport : port ∈ n.inputs) :
    Agree (EqIf sized) (ownArgument { scene := { graph := g, config }, textures, emitted } n port)
      (ownArgument { scene := { graph := k, config }, textures, emitted } m port) := by
  unfold ownArgument
  rw [boundArgument?_eq hp]
  split
  · exact .ok fun _ => rfl
  · unfold defaultArgument
    split
    · next ht =>
      refine (agree_portCapacity hp hport ht).bind fun length length' hl => .ok fun hs => ?_
      rw [hl hs]
    · exact .ok fun _ => rfl

theorem agree_plainArgument (hg : g.Twin config sized k) (hp : Graph.Paired config sized g k n m)
    (hport : port ∈ n.inputs) (edge : Option Edge) :
    Agree (EqIf sized)
      (plainArgument { scene := { graph := g, config }, textures, emitted } n port edge)
      (plainArgument { scene := { graph := k, config }, textures, emitted } m port edge) := by
  cases edge with
  | none => exact agree_ownArgument hp hport
  | some e =>
    refine (agree_edgeExpression? hg e port.type).bind ?_
    rintro value _ rfl
    cases value with
    | some value => exact .ok fun _ => rfl
    | none => exact agree_ownArgument hp hport

/-- An input and its twin are given the same, if the array inputs have the same capacities. -/
theorem agrees_argument (hg : g.Twin config sized k) (hp : Graph.Paired config sized g k n m)
    (hport : port ∈ n.inputs) :
    Agrees (CallState.Alike sized) (EqIf sized)
      (argument { scene := { graph := g, config }, textures, emitted } n port)
      (argument { scene := { graph := k, config }, textures, emitted } m port) := by
  have htexture : CallContext.texture? { scene := { graph := k, config }, textures, emitted } n.id port.id =
      CallContext.texture? { scene := { graph := g, config }, textures, emitted } n.id port.id :=
    rfl
  unfold argument
  rw [hp.id_eq, htexture]
  dsimp only
  rw [hg.edgeInto_eq, elementEdges_eq hg hp]
  split
  · exact .pure fun _ => rfl
  · split
    · next hc =>
      refine (Agrees.lift (Agree.refl _)).bind ?_
      rintro elements _ rfl
      split
      · exact .lift (agree_plainArgument hg hp hport _)
      · exact agrees_assembleArray hg hp hport (Bool.and_eq_true_iff.1 hc).2 elements
    · exact .lift (agree_plainArgument hg hp hport _)

/-! ### Calls -/

theorem agrees_callWith (hg : g.Twin config sized k) (hp : Graph.Paired config sized g k n m)
    (results : List Port) :
    Agrees (CallState.Alike sized) (fun _ _ => True)
      (callWith { scene := { graph := g, config }, textures, emitted } n results)
      (callWith { scene := { graph := k, config }, textures, emitted } m results) := by
  unfold callWith
  rw [hp.inputs_eq]
  refine (Agrees.mapM (Q := EqIf sized) (forall₂_self n.inputs) ?_).bind fun arguments arguments' ha => ?_
  · rintro port _ ⟨hport, rfl⟩
    exact agrees_argument hg hp hport
  · obtain ⟨-, -, ⟨-, -, -⟩⟩ := hp
    refine (Agrees.forM (forall₂_self results) ?_).bind fun _ _ _ => ?_
    · rintro port _ ⟨-, rfl⟩
      exact agrees_writeLine fun _ => rfl
    · exact agrees_writeLine fun hs => by rw [eqIf_of_forall₂ ha hs]; rfl

theorem agrees_nodeCall (hg : g.Twin config sized k) (hp : Graph.Paired config sized g k n m) :
    Agrees (CallState.Alike sized) (fun _ _ => True)
      (nodeCall { scene := { graph := g, config }, textures, emitted } n)
      (nodeCall { scene := { graph := k, config }, textures, emitted } m) := by
  unfold nodeCall
  rw [hp.kind_eq]
  refine (Agrees.lift (Agree.refl _)).bind ?_
  rintro role _ rfl
  cases role with
  | uniform => exact .pure trivial
  | inputProxy =>
    obtain ⟨-, -, ⟨-, -, -⟩⟩ := hp
    refine (Agrees.forM (forall₂_self n.outputs) ?_).bind fun _ _ _ => agrees_writeLine fun _ => rfl
    rintro port _ ⟨-, rfl⟩
    exact agrees_writeLine fun _ => rfl
  | outputProxy => exact agrees_callWith hg hp _
  | function =>
    have houtputs : m.effectiveOutputs = n.effectiveOutputs := by
      obtain ⟨-, -, ⟨-, -, -⟩⟩ := hp
      rfl
    dsimp only
    rw [houtputs]
    exact agrees_callWith hg hp _

theorem agrees_callNodes (hg : g.Twin config sized k) {order order' : List Node}
    (ho : List.Forall₂ (Graph.Paired config sized g k) order order') (emitted : List String) :
    Agrees (CallState.Alike sized) (fun _ _ => True)
      (callNodes { scene := { graph := g, config }, textures, emitted } order)
      (callNodes { scene := { graph := k, config }, textures, emitted } order') := by
  induction ho generalizing emitted with
  | nil => exact .pure trivial
  | cons hp _ ih =>
    refine (agrees_nodeCall hg hp).bind fun _ _ _ => ?_
    rw [hp.id_eq]
    exact ih _

theorem agrees_mainFunction (hg : g.Twin config sized k) {order order' : List Node}
    (ho : List.Forall₂ (Graph.Paired config sized g k) order order')
    (hp : Graph.Paired config sized g k n m) (port : Port) :
    Agrees (CallState.Alike sized) (EqIf sized)
      (mainFunction { scene := { graph := g, config }, textures } order n port)
      (mainFunction { scene := { graph := k, config }, textures } order' m port) := by
  refine (agrees_callNodes hg ho []).bind fun _ _ _ => ?_
  refine Agrees.get.bind fun s t hst => ?_
  obtain ⟨-, -, ⟨-, -, -⟩⟩ := hp
  exact .pure fun hs => by rw [hst.lines hs]; rfl

/-- The fragment programs of twins have uniforms of the same names and types, each of which is
contributed by a node, and, under `sized`, the same text. -/
theorem agrees_fragment (hg : g.Twin config sized k) (textures : Keyed String) {order order' : List Node}
    (ho : List.Forall₂ (Graph.Paired config sized g k) order order')
    (hp : Graph.Paired config sized g k n m) (port : Port) :
    Agrees (CallState.Alike sized)
      (fun p q => EqIf sized p.1 q.1 ∧ p.2.Match (fun name u v => v.type = u.type ∧
        Scene.Contributes { graph := k, config } name v) q.2)
      (fragment { graph := g, config } textures order n port)
      (fragment { graph := k, config } textures order' m port) := by
  have hdeclare := Agree.foldlM ho (fun d d' n m h hp => agree_declareNode hg hp h)
    (c := {}) (d := {}) (⟨rfl, Keyed.match_empty⟩ : Declarations.Alike {} {})
  have horigin : Yields (order'.foldlM (fun d node => declareNode { graph := k, config } node d) {})
      (Declarations.Grown (Scene.Contributes { graph := k, config }) {}) fun _ => True := by
    refine Yields.foldlM (fun d node hn hd => ?_) (.refl _)
    obtain ⟨_, -, hpair⟩ := exists_of_forall₂ ho hn
    exact (yields_declareNode hpair.right d).mono (fun d' hd' => hd.trans hd'.1) fun _ => id
  refine (Agrees.lift hdeclare.and_eq).bind ?_
  rintro d d' ⟨halike, -, hd'⟩
  rw [hd', yields_ok] at horigin
  refine (Agrees.lift (Agree.mapM ho fun n m hp => agree_nodeFunctions hg hp)).bind
    fun functions functions' hf => ?_
  refine (agrees_mainFunction hg ho hp port).bind fun main main' hm => .pure ⟨fun hs => ?_, ?_⟩
  · dsimp only
    rw [halike.lines_eq, eqIf_of_forall₂ hf hs, hm hs]
  · refine halike.uniforms.imp fun name u v _ hv htype => ⟨htype, ?_⟩
    exact (horigin.origin hv).resolve_left (by simp [Keyed.get?_empty])

end RenderGraph.Shader
