import RenderGraph.Proofs.Shader.Contribution
import RenderGraph.Proofs.Variant

/-!
# The programs of twins

What is written for a node and for its twin. The uniforms are declared by the same lines, for the
lengths of twins are the same, and so are their names and types. The functions and calls have the same
text as far as the capacities of array inputs are the same: nothing else of a bound value gets into
them.

## Main definitions

* `EqIf`: equality under a condition
* `Declarations.Alike`: declarations that differ in values only
* `Shader.CallSearch.Alike`: searches that find nodes that stand for each other

## Main results

* `Shader.agree_declareNode`: the declarations of twins
* `Shader.agree_nodeFunctions`: the functions of twins
-/

namespace RenderGraph

variable {α : Type}

/-- The values are equal if a condition holds. -/
abbrev EqIf (P : Prop) (a b : α) : Prop :=
  P → a = b

theorem eqIf_of_forall₂ {P : Prop} {l m : List α} (h : List.Forall₂ (EqIf P) l m) : EqIf P l m := by
  intro hP
  rw [← List.forall₂_eq_eq_eq]
  exact h.imp fun _ _ hab => hab hP

/-! ### Values -/

theorem raises_capacity (t : DataType) (bound : Option BoundValue) (fallback : Number) :
    Raises (BoundValue.capacity t bound fallback) :=
  (BoundValue.failsFor_capacity t bound fallback).failsIn fun _ h => h.isCompilation_eq_false

theorem raises_pack (t : DataType) (v : Value) (length : Option Nat) : Raises (pack t v length) :=
  (failsFor_pack t v length).failsIn fun _ h => h.isCompilation_eq_false

theorem raises_selectedIndex (t : DataType) (bound : Option BoundValue) (fallback : Number) :
    Raises (BoundValue.selectedIndex t bound fallback) := by
  refine FailsIn.bind (raises_capacity t bound fallback) fun length _ => ?_
  refine FailsIn.bind ((BoundValue.failsFor_statedIndex bound).failsIn ?_) fun _ _ => trivial
  rintro f ⟨_, _, _, rfl⟩
  rfl

/-! ### Declarations -/

namespace Declarations

/-- The declarations have the same lines and uniforms of the same names and types. -/
structure Alike (d d' : Declarations) : Prop where
  lines_eq : d'.lines = d.lines
  uniforms : d.uniforms.Match (fun _ u v => v.type = u.type) d'.uniforms

variable {d d' : Declarations}

theorem Alike.declare (h : d.Alike d') (name : String) (t : DataType) (v w : Value)
    (length : Option Nat) : (d.declare name t v length).Alike (d'.declare name t w length) := by
  unfold Declarations.declare
  rw [← h.uniforms.contains_eq]
  split
  · exact h
  · exact ⟨by rw [h.lines_eq], h.uniforms.insert rfl⟩

end Declarations

namespace Shader

variable {config : Config} {sized : Prop} {g k : Graph} {n m : Node} {d d' : Declarations}

theorem agree_declareBound {b c : BoundValue} (hbc : b.Twin config.defaultArrayLength c)
    (name : String) (h : d.Alike d') :
    Agree Declarations.Alike (declareBound { graph := g, config } name b d)
      (declareBound { graph := k, config } name c d') := by
  refine (Agree.of_eq hbc.length_eq).bind ?_
  rintro length _ rfl
  rw [hbc.type_eq]
  exact (Agree.of_raises (raises_pack _ _ _) (raises_pack _ _ _) fun _ _ _ _ => trivial).bind
    fun v w _ => .ok (h.declare _ _ v w _)

theorem agree_declareGlobal (hp : Graph.Paired config sized g k n m)
    (hk : n.kind = .globalVar) (h : d.Alike d') :
    Agree Declarations.Alike (declareGlobal { graph := g, config } n d)
      (declareGlobal { graph := k, config } m d') := by
  obtain ⟨-, -, ⟨-, global, -⟩⟩ := hp
  refine (Agree.of_eq (global hk)).bind ?_
  rintro length _ rfl
  exact (Agree.of_raises (raises_pack _ _ _) (raises_pack _ _ _) fun _ _ _ _ => trivial).bind
    fun v w _ => .ok (h.declare _ _ v w _)

theorem agree_declareInputs (hp : Graph.Paired config sized g k n m)
    (h : d.Alike d') :
    Agree Declarations.Alike (declareInputs { graph := g, config } n d)
      (declareInputs { graph := k, config } m d') := by
  unfold declareInputs declareBoundInputs declareIndices
  rw [hp.inputs_eq]
  refine (Agree.foldlM (forall₂_self n.inputs) ?_ h).bind fun d d' h =>
    Agree.foldlM (forall₂_self n.inputs) ?_ h
  · rintro d d' port _ h ⟨-, rfl⟩
    have hrel := hp.uniforms.get? port.id
    rw [hp.uniformName_eq]
    generalize n.uniforms.get? port.id = b at hrel ⊢
    generalize m.uniforms.get? port.id = c at hrel ⊢
    cases hrel with
    | none => exact .ok h
    | some hbc => exact agree_declareBound hbc _ h
  · rintro d d' port _ h ⟨-, rfl⟩
    rw [hp.uniformName_eq]
    split
    · exact (Agree.of_raises (raises_selectedIndex _ _ _) (raises_selectedIndex _ _ _)
        fun _ _ _ _ => trivial).bind fun i j _ => .ok (h.declare _ _ _ _ _)
    · exact .ok h

theorem agree_declareProxy (n : Node) (h : d.Alike d') :
    Agree Declarations.Alike (declareProxy n d) (declareProxy n d') := by
  unfold declareProxy
  split
  · exact .ok h
  · refine Agree.foldlM (forall₂_self n.outputs) ?_ h
    rintro d d' port _ h ⟨-, rfl⟩
    exact (Agree.refl _).bind fun v w _ => .ok (h.declare _ _ v w _)

theorem agree_declareWithin (hg : g.Twin config sized k) (fuel : Nat)
    (stack : List String) (hp : Graph.Paired config sized g k n m)
    (h : d.Alike d') :
    Agree Declarations.Alike (declareWithin { graph := g, config } fuel stack n d)
      (declareWithin { graph := k, config } fuel stack m d') := by
  induction fuel generalizing stack n m d d' with
  | zero => exact .ok h
  | succ fuel ih =>
    unfold declareWithin
    rw [hp.kind_eq]
    split
    · next hk => exact agree_declareGlobal hp hk h
    · obtain ⟨-, -, ⟨-, -, -⟩⟩ := hp
      exact agree_declareProxy n h
    · exact .ok h
    · exact .ok h
    · exact agree_declareInputs hp h
    · refine (agree_declareInputs hp h).bind fun d d' h => ?_
      rw [hp.id_eq]
      split
      · exact .ok h
      · exact Agree.foldlM (hg.children (some n.id)) (fun d d' n m h hp => ih _ hp h) h

/-- The uniforms of twins are declared by the same lines. -/
theorem agree_declareNode (hg : g.Twin config sized k)
    (hp : Graph.Paired config sized g k n m) (h : d.Alike d') :
    Agree Declarations.Alike (declareNode { graph := g, config } n d)
      (declareNode { graph := k, config } m d') := by
  unfold declareNode
  dsimp only
  rw [hg.size_eq]
  exact agree_declareWithin hg _ [] hp h

theorem agree_declareStages (hp : Graph.Paired config sized g k n m)
    (h : d.Alike d') :
    Agree Declarations.Alike (declareStages { graph := g, config } n d)
      (declareStages { graph := k, config } m d') := by
  refine Agree.foldlM (forall₂_filter hp.uniforms fun e d hed => by rw [hed.1]) ?_ h
  rintro d d' ⟨key, b⟩ ⟨_, c⟩ h ⟨rfl, hbc⟩
  rw [hp.uniformName_eq]
  exact agree_declareBound hbc _ h

/-! ### Bodies -/

/-- Under `sized`, the capacity of an array input is that of its twin. -/
theorem agree_portCapacity (hp : Graph.Paired config sized g k n m) {port : Port}
    (hport : port ∈ n.inputs) (ht : port.type.isArray = true) :
    Agree (EqIf sized) (portCapacity port n.uniforms config.defaultArrayLength)
      (portCapacity port m.uniforms config.defaultArrayLength) := by
  obtain ⟨-, -, ⟨-, -, capacity⟩⟩ := hp
  exact .of_imp (raises_capacity _ _ _) (raises_capacity _ _ _) fun hs => capacity hs port hport ht

theorem agree_prototype (hp : Graph.Paired config sized g k n m) (name : String)
    (outputs : List Port) :
    Agree (EqIf sized) (prototype name n.inputs outputs n.uniforms config.defaultArrayLength)
      (prototype name m.inputs outputs m.uniforms config.defaultArrayLength) := by
  unfold prototype
  rw [hp.inputs_eq]
  refine (Agree.mapM (R := fun a b => a ∈ n.inputs ∧ a = b) (Q := EqIf sized)
    (forall₂_self n.inputs) ?_).bind ?_
  · rintro port _ ⟨hport, rfl⟩
    unfold inputParameter
    split
    · next ht =>
      exact (agree_portCapacity hp hport ht).bind fun a b hab => .ok fun hs => by rw [hab hs]
    · exact .ok fun _ => rfl
  · intro ins ins' h
    exact .ok fun hs => by rw [eqIf_of_forall₂ h hs]

theorem agree_setArraySizes (hp : Graph.Paired config sized g k n m)
    {code code' : String} (hcode : EqIf sized code code') :
    Agree (EqIf sized) (setArraySizes code n.inputs n.uniforms config.defaultArrayLength)
      (setArraySizes code' m.inputs m.uniforms config.defaultArrayLength) := by
  by_cases hs : sized
  · obtain rfl := hcode hs
    unfold setArraySizes
    rw [hp.inputs_eq]
    dsimp only
    split
    · exact .ok fun _ => rfl
    · split
      · exact .ok fun _ => rfl
      · refine (Agree.foldlM (I := EqIf sized) (forall₂_self n.inputs) ?_ fun _ => rfl).bind
          fun head head' h => .ok fun hs => by rw [h hs]
        rintro head head' port _ h ⟨hport, rfl⟩
        obtain rfl := h hs
        split
        · next ht =>
          exact (agree_portCapacity hp hport ht).bind fun a b hab => .ok fun hs => by rw [hab hs]
        · exact .ok fun _ => rfl
  · exact .of_raises (failsIn_setArraySizes (fun _ _ _ => raises_capacity _ _ _) _)
      (failsIn_setArraySizes (fun _ _ _ => raises_capacity _ _ _) _) fun _ _ _ _ h => absurd h hs

theorem agree_indexLocals (hp : Graph.Paired config sized g k n m) :
    Agree (EqIf sized) (indexLocals n config.defaultArrayLength)
      (indexLocals m config.defaultArrayLength) := by
  have hfilter := forall₂_self (n.inputs.filter (·.type.isArray))
  have hcapacity {port : Port} (hport : port ∈ n.inputs.filter (·.type.isArray)) :=
    agree_portCapacity hp (List.mem_filter.1 hport).1 (List.mem_filter.1 hport).2
  obtain ⟨-, -, ⟨-, -, -⟩⟩ := hp
  refine (Agree.mapM (Q := EqIf sized) hfilter ?_).mono fun _ _ => eqIf_of_forall₂
  rintro port _ ⟨hport, rfl⟩
  exact (hcapacity hport).bind fun a b hab => .ok fun hs => by rw [hab hs]; rfl

/-- The body of a node and that of its twin become the same function, if they are the same and the array
inputs have the same capacities. -/
theorem agree_prepareBody (hp : Graph.Paired config sized g k n m)
    {source source' : String} (hsource : EqIf sized source source') :
    Agree (EqIf sized) (prepareBody n source config.defaultArrayLength)
      (prepareBody m source' config.defaultArrayLength) := by
  by_cases hs : sized
  · obtain rfl := hsource hs
    unfold prepareBody Node.runName Node.cleanId
    rw [hp.id_eq]
    refine (Agree.refl _).bind ?_
    rintro code _ rfl
    refine (agree_setArraySizes hp fun _ => rfl).bind fun code code' hcode => ?_
    obtain rfl := hcode hs
    refine (Agree.refl _).bind ?_
    rintro code _ rfl
    exact (agree_indexLocals hp).bind fun l l' h => .ok fun hs => by rw [h hs]
  · exact .of_raises (failsIn_prepareBody (fun _ _ _ => raises_capacity _ _ _) _)
      (failsIn_prepareBody (fun _ _ _ => raises_capacity _ _ _) _) fun _ _ _ _ h => absurd h hs

/-! ### Compounds -/

theorem agree_innerSource (hg : g.Twin config sized k) (scope : String) (e : Edge)
    (t : DataType) :
    Agree Eq (innerSource { graph := g, config } scope e t)
      (innerSource { graph := k, config } scope e t) := by
  refine (hg.requireNode e.source (some e.target)).bind ?_
  rintro n _ ⟨-, -, ⟨-, -, -⟩⟩
  exact .refl _

theorem boundArgument?_eq (hp : Graph.Paired config sized g k n m) (port : Port) :
    boundArgument? m port = boundArgument? n port := by
  have hrel := hp.uniforms.get? port.id
  unfold boundArgument?
  rw [hp.uniformName_eq]
  generalize n.uniforms.get? port.id = b at hrel ⊢
  generalize m.uniforms.get? port.id = c at hrel ⊢
  cases hrel with
  | none => rfl
  | some hbc => rw [Option.bind_some, Option.bind_some, hbc.type_eq]

theorem agree_innerArgument (hg : g.Twin config sized k) (scope : String)
    (hp : Graph.Paired config sized g k n m) (port : Port) :
    Agree Eq (innerArgument { graph := g, config } scope n port)
      (innerArgument { graph := k, config } scope m port) := by
  unfold innerArgument
  dsimp only
  rw [hg.edgeInto_eq, hp.id_eq, boundArgument?_eq hp]
  split
  · exact agree_innerSource hg scope _ _
  · exact .refl _

theorem agree_innerCall (hg : g.Twin config sized k) (scope : String)
    (hp : Graph.Paired config sized g k n m) :
    Agree Eq (innerCall { graph := g, config } scope n) (innerCall { graph := k, config } scope m) := by
  have harguments : Agree (List.Forall₂ Eq)
      (n.inputs.mapM (innerArgument { graph := g, config } scope n))
      (m.inputs.mapM (innerArgument { graph := k, config } scope m)) := by
    rw [hp.inputs_eq]
    refine Agree.mapM (forall₂_self n.inputs) ?_
    rintro port _ ⟨-, rfl⟩
    exact agree_innerArgument hg scope hp port
  refine harguments.bind fun arguments arguments' h => ?_
  rw [List.forall₂_eq_eq_eq] at h
  obtain ⟨-, -, ⟨-, -, -⟩⟩ := hp
  rw [h]
  exact .refl _

theorem agree_outputAssignment (hg : g.Twin config sized k)
    (hp : Graph.Paired config sized g k n m) {proxy proxy' : Option Node}
    (hproxy : Option.Rel (Graph.Paired config sized g k) proxy proxy')
    (port : Port) :
    Agree Eq (outputAssignment { graph := g, config } n proxy port)
      (outputAssignment { graph := k, config } m proxy' port) := by
  have hedge : (proxy'.bind fun p => k.edgeInto p.id (some port.id)) =
      proxy.bind fun p => g.edgeInto p.id (some port.id) := by
    cases hproxy with
    | none => rfl
    | some hpp => rw [Option.bind_some, Option.bind_some, hg.edgeInto_eq, hpp.id_eq]
  unfold outputAssignment
  dsimp only
  rw [hedge, hp.id_eq]
  split
  · refine (agree_innerSource hg _ _ _).bind ?_
    rintro value _ rfl
    exact .refl _
  · exact .refl _

/-- The searches have finished the same nodes, and their orders stand for each other. -/
structure CallSearch.Alike (R : Node → Node → Prop) (s t : CallSearch) : Prop where
  finished_eq : t.finished = s.finished
  order : List.Forall₂ R s.order t.order

theorem alike_visitCalls (hg : g.Twin config sized k) {scope scope' : List Node}
    (hscope : List.Forall₂ (Graph.Paired config sized g k) scope scope')
    (fuel : Nat) (stack : List String) (id : String) {s t : CallSearch}
    (h : s.Alike (Graph.Paired config sized g k) t) :
    (visitCalls { graph := g, config } scope fuel stack id s).Alike
      (Graph.Paired config sized g k)
      (visitCalls { graph := k, config } scope' fuel stack id t) := by
  induction fuel generalizing stack id s t with
  | zero => exact h
  | succ fuel ih =>
    have hid (id : String) (n m : Node)
        (hp : Graph.Paired config sized g k n m) : (n.id == id) = (m.id == id) := by
      rw [hp.id_eq]
    unfold visitCalls
    rw [h.finished_eq]
    split
    · exact h
    · dsimp only
      rw [hg.incoming_eq]
      have hfold : CallSearch.Alike (Graph.Paired config sized g k)
          ((g.incoming id).foldl (fun s e =>
            if scope.any (·.id == e.source) then
              visitCalls { graph := g, config } scope fuel (id :: stack) e.source s
            else s) s)
          ((g.incoming id).foldl (fun s e =>
            if scope'.any (·.id == e.source) then
              visitCalls { graph := k, config } scope' fuel (id :: stack) e.source s
            else s) t) := by
        refine List.rel_foldl ?_ h (forall₂_self (g.incoming id))
        rintro s t h e _ ⟨-, rfl⟩
        dsimp only
        rw [any_eq_of_forall₂ hscope (hid e.source)]
        split
        · exact ih _ _ h
        · exact h
      refine ⟨by rw [hfold.finished_eq], List.rel_append hfold.order ?_⟩
      have hfound := forall₂_find? hscope (hid id)
      generalize scope.find? (·.id == id) = n at hfound ⊢
      generalize scope'.find? (·.id == id) = m at hfound ⊢
      cases hfound with
      | none => exact .nil
      | some hp => exact .cons hp .nil

theorem forall₂_callOrder (hg : g.Twin config sized k) {scope scope' : List Node}
    (hscope : List.Forall₂ (Graph.Paired config sized g k) scope scope') :
    List.Forall₂ (Graph.Paired config sized g k)
      (callOrder { graph := g, config } scope) (callOrder { graph := k, config } scope') := by
  unfold callOrder
  rw [hscope.length_eq]
  refine CallSearch.Alike.order (List.rel_foldl (fun s t h n m hp => ?_) ⟨rfl, .nil⟩
    (forall₂_filter hscope fun n m hp => ?_))
  · rw [hp.id_eq]
    exact alike_visitCalls hg hscope _ _ _ h
  · rw [hp.kind_eq]

theorem rel_getLast? {R : Node → Node → Prop} {l m : List Node} (h : List.Forall₂ R l m) :
    Option.Rel R l.getLast? m.getLast? := by
  have hr := List.rel_reverse h
  rw [← List.head?_reverse, ← List.head?_reverse]
  generalize l.reverse = l at hr ⊢
  generalize m.reverse = m at hr ⊢
  cases hr with
  | nil => exact .none
  | cons hnm _ => exact .some hnm

/-- The body of a compound and that of its twin have the same text, if the array inputs of all nodes have
the same capacities. -/
theorem agree_compoundWithin (hg : g.Twin config sized k) (fuel : Nat)
    (stack : List String) (hp : Graph.Paired config sized g k n m) :
    Agree (EqIf sized) (compoundWithin { graph := g, config } fuel stack n)
      (compoundWithin { graph := k, config } fuel stack m) := by
  induction fuel generalizing stack n m with
  | zero => exact .fault _
  | succ fuel ih =>
    have hchildren := hg.children (some n.id)
    have horder : List.Forall₂ (Graph.Paired config sized g k)
        (callOrder { graph := g, config } (g.children (some n.id)))
        (callOrder { graph := k, config } (k.children (some n.id))) :=
      forall₂_callOrder hg hchildren
    have hkind (n m : Node) (hp : Graph.Paired config sized g k n m) :
        hasFunction n.kind = hasFunction m.kind := by
      rw [hp.kind_eq]
    unfold compoundWithin
    rw [hp.id_eq, hp.outputs_eq]
    by_cases hmem : n.id ∈ stack
    · simp only [hmem, if_true]
      exact .fault _
    · simp only [hmem, if_false]
      refine (Agree.mapM (Q := EqIf sized) (forall₂_filter hchildren hkind) fun inner inner' hi => ?_).bind
        fun functions functions' hfunctions => ?_
      · rw [hi.kind_eq]
        split
        · refine (ih _ hi).bind fun source source' hs => ?_
          refine (agree_prepareBody hi hs).bind fun code code' hc => .ok fun h => ?_
          rw [hi.title_eq, hc h]
        · have hs : EqIf sized inner.source inner'.source := by
            obtain ⟨-, -, ⟨-, -, -⟩⟩ := hi
            exact fun _ => rfl
          refine (agree_prepareBody hi hs).bind fun code code' hc => .ok fun h => ?_
          rw [hi.title_eq, hc h]
      · refine (Agree.mapM (forall₂_filter horder hkind) fun inner inner' hi =>
          agree_innerCall hg n.id hi).bind fun calls calls' hcalls => ?_
        rw [List.forall₂_eq_eq_eq] at hcalls
        have hproxy := rel_getLast? (forall₂_filter horder (p := (·.kind = .graphOutput))
          (q := (·.kind = .graphOutput)) fun n m hp => by rw [hp.kind_eq])
        refine (Agree.mapM (Q := Eq) (forall₂_self n.outputs) ?_).bind
          fun assignments assignments' ha => ?_
        · rintro port _ ⟨-, rfl⟩
          exact agree_outputAssignment hg hp hproxy port
        · rw [List.forall₂_eq_eq_eq] at ha
          refine (agree_prototype hp "run" n.outputs).bind fun head head' hh => .ok fun h => ?_
          rw [eqIf_of_forall₂ hfunctions h, hcalls, ha, hh h]

/-- The functions of a node and of its twin have the same text, if the array inputs of all nodes have the
same capacities. -/
theorem agree_nodeFunctions (hg : g.Twin config sized k)
    (hp : Graph.Paired config sized g k n m) :
    Agree (EqIf sized) (nodeFunctions { graph := g, config } n)
      (nodeFunctions { graph := k, config } m) := by
  unfold nodeFunctions
  rw [hp.kind_eq, hp.title_eq]
  refine (Agree.refl _).bind ?_
  rintro role _ rfl
  cases role with
  | uniform => exact .ok fun _ => rfl
  | inputProxy =>
    obtain ⟨-, -, ⟨-, -, -⟩⟩ := hp
    exact (Agree.refl _).mono fun _ _ h _ => h
  | outputProxy =>
    dsimp only
    rw [hp.inputs_eq]
    have hhead := agree_prototype hp n.runName [resultPort]
    obtain ⟨-, -, ⟨-, -, -⟩⟩ := hp
    exact hhead.bind fun head head' h => .ok fun hs => by rw [h hs]
  | function =>
    dsimp only
    split
    · have hbody : Agree (EqIf sized) (compoundBody { graph := g, config } n)
          (compoundBody { graph := k, config } m) := by
        unfold compoundBody
        dsimp only
        rw [hg.size_eq]
        exact agree_compoundWithin hg _ [] hp
      refine hbody.bind fun source source' hs => ?_
      exact (agree_prepareBody hp hs).bind fun code code' hc => .ok fun h => by rw [hc h]
    · have hs : EqIf sized n.source m.source := by
        obtain ⟨-, -, ⟨-, -, -⟩⟩ := hp
        exact fun _ => rfl
      exact (agree_prepareBody hp hs).bind fun code code' hc => .ok fun h => by rw [hc h]

end Shader

end RenderGraph
