import RenderGraph.Proofs.Plan.Rebinding
import RenderGraph.Proofs.Shader.Calls
import RenderGraph.Proofs.Shader.Declaration

/-!
# The uniforms that passes declare

The pass of an output has the uniforms that its nodes declare, each with its line. The pass of a stage has
the uniforms of the node's bound values, between which stand the definitions of their keys, and besides
some samplers and the numbers of its loop. A repeated stage has its program rewritten for each iteration;
the lines of its uniforms survive that unless a key holds the end of a line.

## Main definitions

* `Plan.FollowsGuard`: a line in the program of a stage, with the line before it
* `Plan.DeclaresBindings`: the declarations with which the program of a stage comes

## Main results

* `Plan.Drawing.exists_of_get?_uniforms`, `Plan.Drawing.exists_get?_uniforms`: the uniforms of the pass of
  an output
* `Plan.IsStagePass.exists_declaration`: the arrays among the uniforms of the pass of a stage
-/

namespace RenderGraph

namespace Plan

variable {scene : Scene}

/-! ### Passes of outputs -/

/-- A line of some lines, which are written one below the other. -/
theorem hasLine_intercalate {lines : List String} {line : String} (h : line ∈ lines) :
    HasLine ("\n" ++ "\n".intercalate lines ++ "\n") line := by
  induction lines with
  | nil => cases h
  | cons first lines ih =>
    cases lines with
    | nil =>
      obtain rfl := List.mem_singleton.1 h
      exact ⟨"", "", by simp⟩
    | cons second lines =>
      rw [String.intercalate_cons_cons]
      rcases List.mem_cons.1 h with rfl | h
      · exact ⟨"", "\n".intercalate (second :: lines) ++ "\n", by simp [String.append_assoc]⟩
      · have hrest := Mentions.append_left (ih h) ("\n" ++ first)
        simpa only [HasLine, String.append_assoc] using hrest

/-- The uniforms of the program of an output are the first ones that its nodes declare, and each has its
line. -/
theorem exists_declarations_of_fragment {textures : Keyed String} {order : List Node} {output : Node}
    {port : Port} {code : String} {uniforms : Keyed Uniform} {s : Shader.CallState}
    (h : (Shader.fragment scene textures order output port).run {} = (.ok (code, uniforms), s)) :
    ∃ cs : List Declaration, scene.declarations order = cs.map .ok ∧
      (∀ name, uniforms.get? name = (cs.find? (·.name == name)).map (·.uniform)) ∧
      ∀ name c, cs.find? (·.name == name) = some c → HasLine code c.line := by
  have huniforms : Leads (Shader.fragment scene textures order output port) (fun program _ => ∃ d,
      order.foldlM (fun d n => Shader.declareNode scene n d) ({} : Declarations) = .ok d ∧
        program.2 = d.uniforms) {} := by
    unfold Shader.fragment
    rw [Leads, ends_bind, ends_lift, yields_iff]
    refine ⟨fun d hd => ?_, fun _ _ => trivial⟩
    exact Leads.bind fun _ _ => Leads.bind fun _ _ => ⟨d, hd, rfl⟩
  obtain ⟨d, hd, rfl⟩ := huniforms.of_run_ok h
  obtain ⟨d', functions, blocks, hd', -, -, -, hcode⟩ := Shader.exists_parts_of_fragment h
  obtain rfl : d = d' := Except.ok.inj (hd.symm.trans hd')
  rw [Shader.foldlM_declareNode_eq] at hd
  obtain ⟨cs, hcs, rfl⟩ := Declarations.exists_of_addAll hd
  refine ⟨cs, hcs, fun name => ?_, fun name c hc => ?_⟩
  · rw [Declarations.get?_foldl_add]
    rfl
  · have hline := hasLine_intercalate (Declarations.line_mem_foldl_add (d := {}) rfl hc)
    rw [hcode]
    simp only [String.intercalate_cons_cons]
    have hmention := (Mentions.append_left hline
      (Shader.header scene.config textures.values false)).append_right
        ("" ++ "\n" ++ (String.join functions ++ "\n" ++ "\n".intercalate ["\n".intercalate
          (Shader.mainLines scene blocks (Shader.cast (Shader.finalValue output port).1
            (Shader.finalValue output port).2 .vec4))]))
    simpa only [HasLine, String.append_assoc] using hmention

namespace Drawing

variable {p : RenderPass} (d : Drawing scene p)

theorem order_subset : ∀ n ∈ d.subgraph.order, n ∈ scene.graph.nodeList :=
  fun n hn => (d.collected.inlined n hn).1

/-- The uniforms of the pass of an output are the first ones that its nodes declare, and each has its
line. -/
theorem exists_declarations :
    ∃ cs : List Declaration, scene.declarations d.subgraph.order = cs.map .ok ∧
      (∀ name, p.uniforms.get? name = (cs.find? (·.name == name)).map (·.uniform)) ∧
      ∀ name c, cs.find? (·.name == name) = some c → HasLine p.fragment c.line :=
  exists_declarations_of_fragment d.written

include d in
/-- A uniform of the pass of an output is declared by a node of the pass. -/
theorem exists_of_get?_uniforms {name : String} {u : Uniform} (h : p.uniforms.get? name = some u) :
    ∃ n, scene.Brings d.subgraph.order n ∧ ∃ c, .ok c ∈ n.declarations scene.fallback ∧
      c.name = name ∧ c.uniform = u ∧ HasLine p.fragment c.line := by
  obtain ⟨cs, hcs, hget, hlines⟩ := d.exists_declarations
  rw [hget] at h
  obtain ⟨c, hc, rfl⟩ := Option.map_eq_some_iff.1 h
  have hmem : .ok c ∈ scene.declarations d.subgraph.order := by
    rw [hcs]
    exact List.mem_map_of_mem (List.mem_of_find?_eq_some hc)
  obtain ⟨n, hn, hdeclared⟩ := List.mem_flatMap.1 hmem
  exact ⟨n, (Scene.mem_members_iff d.order_subset).1 hn, c, hdeclared,
    by simpa using List.find?_some hc, rfl, hlines _ c hc⟩

/-- What a node of the pass of an output declares has a uniform of its name. -/
theorem exists_get?_uniforms {n : Node} (hn : scene.Brings d.subgraph.order n)
    {x : Except Fault Declaration} (hx : x ∈ n.declarations scene.fallback) :
    ∃ c u, x = .ok c ∧ p.uniforms.get? c.name = some u := by
  obtain ⟨cs, hcs, hget, -⟩ := d.exists_declarations
  have hmem : x ∈ scene.declarations d.subgraph.order :=
    List.mem_flatMap.2 ⟨n, (Scene.mem_members_iff d.order_subset).2 hn, hx⟩
  rw [hcs] at hmem
  obtain ⟨c, hc, rfl⟩ := List.mem_map.1 hmem
  -- The first declaration of the name.
  obtain ⟨e, he⟩ : ∃ e, cs.find? (·.name == c.name) = some e :=
    Option.isSome_iff_exists.1 (List.find?_isSome.2 ⟨c, hc, beq_self_eq_true c.name⟩)
  exact ⟨c, e.uniform, rfl, by rw [hget, he]; rfl⟩

end Drawing

/-! ### Programs of stages -/

variable {node : Node}

/-- A line before the line of a bound value: the comment before all of them, or the definition of the key
before. -/
def IsGuard (node : Node) (guard : String) : Prop :=
  guard = "// Inject Node Uniforms" ∨ guard ∈ Shader.stageDefines node

/-- A line stands in the program of a stage, behind a guard. -/
def FollowsGuard (node : Node) (code line : String) : Prop :=
  ∃ front guard back, code = front ++ guard ++ ("\n" ++ line ++ "\n") ++ back ∧ IsGuard node guard

namespace FollowsGuard

variable {code line : String}

theorem append (h : FollowsGuard node code line) (text : String) :
    FollowsGuard node (code ++ text) line := by
  obtain ⟨front, guard, back, rfl, hguard⟩ := h
  exact ⟨front, guard, back ++ text, by simp only [String.append_assoc], hguard⟩

theorem hasLine (h : FollowsGuard node code line) : HasLine code line := by
  obtain ⟨front, guard, back, hcode, -⟩ := h
  exact ⟨front ++ guard, back, hcode⟩

end FollowsGuard

/-- Between the lines of declarations stand other lines: before the first one, and behind each one. -/
private theorem exists_guard {α β : Type} {R : α → β → Prop} {as : List α} {bs : List β}
    (h : List.Forall₂ R as bs) (line : β → String) (define : α → String) (first : String) {b : β}
    (hb : b ∈ bs) :
    ∃ front guard back, first ++ "\n" ++ String.join (((bs.map line).zip (as.map define)).map
        fun l => l.1 ++ "\n" ++ l.2 ++ "\n") = front ++ guard ++ ("\n" ++ line b ++ "\n") ++ back ∧
      (guard = first ∨ guard ∈ as.map define) := by
  induction h generalizing first with
  | nil => cases hb
  | @cons a b' as bs _ _ ih =>
    simp only [List.map_cons, List.zip_cons_cons, String.join_cons]
    rcases List.mem_cons.1 hb with rfl | hb
    · refine ⟨"", first, define a ++ "\n" ++ String.join (((bs.map line).zip (as.map define)).map
        fun l => l.1 ++ "\n" ++ l.2 ++ "\n"), ?_, Or.inl rfl⟩
      simp only [String.append_assoc, String.empty_append]
    · obtain ⟨front, guard, back, heq, hguard⟩ := ih (define a) hb
      refine ⟨first ++ "\n" ++ line b' ++ "\n" ++ front, guard, back, ?_, Or.inr ?_⟩
      · simp only [String.append_assoc] at heq ⊢
        rw [heq]
      · exact List.mem_cons.2 hguard

/-- The line of each bound value follows a guard. -/
private theorem followsGuard_of_mem {R : String × BoundValue → Declaration → Prop}
    {cs : List Declaration} (h : List.Forall₂ R (Shader.stageBindings node) cs) (front : String)
    {c : Declaration} (hc : c ∈ cs) :
    FollowsGuard node (front ++ "// Inject Node Uniforms\n" ++
      String.join (((cs.map (·.line)).zip (Shader.stageDefines node)).map
        fun l => l.1 ++ "\n" ++ l.2 ++ "\n")) c.line := by
  obtain ⟨front', guard, back, heq, hguard⟩ := exists_guard h (·.line)
    (fun b => "#define " ++ b.1 ++ " " ++ node.uniformName b.1) "// Inject Node Uniforms" hc
  refine ⟨front ++ front', guard, back, ?_, hguard⟩
  have hmarker : "// Inject Node Uniforms\n" = "// Inject Node Uniforms" ++ "\n" := by decide +kernel
  rw [hmarker, Shader.stageDefines]
  have hwhole := congrArg (front ++ ·) heq
  simpa only [String.append_assoc] using hwhole

/-- The declarations of the stages of a node are those of its bound values, under distinct names. -/
theorem forall₂_of_stageDeclarations {cs : List Declaration}
    (h : node.stageDeclarations scene.fallback = cs.map .ok) :
    List.Forall₂ (fun b c => b.2.declaration scene.fallback (node.uniformName b.1) = .ok c)
        (Shader.stageBindings node) cs ∧ (cs.map (·.name)).Nodup := by
  rw [Node.stageDeclarations, ← List.forall₂_eq_eq_eq, List.forall₂_map_left_iff,
    List.forall₂_map_right_iff] at h
  have hnames : cs.map (·.name) = (Shader.stageBindings node).map fun b => node.uniformName b.1 := by
    rw [eq_comm, ← List.forall₂_eq_eq_eq, List.forall₂_map_left_iff, List.forall₂_map_right_iff]
    exact h.imp fun b c hc => (BoundValue.name_of_declaration hc).symm
  have hkeys : ((Shader.stageBindings node).map Prod.fst).Nodup :=
    node.uniforms.nodup.sublist (List.filter_sublist.map _)
  refine ⟨h, ?_⟩
  rw [hnames]
  rw [show (fun b : String × BoundValue => node.uniformName b.1) = node.uniformName ∘ Prod.fst from rfl,
    ← List.map_map]
  exact hkeys.map fun key key' hkey => by simpa [Node.uniformName] using hkey

/-- An array that stands under a name after others were inserted that are no arrays stood there before. -/
private theorem get?_of_get?_insert {m : Keyed Uniform} {key name : String} {u v : Uniform}
    (h : (m.insert key v).get? name = some u) (hu : u.type.isArray = true)
    (hv : v.type.isArray = false) : m.get? name = some u := by
  rw [Keyed.get?_insert] at h
  split at h
  · obtain rfl := Option.some.inj h
    rw [hv] at hu
    cases hu
  · exact h

/-- An array that stands under a name after some textures were inserted stood there before. -/
private theorem get?_of_get?_foldl_insert {defines : List (String × String)} {m : Keyed Uniform}
    {name : String} {u : Uniform} (h : (defines.foldl (fun m r =>
      m.insert r.1 { type := .sampler2D, value := .text r.2 }) m).get? name = some u)
    (hu : u.type.isArray = true) : m.get? name = some u := by
  induction defines generalizing m with
  | nil => exact h
  | cons r defines ih => exact get?_of_get?_insert (ih h) hu rfl

/-- The declarations are those of the bound values of a node, and the program of a stage has all of them,
each behind a guard, and no other arrays. -/
structure DeclaresBindings (scene : Scene) (node : Node) (cs : List Declaration)
    (program : String × Keyed Uniform) : Prop where
  declared : List.Forall₂ (fun b c => b.2.declaration scene.fallback (node.uniformName b.1) = .ok c)
    (Shader.stageBindings node) cs
  lines : ∀ c ∈ cs, FollowsGuard node program.1 c.line
  arrays : ∀ name u, program.2.get? name = some u → u.type.isArray = true →
    ∃ c ∈ cs, c.name = name ∧ c.uniform = u

/-- An array among the uniforms of the program of a stage is a bound value of the node. -/
theorem DeclaresBindings.exists_of_get? {cs : List Declaration} {program : String × Keyed Uniform}
    (h : DeclaresBindings scene node cs program) {name : String} {u : Uniform}
    (hu : program.2.get? name = some u) (ht : u.type.isArray = true) :
    ∃ b ∈ Shader.stageBindings node, ∃ c,
      b.2.declaration scene.fallback (node.uniformName b.1) = .ok c ∧ c.name = name ∧
        c.uniform = u ∧ FollowsGuard node program.1 c.line := by
  obtain ⟨c, hc, hname, huniform⟩ := h.arrays name u hu ht
  obtain ⟨b, hb, hdeclared⟩ := exists_of_forall₂ h.declared hc
  exact ⟨b, hb, c, hdeclared, hname, huniform, h.lines c hc⟩

/-- The program of a stage declares the bound values of its node, and no other arrays. -/
theorem yields_stageProgram_declarations (body : String) (io : Source.Interface)
    (textures : Keyed String) (isLoop hasFeedback : Bool) :
    Yields (stageProgram scene node body io textures isLoop hasFeedback)
      (fun program => ∃ cs, DeclaresBindings scene node cs program) fun _ => True := by
  unfold stageProgram
  dsimp only
  rw [yields_bind, yields_iff]
  refine ⟨fun d hd => ?_, fun _ _ => trivial⟩
  rw [Shader.declareStages_eq] at hd
  obtain ⟨cs, hcs, rfl⟩ := Declarations.exists_of_addAll hd
  obtain ⟨hall, hnodup⟩ := forall₂_of_stageDeclarations hcs
  have hlines : (cs.foldl Declarations.add {}).lines = cs.map (·.line) :=
    Declarations.lines_foldl_add (d := {}) (fun _ _ => rfl) hnodup
  have harrays (defines : List (String × String)) (name : String) (u : Uniform)
      (hu : (defines.foldl (fun m r => m.insert r.1 { type := .sampler2D, value := .text r.2 })
        (cs.foldl Declarations.add {}).uniforms).get? name = some u) (ht : u.type.isArray = true) :
      ∃ c ∈ cs, c.name = name ∧ c.uniform = u := by
    have hdeclared := get?_of_get?_foldl_insert hu ht
    rw [Declarations.get?_foldl_add] at hdeclared
    obtain ⟨c, hc, rfl⟩ := Option.map_eq_some_iff.1 hdeclared
    exact ⟨c, List.mem_of_find?_eq_some hc, by simpa using List.find?_some hc, rfl⟩
  rw [hlines]
  split
  · exact ⟨cs, hall, fun c hc => ((((followsGuard_of_mem hall _ hc).append _).append _).append _).append _,
      harrays _⟩
  · rw [yields_bind, yields_iff]
    exact ⟨fun arguments _ => ⟨cs, hall,
      fun c hc => ((((followsGuard_of_mem hall _ hc).append _).append _).append _).append _,
      harrays _⟩, fun _ _ => trivial⟩

/-! ### Passes of stages -/

/-- What holds of the program of a stage holds of the pass that is built with it. -/
theorem leads_buildStage_program {plan : Request → PlanM String} {stage : Stage}
    {key previous : String} {Q : String × Keyed Uniform → Prop}
    (h : ∀ body io textures isLoop hasFeedback,
      Yields (stageProgram scene node body io textures isLoop hasFeedback) Q fun _ => True) (s : State) :
    Leads (buildStage scene plan node stage key previous)
      (fun r _ => Q (r.1.fragment, r.1.uniforms)) s := by
  unfold buildStage
  refine Leads.bind fun io s => Leads.bind fun references s => Leads.bind fun textures s => ?_
  refine Leads.bind fun texture s => Leads.bind fun body s => Leads.bind fun count s => ?_
  refine Leads.bind fun _ s => ?_
  rw [Leads, ends_bind, ends_lift]
  exact (h ..).mono (fun program hq => Leads.bind fun _ _ => hq) fun _ => id

/-! ### Lines of uniforms -/

/-- Nothing but its name can break the line of a uniform. -/
private theorem notMem_declarationLine {name : String} (h : '\n' ∉ name.toList) (t : DataType)
    (length : Option Nat) : '\n' ∉ (declarationLine name t length).toList := by
  have htype : '\n' ∉ t.name.toList ∧ '\n' ∉ t.element.name.toList := by
    rcases t with _ | _ | _ | _ | _ | _ | _ | _ | _ | _ | _ | _ | _ | _ | _ | e
    case array => cases e <;> decide
    all_goals decide
  have hlength : '\n' ∉ (Value.writtenOption toString length).toList := by
    cases length with
    | none => decide
    | some n =>
      intro hmem
      have hdigit := Nat.isDigit_of_mem_toDigits (by decide) (by decide)
        (show '\n' ∈ Nat.toDigits 10 n by simpa [Value.writtenOption] using hmem)
      exact absurd hdigit (by decide)
  unfold declarationLine
  split
  · simp only [String.toList_append, List.mem_append, not_or]
    exact ⟨⟨⟨⟨⟨⟨by decide, htype.2⟩, by decide⟩, h⟩, by decide⟩, hlength⟩, by decide⟩
  · simp only [String.toList_append, List.mem_append, not_or]
    exact ⟨⟨⟨⟨by decide, htype.1⟩, by decide⟩, h⟩, by decide⟩

private theorem prefix_declarationLine (name : String) (t : DataType) (length : Option Nat) :
    "un".toList <+: (declarationLine name t length).toList := by
  have hword : "uniform " = "un" ++ "iform " := by decide +kernel
  unfold declarationLine
  split
  · simp only [hword, String.append_assoc, String.toList_append (s := "un")]
    exact List.prefix_append _ _
  · simp only [hword, String.append_assoc, String.toList_append (s := "un")]
    exact List.prefix_append _ _

/-- Nothing but its key can break the line that defines the key of a bound value. -/
private theorem notMem_uniformName {key : String} (h : '\n' ∉ key.toList) :
    '\n' ∉ (node.uniformName key).toList := by
  have hclean : '\n' ∉ node.cleanId.toList := by
    rw [Node.cleanId, Node.cleanName, String.toList_ofList]
    intro hmem
    obtain ⟨c, -, hc⟩ := List.mem_map.1 hmem
    split at hc
    · next hident =>
      rw [hc] at hident
      exact absurd hident (by decide)
    · exact absurd hc (by decide)
  simp only [Node.uniformName, String.toList_append, List.mem_append, not_or]
  exact ⟨⟨⟨by decide, hclean⟩, by decide⟩, h⟩

/-- A guard guards the line behind it, unless a key holds the end of a line. -/
private theorem FollowsGuard.guarded {code line : String} (h : FollowsGuard node code line)
    (hkeys : ∀ b ∈ Shader.stageBindings node, '\n' ∉ b.1.toList) : Guarded code line := by
  obtain ⟨front, guard, back, hcode, hguard⟩ := h
  refine ⟨front.toList, guard.toList, back.toList, by rw [hcode]; simp, ?_⟩
  rcases hguard with rfl | hdefine
  · exact ⟨by decide, Or.inl (by decide)⟩
  · obtain ⟨b, hb, rfl⟩ := List.mem_map.1 hdefine
    refine ⟨?_, Or.inr ?_⟩
    · have hkey := hkeys b hb
      simp only [String.toList_append, List.mem_append, not_or]
      exact ⟨⟨⟨by decide, hkey⟩, by decide⟩, notMem_uniformName hkey⟩
    · have hcount : "u_".toList.count '_' = 1 ∧ "_".toList.count '_' = 1 := by decide
      simp only [Node.uniformName, String.toList_append, List.count_append, hcount.1, hcount.2]
      omega

private theorem cubeAnchor_eq (config : Config) : Shader.cubeAnchor config =
    "uniform samplerCube " ++ config.emptyCubeTexture ++ ";" ++ "\n" := by
  have hend : ";\n" = ";" ++ "\n" := by decide +kernel
  unfold Shader.cubeAnchor
  rw [hend]
  exact String.append_assoc.symm

/-- The line of a bound value survives a new previous pass, unless a key holds the end of a line. -/
private theorem FollowsGuard.rebindPrevious {config : Config} {code code' sampler : String}
    {b : String × BoundValue} {c : Declaration} (h : FollowsGuard node code c.line)
    (hb : b ∈ Shader.stageBindings node)
    (hc : b.2.declaration scene.fallback (node.uniformName b.1) = .ok c)
    (hkeys : ∀ b ∈ Shader.stageBindings node, '\n' ∉ b.1.toList) (hs : '\\' ∉ sampler.toList)
    (hr : rebindPrevious code sampler (Shader.cubeAnchor config) = .ok code') : HasLine code' c.line := by
  have hname : '\n' ∉ c.name.toList := by
    rw [BoundValue.name_of_declaration hc]
    exact notMem_uniformName (hkeys b hb)
  rw [cubeAnchor_eq] at hr
  exact (h.guarded hkeys).rebindPrevious (notMem_declarationLine hname _ _)
    (prefix_declarationLine ..) hs hr

/-- The arrays of an iteration are those of its template, as the numbers of a loop are no arrays. -/
private theorem get?_of_get?_firstIteration {template : RenderPass} {l : Loop} {k : Nat} {name : String}
    {u : Uniform} (h : (firstIteration template l k).uniforms.get? name = some u)
    (hu : u.type.isArray = true) : template.uniforms.get? name = some u := by
  simp only [firstIteration, iterationUniforms] at h
  split at h
  · exact get?_of_get?_insert (get?_of_get?_insert h hu rfl) hu rfl
  · exact h

/-- An array among the uniforms of the pass of a stage is a bound value of the node. Its line stands in
the program, unless the pass is a later iteration and a key holds the end of a line. -/
theorem IsStagePass.exists_declaration {p : RenderPass} (h : IsStagePass scene p) {name : String}
    {u : Uniform} (hu : p.uniforms.get? name = some u) (ht : u.type.isArray = true) :
    ∃ n ∈ scene.graph.nodeList, n.stages ≠ [] ∧ ∃ b ∈ Shader.stageBindings n, ∃ c,
      b.2.declaration scene.fallback (n.uniformName b.1) = .ok c ∧ c.name = name ∧ c.uniform = u ∧
        (HasLine p.fragment c.line ∨ (∃ k, 0 < k ∧ p.loopIndex = some k) ∧
          ∃ b' ∈ Shader.stageBindings n, '\n' ∈ b'.1.toList) := by
  obtain ⟨n, node, stage, previous, t₀, t, u', template, l, passes, -, hnode, hstage, hbuild, hiter,
    hp⟩ := h
  obtain ⟨cs, hprogram⟩ := (leads_buildStage_program (@yields_stageProgram_declarations scene node)
    t₀).of_run_ok hbuild
  have hloop := ((leads_buildStage_course stage previous).of_run_ok hbuild).1
  have hbase : l.base ≠ "" := by
    rw [(Item.loop_eq_ok hloop).1]
    exact stageKey_ne node stage
  refine ⟨node, Graph.mem_nodeList_iff.2 hnode, List.ne_nil_of_mem hstage, ?_⟩
  obtain ⟨k, hk, hturn⟩ :=
    exists_of_forall₂ ((ends_iterations_turns scene template hbase).of_run_ok hiter).1 hp
  have hlt := List.mem_range.1 hk
  rcases Nat.eq_zero_or_pos k with rfl | hpos
  · obtain rfl := hturn.eq_firstIteration
    obtain ⟨b, hb, c, hbc, hname, huniform, hline⟩ :=
      hprogram.exists_of_get? (get?_of_get?_firstIteration hu ht) ht
    exact ⟨b, hb, c, hbc, hname, huniform, Or.inl hline.hasLine⟩
  · obtain ⟨fragment, hrebind, rfl⟩ := hturn.exists_eq hpos
    have hfirst := get?_of_get?_firstIteration (get?_of_get?_insert hu ht rfl) ht
    obtain ⟨b, hb, c, hbc, hname, huniform, hline⟩ := hprogram.exists_of_get? hfirst ht
    refine ⟨b, hb, c, hbc, hname, huniform, ?_⟩
    by_cases hkeys : ∀ b ∈ Shader.stageBindings node, '\n' ∉ b.1.toList
    · exact Or.inl (hline.rebindPrevious hb hbc hkeys (notMem_samplerName _) hrebind)
    · simp only [not_forall, not_not] at hkeys
      obtain ⟨b', hb', hbroken⟩ := hkeys
      have hmany : l.isLoop = true := by
        rw [Loop.isLoop, decide_eq_true_eq]
        omega
      exact Or.inr ⟨⟨k, hpos, if_pos hmany⟩, b', hb', hbroken⟩

end Plan

end RenderGraph
