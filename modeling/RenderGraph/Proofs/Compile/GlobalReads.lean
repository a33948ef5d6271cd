import RenderGraph.Proofs.Compile.Scoping
import RenderGraph.Proofs.Plan.Declared
import RenderGraph.Proofs.Shader.InnerScoping

/-!
# Global values inside compounds

The body of a compound takes what an edge brings: from a node of a global value it reads the uniform of
that value by name, wherever the node stands. The declaration is made elsewhere, by the nodes that are
brought into the program. A node that stands inside the scope of a compound is brought by the compound,
but one that stands outside is brought only if it is searched for itself, and the search for the nodes of
a pass does not follow the edges inside a compound. So the body may read a uniform that no one declares.

## Main definitions

* `Graph.SuppliesGlobal`: a node whose global value an edge brings
* `Shader.ReadsGlobals`: a property of all global values that the body of a compound reads
* `RenderPass.DeclaresUniform`: a uniform with a line that declares it
* `Plan.Drawing.DeclaresOrLacks`: a global value that a pass declares, unless its node is not brought

## Main results

* `Shader.readsGlobals_of_compoundWithin`: the global values that the body of a compound reads
* `Shader.exists_compoundWithin_of_brings`: the compounds of a program have bodies
* `Compile.globals_declared_or_unbrought`: the global values that compounds read in the passes of a
  compilation
-/

namespace RenderGraph

/-- The node has a global value, and an edge brings it. -/
def Graph.SuppliesGlobal (g : Graph) (n : Node) : Prop :=
  n.kind = .globalVar ∧ ∃ e ∈ g.edges, g.node? e.source = some n

namespace Shader

variable {scene : Scene} {scope : String} {n g : Node} {port : Port}

/-! ### What bodies read -/

theorem eq_of_sourceReference {source : Node} {output : Option String}
    (h : sourceReference scope source output = .global g) : source = g ∧ g.kind = .globalVar := by
  unfold sourceReference at h
  split at h
  · cases h
  · split at h
    · next hk =>
      cases h
      exact ⟨rfl, hk⟩
    · cases h

theorem Argument.InnerRefers.suppliesGlobal (h : InnerRefers scene scope n port (.global g)) :
    scene.graph.SuppliesGlobal g := by
  generalize hr : Reference.global g = r at h
  cases h with
  | @edge e source he hs =>
    obtain ⟨rfl, hk⟩ := eq_of_sourceReference hr.symm
    exact ⟨hk, e, List.mem_of_mem_filter he, hs⟩
  | bound | empty | emptyCube => cases hr

/-- The statements of a compound read global values that edges bring. -/
theorem suppliesGlobal_of_compoundStatements {compound : Node} {ss : List Statement}
    (h : compoundStatements scene compound = .ok ss) {s : Statement} (hs : s ∈ ss)
    (hg : .global g ∈ s.reads scene.config) : scene.graph.SuppliesGlobal g := by
  obtain ⟨calls, hcalls, h⟩ := Fault.bind_eq_ok_iff.1 h
  obtain ⟨assignments, hassignments, h⟩ := Fault.bind_eq_ok_iff.1 h
  cases h
  rcases List.mem_append.1 hs with hs | hs
  · obtain ⟨call, hcall, hs⟩ := List.mem_flatten.1 hs
    obtain ⟨n, -, hcall⟩ := exists_of_forall₂ (forall₂_of_mapM hcalls) hcall
    rcases refers_of_innerStatements hcall s hs _ hg with hr | ⟨port, -, hr⟩ | ⟨port, -, hr⟩
    · cases hr
    · exact hr.suppliesGlobal
    · cases hr
  · obtain ⟨port, -, hs⟩ := exists_of_forall₂ (forall₂_of_mapM hassignments) hs
    rcases refers_of_innerAssignment hs _ hg with ⟨p, -, e, he, source, hsource, hr⟩ | hr | hr
    · obtain ⟨rfl, hk⟩ := eq_of_sourceReference hr.symm
      exact ⟨hk, e, List.mem_of_mem_filter he, hsource⟩
    · cases hr
    · cases hr

/-- The body of a compound ends with its statements, and every global value that they read has a
property. -/
def ReadsGlobals (scene : Scene) (compound : Node) (body : String) (P : Node → Prop) : Prop :=
  ∃ (front : String) (ss : List Statement), compoundStatements scene compound = .ok ss ∧
    body = front ++ " \x7b\n" ++ "\n".intercalate (ss.map (Statement.text scene)) ++ "\n\x7d\n" ∧
    ∀ s ∈ ss, ∀ g, .global g ∈ s.reads scene.config → P g

theorem ReadsGlobals.mono {compound : Node} {body : String} {P Q : Node → Prop}
    (h : ReadsGlobals scene compound body P) (hPQ : ∀ g, P g → Q g) :
    ReadsGlobals scene compound body Q := by
  obtain ⟨front, ss, hss, hbody, hreads⟩ := h
  exact ⟨front, ss, hss, hbody, fun s hs g hg => hPQ g (hreads s hs g hg)⟩

/-- The body of a compound reads global values that edges bring. -/
theorem readsGlobals_of_compoundWithin {fuel : Nat} {stack : List String} {compound : Node}
    {body : String} (h : compoundWithin scene fuel stack compound = .ok body) :
    ReadsGlobals scene compound body scene.graph.SuppliesGlobal := by
  obtain ⟨front, ss, hss, hbody⟩ := exists_statements_of_compoundWithin h
  exact ⟨front, ss, hss, hbody, fun s hs g hg => suppliesGlobal_of_compoundStatements hss hs hg⟩

/-! ### Bodies in a program -/

/-- The compounds inside a compound that has a body have bodies. -/
theorem exists_compoundWithin_of_child {fuel : Nat} {stack : List String} {compound inner : Node}
    {body : String} (h : compoundWithin scene fuel stack compound = .ok body)
    (hi : inner ∈ scene.graph.children (some compound.id)) (hk : inner.kind = .compound) :
    ∃ fuel stack body, compoundWithin scene fuel stack inner = .ok body := by
  cases fuel with
  | zero => cases h
  | succ fuel =>
    unfold compoundWithin at h
    by_cases hstack : compound.id ∈ stack
    · simp only [hstack, if_true] at h
      cases h
    · simp only [hstack, if_false] at h
      obtain ⟨functions, hfunctions, -⟩ := Fault.bind_eq_ok_iff.1 h
      obtain ⟨code, hcode⟩ := exists_of_mapM hfunctions
        (List.mem_filter.2 ⟨hi, by rw [hk]; rfl⟩)
      rw [if_pos hk] at hcode
      obtain ⟨source, hsource, -⟩ := Fault.bind_eq_ok_iff.1 hcode
      exact ⟨fuel, _, source, hsource⟩

/-- The compounds that are brought into a program have bodies. -/
theorem exists_compoundWithin_of_brings {order : List Node} {functions : List String} {c : Node}
    (h : order.mapM (nodeFunctions scene) = .ok functions) (hc : scene.Brings order c)
    (hk : c.kind = .compound) : ∃ fuel stack body, compoundWithin scene fuel stack c = .ok body := by
  induction hc with
  | @listed c hc =>
    obtain ⟨code, hcode⟩ := exists_of_mapM h hc
    unfold nodeFunctions at hcode
    obtain ⟨role, hrole, hcode⟩ := Fault.bind_eq_ok_iff.1 hcode
    rw [hk] at hrole
    cases hrole
    dsimp only at hcode
    rw [if_pos hk] at hcode
    obtain ⟨body, hbody, -⟩ := Fault.bind_eq_ok_iff.1 hcode
    exact ⟨_, _, body, hbody⟩
  | inner _ houter hn ih =>
    obtain ⟨fuel, stack, body, hbody⟩ := ih houter
    exact exists_compoundWithin_of_child hbody hn hk

end Shader

/-! ### Passes -/

/-- The pass has a uniform of the name, and its program has a line that declares it. -/
def RenderPass.DeclaresUniform (p : RenderPass) (name : String) : Prop :=
  ∃ u length, p.uniforms.get? name = some u ∧
    Plan.HasLine p.fragment (declarationLine name u.type length)

namespace Plan.Drawing

variable {scene : Scene} {p : RenderPass} (d : Drawing scene p)

include d in
/-- What stands among the uniforms of the pass has been declared. -/
theorem declaresUniform {name : String} {u : Uniform} (h : p.uniforms.get? name = some u) :
    p.DeclaresUniform name := by
  obtain ⟨_, -, c, -, rfl, rfl, hline⟩ := d.exists_of_get?_uniforms h
  exact ⟨c.uniform, c.length, h, hline⟩

/-- The pass declares the global values of the nodes that are brought into it. -/
theorem declaresUniform_of_brings {g : Node} (hg : scene.Brings d.subgraph.order g)
    (hk : g.kind = .globalVar) : p.DeclaresUniform g.globalUniformName := by
  have hmem : g.globalDeclaration scene.fallback ∈ g.declarations scene.fallback := by
    simp only [Node.declarations, hk, List.mem_singleton]
  obtain ⟨c, u, hc, hu⟩ := d.exists_get?_uniforms hg hmem
  obtain ⟨_, -, hc⟩ := Fault.bind_eq_ok_iff.1 hc
  obtain ⟨_, -, hc⟩ := Fault.bind_eq_ok_iff.1 hc
  cases hc
  exact d.declaresUniform hu

/-- The pass declares a global value, or its node is not brought into the pass, and no uniform has its
name. -/
def DeclaresOrLacks (g : Node) : Prop :=
  p.DeclaresUniform g.globalUniformName ∨
    ¬ scene.Brings d.subgraph.order g ∧ p.uniforms.get? g.globalUniformName = none

theorem declaresOrLacks {g : Node} (hk : g.kind = .globalVar) : d.DeclaresOrLacks g := by
  cases hget : p.uniforms.get? g.globalUniformName with
  | some u => exact Or.inl (d.declaresUniform hget)
  | none =>
    refine Or.inr ⟨fun hbrought => ?_, hget⟩
    obtain ⟨u, _, hu, -⟩ := d.declaresUniform_of_brings hbrought hk
    rw [hget] at hu
    cases hu

end Plan.Drawing

namespace Compile

open Shader (Program ReadsGlobals Statement compoundBody compoundStatements compoundWithin)

variable {scene : Scene} {target : Target} {r : Result} {log : List Journal.Record} {p : RenderPass}

/-- In every pass that is not drawn for a stage, the global value of each node is declared, unless the
node is not brought into the pass, and no uniform has its name. Each compound that is brought into the
pass has a body, and the global values that its body reads are such values, each brought by an edge. -/
theorem globals_declared_or_unbrought (h : compile scene target = (.ok r, log)) (hf : r.failure = none)
    (hp : p ∈ r.passes) : Plan.IsStagePass scene p ∨ ∃ d : Plan.Drawing scene p,
      (∀ g, g.kind = .globalVar → d.DeclaresOrLacks g) ∧
      ∀ c, scene.Brings d.subgraph.order c → c.kind = .compound →
        (∃ fuel stack body, compoundWithin scene fuel stack c = .ok body) ∧
        ∀ fuel stack body, compoundWithin scene fuel stack c = .ok body →
          ReadsGlobals scene c body fun g => scene.graph.SuppliesGlobal g ∧ d.DeclaresOrLacks g := by
  obtain ⟨s, hs, hpasses, -⟩ := exists_steps_of_compile h hf
  obtain ⟨before, after, hsplit⟩ := List.append_of_mem hp
  refine (Plan.exists_drawing (hs.steps.origin rfl (hpasses.trans hsplit))).imp_right ?_
  rintro ⟨d, -⟩
  obtain ⟨_, functions, _, -, hfunctions, -⟩ := Shader.exists_parts_of_fragment d.written
  refine ⟨d, fun g hk => d.declaresOrLacks hk, fun c hc hk => ?_⟩
  refine ⟨Shader.exists_compoundWithin_of_brings hfunctions hc hk, fun fuel stack body hbody => ?_⟩
  exact (Shader.readsGlobals_of_compoundWithin hbody).mono fun g hg => ⟨hg, d.declaresOrLacks hg.1⟩

/-- A node with a number as its global value. -/
def numberGlobal (scope : Option String) : Node :=
  { id := "g", kind := .globalVar, outputType := .float, globalName := some "k", globalValue := .int 1,
    scope }

/-- A compound that gives a number. -/
def numberCompound : Node :=
  { id := "C", kind := .compound, outputs := [.ofId "r" .float] }

/-- The compound gives the global value, whose node stands in a scope. -/
def numberScene (scope : Option String) : Scene where
  graph := .ofLists
    [numberGlobal scope,
      { id := "z", kind := .graphOutput, inputs := [.ofId "r" .float], scope := some "C" },
      numberCompound]
    [{ source := "g", target := "z", sourcePort := some "out", targetPort := some "r" }]
  config := {}

theorem globals_declared_or_unbrought_inside : ∃ r log p,
    compile (numberScene (some "C")) { node := some "C" } = (.ok r, log) ∧ r.failure = none ∧
      p ∈ r.passes ∧ ∃ d : Plan.Drawing (numberScene (some "C")) p,
        (∀ g, g.kind = .globalVar → d.DeclaresOrLacks g) ∧
        ∀ c, (numberScene (some "C")).Brings d.subgraph.order c → c.kind = .compound →
          (∃ fuel stack body, compoundWithin (numberScene (some "C")) fuel stack c = .ok body) ∧
          ∀ fuel stack body, compoundWithin (numberScene (some "C")) fuel stack c = .ok body →
            ReadsGlobals (numberScene (some "C")) c body fun g =>
              (numberScene (some "C")).graph.SuppliesGlobal g ∧ d.DeclaresOrLacks g := by
  have hrun : succeedsWith (numberScene (some "C")) { node := some "C" }
      (fun r => r.passes.any (·.id == "C")) = true := by
    decide +kernel
  obtain ⟨r, log, hr, hf, htest⟩ := exists_of_succeedsWith hrun
  obtain ⟨p, hp, -⟩ := List.any_eq_true.1 htest
  exact ⟨r, log, p, hr, hf, hp,
    (globals_declared_or_unbrought hr hf hp).resolve_left (Plan.not_isStagePass (by decide +kernel))⟩

/-- The statements of the compound. -/
def numberStatements : List Statement :=
  [.assign (.ofId "r" .float) (.value (.global (numberGlobal none)) .float .float)]

/-- The program of the compound, where the node of the global value stands outside. -/
def numberProgram : Program where
  textures := []
  uniforms := []
  functions := ["// Node: C\n\nvoid node_C_run(vec2 uv, out float r) \x7b\n  r = k;\n\x7d\n\n\n"]
  statements :=
    [.output numberCompound (.ofId "r" .float), .call numberCompound [] [.ofId "r" .float],
      .colour (.value (.output numberCompound (.ofId "r" .float)) .float .vec4)]

/-- The compilation of the compound succeeds, and its body reads the global value from outside, but the
pass has no uniform of its name, and its program declares none. -/
theorem outer_global_undeclared : ∃ r log p body front,
    compile (numberScene none) { node := some "C" } = (.ok r, log) ∧ r.failure = none ∧
      p ∈ r.passes ∧ compoundBody (numberScene none) numberCompound = .ok body ∧
      compoundStatements (numberScene none) numberCompound = .ok numberStatements ∧
      body = front ++ " \x7b\n" ++
        "\n".intercalate (numberStatements.map (Statement.text (numberScene none))) ++ "\n\x7d\n" ∧
      (∃ s ∈ numberStatements, .global (numberGlobal none) ∈ s.reads (numberScene none).config) ∧
      p.uniforms.get? (numberGlobal none).globalUniformName = none ∧
      p.fragment = numberProgram.text (numberScene none) ∧ numberProgram.uniforms = [] := by
  have hrun : succeedsWith (numberScene none) { node := some "C" } (fun r => r.passes.any fun p =>
      (p.uniforms.get? (numberGlobal none).globalUniformName).isNone &&
        p.fragment == numberProgram.text (numberScene none)) = true := by
    decide +kernel
  have hbody : (compoundBody (numberScene none) numberCompound).isOk = true := by
    decide +kernel
  have hstatements : compoundStatements (numberScene none) numberCompound = .ok numberStatements := rfl
  obtain ⟨r, log, hr, hf, htest⟩ := exists_of_succeedsWith hrun
  obtain ⟨p, hp, htest⟩ := List.any_eq_true.1 htest
  obtain ⟨hnone, hfragment⟩ := Bool.and_eq_true_iff.1 htest
  obtain ⟨body, hbody⟩ := exists_of_isOk hbody
  obtain ⟨front, ss, hss, htext⟩ := Shader.exists_statements_of_compoundWithin hbody
  obtain rfl := Except.ok.inj (hstatements.symm.trans hss)
  refine ⟨r, log, p, body, front, hr, hf, hp, hbody, hstatements, htext, ⟨_, List.mem_cons_self, ?_⟩,
    Option.isNone_iff_eq_none.1 hnone, eq_of_beq hfragment, rfl⟩
  simp [Statement.reads, Shader.Expression.references]

end Compile

end RenderGraph
