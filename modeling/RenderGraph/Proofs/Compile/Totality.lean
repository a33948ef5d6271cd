import RenderGraph.Proofs.Compile.Run
import RenderGraph.Proofs.Plan.Traversal

/-!
# Compilation of well-formed graphs

A well-formed graph is compiled whatever its cycles are: passes, nodes or stages that depend on each
other and edges that lead nowhere are no obstacle. What may stop the compilation of an existing output,
beside values that cannot be packed, is a handle, a stage or a widget that cannot be read.

## Main definitions

* `Graph.WellFormed`

## Main results

* `ReadingFault.eq_or`: which faults readers raise
* `Compile.compile_of_wellFormed`: a well-formed graph is compiled unless something cannot be read
-/

namespace RenderGraph

/-- Every edge has a source, every multi-stage node has a stage, and no compound stands inside its own
scope. -/
structure Graph.WellFormed (g : Graph) : Prop where
  source : ∀ e ∈ g.edges, g.contains e.source = true
  stages : ∀ n ∈ g.nodeList, n.kind = .multiStage → n.stages ≠ []
  scope : ∀ c, ¬ Relation.TransGen g.Encloses c c

variable {scene : Scene} {f : Fault}

/-- Nothing is wrong with a well-formed graph. -/
theorem Graph.WellFormed.not_graphFault (h : scene.graph.WellFormed) : ¬ GraphFault scene f := by
  rintro (@⟨e, he, hs⟩ | @⟨c, hc⟩ | @⟨n, hn, hk, hs⟩)
  · have hcontains := h.source e he
    rw [Graph.contains, Keyed.contains_eq_isSome] at hcontains
    rw [Graph.node?] at hs
    rw [hs] at hcontains
    cases hcontains
  · exact h.scope c hc
  · exact h.stages n hn hk hs

/-- A graph whose compounds stand in no scope is well-formed if its edges and stages are. -/
theorem Graph.wellFormed_of_flat {g : Graph}
    (hs : ∀ e ∈ g.edges, g.contains e.source = true)
    (hm : ∀ n ∈ g.nodeList, n.kind = .multiStage → n.stages.length ≠ 0)
    (hk : ∀ n ∈ g.nodeList, n.kind = .compound → n.scope = none) : g.WellFormed where
  source := hs
  stages := by
    rintro n hn hkind hnil
    exact hm n hn hkind (by rw [hnil]; rfl)
  scope := by
    intro c h
    obtain ⟨_, -, n, hn, hkind, -, hscope⟩ := Relation.TransGen.tail'_iff.1 h
    rw [hk n hn hkind] at hscope
    cases hscope

/-- There is nothing to pack where nothing is bound, no value is global and no input is exposed. -/
theorem not_packingFault_of_plain (hu : ∀ n ∈ scene.graph.nodeList, n.uniforms.size = 0)
    (hk : ∀ n ∈ scene.graph.nodeList, n.kind ≠ .globalVar ∧ n.kind ≠ .graphInput) {length : Int}
    (hl : scene.fallback = .int length) : ¬ PackingFault scene f := by
  have hget {n : Node} (hn : n ∈ scene.graph.nodeList) (key : String) :
      n.uniforms.get? key = none := by
    rw [Keyed.get?, List.length_eq_zero_iff.1 (hu n hn)]
    rfl
  have hcapacity (t : DataType) : BoundValue.capacity t none scene.fallback ≠ .error f := by
    rw [hl]
    simp [BoundValue.capacity, BoundValue.fallbackCapacity, Except.map]
  rintro (⟨hn, -, -, h⟩ | ⟨-, -, -, -, -, h⟩ | ⟨hn, hb, -⟩ | ⟨hn, hg, -⟩ | ⟨hn, hi, -⟩)
  · rw [Shader.portCapacity, hget hn] at h
    exact hcapacity _ h
  · exact hcapacity _ h
  · rw [hget hn] at hb
    cases hb
  · exact (hk _ hn).1 hg
  · exact (hk _ hn).2 hi

/-- There is nothing to read where no handle has an index, no node has a stage and no input is an
array. -/
theorem not_readingFault_of_plain
    (he : ∀ e ∈ scene.graph.edges, e.arrayElement.toOption.isSome = true)
    (hs : ∀ n ∈ scene.graph.nodeList, n.stages.length = 0)
    (ha : ∀ n ∈ scene.graph.nodeList, ∀ port ∈ n.inputs, port.type.isArray = false) :
    ¬ ReadingFault scene f := by
  have hstage {n : Node} (hn : n ∈ scene.graph.nodeList) {stage : Stage} (hm : stage ∈ n.stages) :
      False := by
    rw [List.length_eq_zero_iff.1 (hs n hn)] at hm
    cases hm
  rintro (⟨hmem, h⟩ | ⟨hn, hm, -⟩ | ⟨hn, hm, -⟩ | ⟨hn, hm, -, -⟩ | ⟨hn, hp, ht, -⟩)
  · have hread := he _ hmem
    rw [h] at hread
    cases hread
  · exact hstage hn hm
  · exact hstage hn hm
  · exact hstage hn hm
  · rw [ha _ hn _ hp] at ht
    cases ht

/-- There is no cause of failure in a plain scene. -/
theorem not_cause_of_plain (hs : ∀ e ∈ scene.graph.edges, scene.graph.contains e.source = true)
    (hk : ∀ n ∈ scene.graph.nodeList, n.kind = .compound → n.scope = none)
    (hu : ∀ n ∈ scene.graph.nodeList, n.uniforms.size = 0)
    (hp : ∀ n ∈ scene.graph.nodeList, n.kind ≠ .multiStage ∧ n.kind ≠ .globalVar ∧ n.kind ≠ .graphInput)
    {length : Int} (hl : scene.fallback = .int length)
    (he : ∀ e ∈ scene.graph.edges, e.arrayElement.toOption.isSome = true)
    (hstages : ∀ n ∈ scene.graph.nodeList, n.stages.length = 0)
    (ha : ∀ n ∈ scene.graph.nodeList, ∀ port ∈ n.inputs, port.type.isArray = false) :
    ¬ Cause scene f := by
  have hg : scene.graph.WellFormed :=
    Graph.wellFormed_of_flat hs (fun n hn hm => absurd hm (hp n hn).1) hk
  rintro (h | h | h)
  · exact hg.not_graphFault h
  · exact not_packingFault_of_plain hu (fun n hn => (hp n hn).2) hl h
  · exact not_readingFault_of_plain he hstages ha h

/-! ### Faults of readers -/

private theorem failsIn_overloadsFrom (directive : Option String) (index : Nat)
    (tokens : List Source.Token) :
    FailsIn (Source.overloadsFrom directive index tokens) (· = .longNumeral) := by
  induction tokens generalizing directive index with
  | nil => trivial
  | cons t ts ih =>
    unfold Source.overloadsFrom
    dsimp only
    split
    · refine FailsIn.bind (FailsIn.bind ?_ fun _ _ => trivial) fun o _ => (ih _ _).bind fun _ _ => trivial
      unfold Source.metadataBehind Source.metadata
      split
      · trivial
      · split
        · trivial
        · exact (Numeral.failsIn_read _).map _
    · exact ih _ _

private theorem failsIn_statedIndex (bound : Option BoundValue) :
    FailsIn (BoundValue.statedIndex bound) (· = .outOfRange) := by
  unfold BoundValue.statedIndex
  split
  · next n _ =>
    cases n with
    | int n =>
      refine FailsIn.bind (FailsIn.map ?_ _) fun finite _ => ?_
      · unfold Number.toDouble Double.ofInt
        dsimp only
        split
        · trivial
        · exact rfl
      · split <;> trivial
    | float x =>
      refine FailsIn.bind (.of_eq_ok rfl) fun finite hfinite => ?_
      split
      · next hf =>
        -- A finite number is not NaN, so that it can be rounded.
        have hx : x.isFinite = true := by
          cases hfinite
          exact hf
        have hnan : x.isNaN = false := by
          simp only [Double.isFinite, Double.isNaN, decide_eq_true_eq, decide_eq_false_iff_not] at hx ⊢
          omega
        exact .of_eq_ok (a := _) (by simp [Number.round, Double.round, Double.toIntBy, hnan, hx]; rfl)
      · trivial
  · trivial

private theorem failsIn_interface (code : String) :
    FailsIn (Source.interface code) (· = .longNumeral) := by
  unfold Source.interface
  refine FailsIn.bind (failsIn_overloadsFrom _ _ _) fun all _ => ?_
  dsimp only
  split <;> trivial

private theorem failsIn_body (stage : Stage) : FailsIn stage.body (· = .wrongShape) := by
  unfold Stage.body
  split
  · trivial
  · exact rfl

private theorem failsIn_loopCount (stage : Stage) (body : String) :
    FailsIn (stage.loopCount body) (· = .longNumeral) := by
  unfold Stage.loopCount Stage.pragmaLoop
  split
  · trivial
  · refine FailsIn.map ?_ _
    split
    · exact (Numeral.failsIn_read _).map _
    · trivial

/-- Readers complain of numerals that are too long, of bodies that are absent, and of numbers that are
too great. -/
theorem ReadingFault.eq_or (h : ReadingFault scene f) :
    f = .longNumeral ∨ f = .wrongShape ∨ f = .outOfRange := by
  rcases h with ⟨-, h⟩ | ⟨-, -, h⟩ | ⟨-, -, h⟩ | ⟨-, -, -, h⟩ | ⟨-, -, -, h⟩
  · exact Or.inl (failsIn_iff.1 (Edge.failsIn_arrayElement _) f h)
  · exact Or.inl (failsIn_iff.1 (failsIn_interface _) f h)
  · exact Or.inr (Or.inl (failsIn_iff.1 (failsIn_body _) f h))
  · exact Or.inl (failsIn_iff.1 (failsIn_loopCount _ _) f h)
  · exact Or.inr (Or.inr (failsIn_iff.1 (failsIn_statedIndex _) f h))

/-- Faults of readers are not reported in a result. -/
theorem ReadingFault.isCompilation_eq_false (h : ReadingFault scene f) : f.isCompilation = false := by
  rcases h.eq_or with rfl | rfl | rfl <;> rfl

namespace Compile

variable {target : Target} {node : Node} {id : String}

/-- An existing output of a well-formed graph is compiled, if values can be packed, unless something
cannot be read. The empty id stands for no output at all. -/
theorem compile_of_wellFormed (hg : scene.graph.WellFormed) (hp : ∀ f, ¬ PackingFault scene f)
    (ht : target.node = some id) (hn : scene.graph.node? id = some node) (he : target.Exists node) :
    (∃ r log, compile scene target = (.ok r, log) ∧
        r.failure = if id = "" then some "No output node selected." else none) ∨
      ∃ f log, compile scene target = (.error f, log) ∧ ReadingFault scene f := by
  by_cases hid : id = ""
  · subst hid
    unfold compile
    rw [ht]
    exact Or.inl ⟨_, _, rfl, rfl⟩
  · rw [if_neg hid]
    refine (compile_or_cause ht hid hn he).imp_right ?_
    rintro ⟨f, s, hc, hcause⟩
    have hreading : ReadingFault scene f := by
      rcases hcause with h | h | h
      · exact absurd h hg.not_graphFault
      · exact absurd h (hp f)
      · exact h
    refine ⟨f, s.journal, ?_, hreading⟩
    rw [hc]
    simp [resultOf, hreading.isCompilation_eq_false]

/-- A graph with cycles of every sort: a node that feeds itself, two nodes that read each other as
textures, two stages that refer to each other, and an edge to an input that does not exist. -/
def tangle : Scene where
  graph := .ofLists
    [{ id := "a", inputs := [.ofId "i" .sampler2D, .ofId "x" .vec4], outputs := [.ofId "o" .vec4] },
      { id := "b", inputs := [.ofId "i" .sampler2D, .ofId "y" .vec4], outputs := [.ofId "o" .vec4] },
      { id := "m", kind := .multiStage,
        stages := [{ id := "s", source := some "u_pass_t" }, { id := "t", source := some "u_pass_s" }] }]
    [{ source := "b", target := "a", sourcePort := some "o", targetPort := some "i" },
      { source := "a", target := "a", sourcePort := some "o", targetPort := some "x" },
      { source := "a", target := "b", sourcePort := some "o", targetPort := some "i" },
      { source := "m", target := "b", sourcePort := some "o", targetPort := some "y" },
      { source := "a", target := "b", sourcePort := some "o", targetPort := some "gone" }]
  config := {}

theorem compile_of_wellFormed_tangle :
    tangle.graph.WellFormed ∧ (∀ f, ¬ PackingFault tangle f) ∧
      ((∃ r log, compile tangle { node := some "b" } = (.ok r, log) ∧ r.failure = none) ∨
        ∃ f log, compile tangle { node := some "b" } = (.error f, log) ∧ ReadingFault tangle f) := by
  have hg : tangle.graph.WellFormed :=
    Graph.wellFormed_of_flat (by decide +kernel) (by decide +kernel) (by decide +kernel)
  have hp (f : Fault) : ¬ PackingFault tangle f :=
    not_packingFault_of_plain (by decide +kernel) (by decide +kernel) rfl
  obtain ⟨node, hn⟩ : ∃ node, tangle.graph.node? "b" = some node :=
    Option.isSome_iff_exists.1 (by decide +kernel)
  have he : Target.Exists { node := some "b" } node := Or.inr (Or.inl rfl)
  exact ⟨hg, hp, compile_of_wellFormed hg hp rfl hn he⟩

/-- Two nodes without inputs. -/
def sources : List Node :=
  [{ id := "a", outputs := [.ofId "o" .vec4] }, { id := "b", outputs := [.ofId "o" .vec4] }]

/-- A graph with an edge to a port that does not exist. -/
def stale (handle : String) : Scene where
  graph := .ofLists sources
    [{ source := "a", target := "b", sourcePort := some "o", targetPort := some handle }]
  config := {}

/-- A handle with a given number of digits. -/
def handleOf (digits : Nat) : String :=
  "i__" ++ String.ofList (List.replicate digits '1')

/-- A search stops at a handle that cannot be read, also where no input answers to it. -/
private theorem ends_collect_stale {σ : Type} {host : Plan.Host σ} {handle : String} {f : Fault}
    (h : arrayElement handle = .error f) (t : σ) :
    Ends (Plan.collect (stale handle).graph host "b") (fun _ _ => False)
      (fun f' t' => f' = f ∧ t' = t) t := by
  unfold Plan.collect Plan.visit
  rw [if_neg (by decide), if_neg (by decide), ends_bind, ends_lift]
  show Ends ((List.foldlM _ _ [_]) >>= _) _ _ t
  rw [List.foldlM_cons, bind_assoc, ends_bind]
  unfold Plan.follow
  rw [ends_bind, ends_lift]
  show Ends (liftM (Plan.feedsElement _ _ _) >>= _) _ _ t
  rw [ends_bind, ends_lift]
  unfold Plan.feedsElement
  rw [yields_bind]
  show Yields (arrayElement handle) _ _
  rw [h]
  exact ⟨rfl, rfl⟩

private theorem ends_planTarget_stale {handle : String} {f : Fault}
    (h : arrayElement handle = .error f) :
    Ends (planTarget (stale handle) "b" none) (fun _ _ => False)
      (fun f' t => f' = f ∧ t.journal = []) {} := by
  unfold planTarget
  rw [ends_bind, ends_lift]
  show Ends (Plan.plan (stale handle) { node := "b" }) _ _ {}
  unfold Plan.plan Plan.planWithin
  rw [ends_bind, ends_lift]
  show Ends (Plan.planOutput (stale handle) _ _ none) _ _ {}
  unfold Plan.planOutput
  rw [ends_bind, ends_get]
  show Ends (Plan.whileActive _ _ >>= _) _ _ {}
  rw [ends_bind, Plan.ends_whileActive]
  unfold Plan.buildPass
  rw [ends_bind]
  refine (ends_collect_stale h _).mono (fun _ _ hf => hf.elim) ?_
  rintro f' t ⟨rfl, rfl⟩
  exact ⟨rfl, rfl⟩

private theorem compile_stale {handle : String} (h : arrayElement handle = .error .longNumeral) :
    (stale handle).graph.WellFormed ∧ (∀ f, ¬ PackingFault (stale handle) f) ∧
      compile (stale handle) { node := some "b" } = (.error .longNumeral, []) := by
  have hnodes : ∀ n ∈ (Graph.keyNodes sources).values,
      n.uniforms.size = 0 ∧ n.kind = .standard := by
    decide +kernel
  have hkind {n : Node} (hn : n ∈ (stale handle).graph.nodeList) : n.kind = .standard :=
    (hnodes n hn).2
  refine ⟨Graph.wellFormed_of_flat ?_ ?_ ?_, fun f => not_packingFault_of_plain ?_ ?_ rfl, ?_⟩
  · rintro e (_ | ⟨_, ⟨⟩⟩)
    exact rfl
  · intro n hn hk
    rw [hkind hn] at hk
    cases hk
  · intro n hn hk
    rw [hkind hn] at hk
    cases hk
  · exact fun n hn => (hnodes n hn).1
  · intro n hn
    rw [hkind hn]
    exact ⟨by decide, by decide⟩
  · have hends := ends_planTarget_stale h
    rcases hr : (planTarget (stale handle) "b" none).run {} with ⟨outcome, s⟩
    have htarget : ({ node := some "b" } : Target).node = some "b" := rfl
    rw [compile_eq_of_run htarget (by decide) hr]
    cases outcome with
    | ok q => exact (hends.of_run_ok hr).elim
    | error f =>
      obtain ⟨rfl, hj⟩ := hends.of_run_error hr
      show (Except.error _, s.journal) = _
      rw [hj]

/-- A well-formed graph with nothing to pack is not compiled: the index of an edge that leads nowhere is
read all the same. -/
theorem compile_stale_eq_error :
    (stale (handleOf 4301)).graph.WellFormed ∧ (∀ f, ¬ PackingFault (stale (handleOf 4301)) f) ∧
      compile (stale (handleOf 4301)) { node := some "b" } = (.error .longNumeral, []) :=
  compile_stale (arrayElement_replicate (by decide))

end Compile

end RenderGraph
