import RenderGraph.Proofs.Compile.Recency
import RenderGraph.Proofs.Compile.Record
import RenderGraph.Proofs.Plan.TwinStages

/-!
# Programs that are used again

After an edit of values the record of a request is the same, unless a recorded length has changed, and a
session answers from what it has kept. A fresh compilation would report the same failure or give the same
passes: they have the same ids, textures, bindings and places in loops, the same warnings were issued, and
the fragment programs are the same as well if the array inputs have the same capacities. The record tells
the capacities of all array inputs but those that are bound to a value of another type, and there a kept
program may differ from a fresh one.

## Main definitions

* `RenderPass.Alike`, `Compile.Result.Alike`: the same programs for uniforms of the same types
* `Compile.Result.Twin`: what is known of the results of twins

## Main results

* `Compile.endAlike_compile`: the compilations of twins
* `Compile.alike_of_record_eq`: the compilations and the kept programs of variants with one record
* `Compile.kept_program_differs`: a kept program that is not the one of the graph
-/

namespace RenderGraph

/-- The passes differ at most in the values of their uniforms and, unless `sized`, in the fragment
program. -/
inductive RenderPass.Alike (sized : Prop) (p : RenderPass) : RenderPass → Prop
  | mk {fragment : String} {uniforms : Keyed Uniform} (hf : EqIf sized p.fragment fragment)
      (hu : p.uniforms.Match (fun _ u v => v.type = u.type) uniforms) :
      Alike sized p { p with fragment, uniforms }

namespace Compile

/-- The results differ at most in the values of uniforms and, unless `sized`, in the fragment programs. -/
structure Result.Alike (sized : Prop) (r r' : Result) : Prop where
  passes : List.Forall₂ (RenderPass.Alike sized) r.passes r'.passes
  failure_eq : r'.failure = r.failure
  warnings_eq : r'.warnings = r.warnings

/-- The results of twins: their passes stand for each other, and all else is the same. -/
structure Result.Twin (sized : Prop) (scene : Scene) (r r' : Result) : Prop where
  passes : List.Forall₂ (Plan.PassTwin sized scene) r.passes r'.passes
  failure_eq : r'.failure = r.failure
  warnings_eq : r'.warnings = r.warnings
  stats_eq : r'.stats = r.stats

variable {sized : Prop} {scene : Scene} {config : Config} {g k : Graph} {target : Target} {r r' : Result}

theorem Result.Alike.fragments_eq (h : r.Alike sized r') (hs : sized) :
    r'.passes.map (·.fragment) = r.passes.map (·.fragment) := by
  refine (map_eq_of_forall₂ h.passes ?_).symm
  rintro p _ ⟨hf, -⟩
  exact hf hs

/-! ### Compilations of twins -/

theorem agrees_planTarget (hg : g.Twin config sized k) (id : String) (port : Option String) :
    Agrees (Plan.StateTwin sized { graph := k, config }) Eq
      (planTarget { graph := g, config } id port) (planTarget { graph := k, config } id port) := by
  refine (Agrees.lift (hg.requireNode id none)).bind fun n m hp => ?_
  have hmulti : m.isMultiStage = n.isMultiStage := by
    obtain ⟨-, -, ⟨-, -, -⟩⟩ := hp
    rfl
  have hfind : m.findOutput port = n.findOutput port := by
    obtain ⟨-, -, ⟨-, -, -⟩⟩ := hp
    rfl
  rw [hmulti, hfind]
  split
  · exact Plan.agrees_plan hg _
  · split
    · exact Plan.agrees_plan hg _
    · exact Plan.agrees_plan hg _
    · split
      · exact .throw _
      · exact Plan.agrees_plan hg _

/-- The compilations of twins report the same failure or give passes that stand for each other, and
write the same to the journal, unless a fault is raised. -/
theorem endAlike_compile (hg : g.Twin config sized k) (target : Target) :
    EndAlike Eq (Result.Twin sized { graph := k, config }) (compile { graph := g, config } target)
      (compile { graph := k, config } target) := by
  unfold compile
  split
  · exact .ok ⟨.nil, rfl, rfl, rfl⟩ rfl
  · exact .ok ⟨.nil, rfl, rfl, rfl⟩ rfl
  · next id _ _ =>
    have hr := agrees_planTarget hg id target.port {} {} (.mk .nil)
    generalize (planTarget { graph := g, config } id target.port).run {} = p at hr ⊢
    generalize (planTarget { graph := k, config } id target.port).run {} = q at hr ⊢
    cases hr with
    | ok _ hs =>
      obtain ⟨hs⟩ := hs
      exact .ok ⟨hs, rfl, rfl, by rw [hs.length_eq]⟩ rfl
    | fault f hs =>
      obtain ⟨-⟩ := hs
      dsimp only [resultOf]
      split
      · exact .ok ⟨.nil, rfl, rfl, rfl⟩ rfl
      · exact .fault f rfl
    | left q hf =>
      dsimp only [resultOf]
      rw [if_neg (by simp [hf])]
      exact .left _ hf
    | right p hf =>
      dsimp only [resultOf]
      rw [if_neg (by simp [hf])]
      exact .right _ hf

/-! ### Kept results -/

/-- Uniforms with new values: each is the new one of its name if there is one of its type. -/
theorem match_refresh {R R' : String → Uniform → Uniform → Prop} {news us vs : Keyed Uniform}
    (h : us.Match R vs)
    (hnew : ∀ name u v w, R name u v → news.get? name = some w → w.type = u.type → R' name w v)
    (hold : ∀ name u v, R name u v → (∀ w, news.get? name = some w → w.type ≠ u.type) → R' name u v) :
    (Shader.refresh news us).Match R' vs := by
  unfold Shader.refresh
  refine h.mapWithKey fun name u v huv => ?_
  split
  · next w hw =>
    split
    · next htype => exact hnew name u v w huv hw htype
    · next htype =>
      refine hold name u v huv fun w' hw' => ?_
      obtain rfl : w = w' := Option.some.inj (hw.symm.trans hw')
      exact htype
  · next hnone =>
    refine hold name u v huv fun w hw => ?_
    cases hnone.symm.trans hw

/-- A pass with new values still has the programs of the passes that it stands for. -/
theorem alike_refresh {p q : RenderPass} (h : Plan.PassTwin sized scene p q) (news : Keyed Uniform) :
    (p.refresh news).Alike sized q := by
  rcases h with @⟨fragment, uniforms, hf, hu⟩
  have hrefresh : (Shader.refresh news p.uniforms).Match (fun _ u v => v.type = u.type) uniforms :=
    match_refresh hu (fun _ _ _ _ huv _ htype => huv.type_eq.trans htype.symm)
      fun _ _ _ huv _ => huv.type_eq
  exact .mk hf hrefresh

/-- A kept result with new values is like the result of the twin. -/
theorem Result.Twin.alike_served (h : r.Twin sized scene r') (news : Keyed Uniform) (stats : Stats) :
    ({ r with passes := refreshPasses news r.passes, stats } : Result).Alike sized r' where
  passes := List.forall₂_map_left_iff.2 (h.passes.imp fun _ _ hpq => alike_refresh hpq news)
  failure_eq := h.failure_eq
  warnings_eq := h.warnings_eq

theorem Result.Twin.alike (h : r.Twin sized scene r') : r.Alike sized r' where
  passes := h.passes.imp fun _ _ ⟨hf, hu⟩ => .mk hf (hu.imp fun _ _ _ _ _ h => h.type_eq)
  failure_eq := h.failure_eq
  warnings_eq := h.warnings_eq

/-- A session answers from a result that is kept. -/
theorem run_compile_of_kept {text : String} {s : Session} (hs : s.config = config)
    (hk : record { graph := k, config } target = .ok text)
    (hr : s.cache.get? (Sha256.hexDigest text) = some r) :
    ((Session.compile k target).run s).1 = Session.reuse { graph := k, config } r := by
  subst hs
  simp only [Session.run_compile, fingerprint_of_record hk, hr]

/-- What a session answers from a result that is kept is the result of a twin, as far as its programs are
concerned, unless the data of the graph are at fault. -/
theorem served_of_twin {text : String} {s : Session} (hs : s.config = config)
    (hk : record { graph := k, config } target = .ok text)
    (hr : s.cache.get? (Sha256.hexDigest text) = some r)
    (h : r.Twin sized { graph := k, config } r') :
    (∃ f, ((Session.compile k target).run s).1 = .error f ∧ DataFault { graph := k, config } f) ∨
      ∃ served, ((Session.compile k target).run s).1 = .ok served ∧ served.Alike sized r' := by
  have hfails := Shader.failsIn_overrides { graph := k, config }
  rw [run_compile_of_kept hs hk hr, Session.reuse]
  cases hnews : Shader.overrides { graph := k, config } with
  | error f =>
    rw [hnews] at hfails
    exact Or.inl ⟨f, rfl, hfails⟩
  | ok news => exact Or.inr ⟨_, rfl, h.alike_served news _⟩

/-- Variants with one record lead to the same programs. Unless the data of one of them are at fault,
their compilations report the same failure or give passes that differ at most in the values of uniforms
and, where the capacity of an input bound to a value of another type has changed, in the fragment
program; and what a session has kept for one of them it answers for the other one. -/
theorem alike_of_record_eq {text : String} (hv : g.Variant k)
    (hg : record { graph := g, config } target = .ok text)
    (hk : record { graph := k, config } target = .ok text) :
    (∃ f log, compile { graph := g, config } target = (.error f, log) ∧
      DataFault { graph := g, config } f) ∨
    (∃ f log, compile { graph := k, config } target = (.error f, log) ∧
      DataFault { graph := k, config } f) ∨
    ∃ r r' log, compile { graph := g, config } target = (.ok r, log) ∧
      compile { graph := k, config } target = (.ok r', log) ∧
      r'.stats = r.stats ∧ r.Alike (g.SameCapacities config k) r' ∧
      ∀ s : Session, s.config = config → s.cache.get? (Sha256.hexDigest text) = some r →
        (∃ f, ((Session.compile k target).run s).1 = .error f ∧ DataFault { graph := k, config } f) ∨
          ∃ served, ((Session.compile k target).run s).1 = .ok served ∧
            served.Alike (g.SameCapacities config k) r' := by
  have hends := endAlike_compile (twin_of_record_eq hv hg hk) target
  rcases exists_result_or_dataFault { graph := g, config } target with ⟨r, log, hr, -⟩ | hfault
  · rcases exists_result_or_dataFault { graph := k, config } target with ⟨r', log', hr', -⟩ | hfault
    · rw [hr, hr'] at hends
      cases hends with
      | ok h hlog =>
        subst hlog
        exact Or.inr (Or.inr ⟨r, r', log, hr, hr', h.stats_eq, h.alike,
          fun s hs hkept => served_of_twin hs hk hkept h⟩)
    · exact Or.inr (Or.inl hfault)
  · exact Or.inl hfault

/-! ### A node with two arrays -/

/-- A node with two array inputs, the second of which is bound to a value of another type. -/
def arraysNode (v w : List Value) : Node :=
  { id := "n", inputs := [.ofId "x" (.array .float), .ofId "y" (.array .float)],
    uniforms := .ofList [("x", { type := .array .float, value := .list v }),
      ("y", { type := .float, value := .list w })] }

/-- A graph of one node with two array inputs. -/
def arraysGraph (v w : List Value) : Graph :=
  .ofLists [arraysNode v w] []

/-- The graph under the default configuration. -/
def arraysScene (v w : List Value) : Scene where
  graph := arraysGraph v w
  config := {}

/-- The node is requested. -/
def arraysTarget : Target :=
  { node := some "n" }

theorem variant_arraysGraph (v w v' w' : List Value) :
    (arraysGraph v w).Variant (arraysGraph v' w') where
  nodes := .cons ⟨rfl, .mk .null (.cons ⟨rfl, rfl, rfl⟩ (.cons ⟨rfl, rfl, rfl⟩ .nil))⟩ .nil
  edges_eq := rfl

/-- The record of the node when its first array has one element. -/
def arraysRecord : String :=
  "target:n:node:n:STANDARD:vec4scope::global:src:in:x:float[]in:y:float[]u:x:float[]:1u:y:float:None"

/-- The record tells that the first array has one element, and nothing about the second one. -/
theorem record_arraysScene (a : Int) (w : List Value) :
    record (arraysScene [.int a] w) arraysTarget = .ok arraysRecord := by
  have hsorted (a : Int) (w : List Value) : ∀ node ∈ (arraysScene [.int a] w).graph.nodeList,
      node.uniforms.entries.Pairwise fun a b => (!decide (b.1 < a.1)) = true := by
    intro node hnode
    obtain rfl : node = arraysNode [.int a] w := List.mem_singleton.1 hnode
    exact List.pairwise_pair.2 (show (!decide ("y" < "x")) = true by decide)
  calc
    record (arraysScene [.int a] w) arraysTarget = record (arraysScene [.int 0] []) arraysTarget := by
      rw [record_of_sorted (List.pairwise_singleton _ _) (hsorted a w),
        record_of_sorted (List.pairwise_singleton _ _) (hsorted 0 [])]
      rfl
    _ = .ok arraysRecord :=
      record_eq_of_toOption (by rw [record_of_sorted (by decide) (by decide)]; decide +kernel)

/-- The capacities of the second input are the same if they are evaluated to be so. -/
private theorem sameCapacities_arraysGraph {v w v' w' : List Value} {config : Config}
    (h : Shader.portCapacity (.ofId "y" (.array .float)) (arraysNode v w).uniforms
        config.defaultArrayLength =
      Shader.portCapacity (.ofId "y" (.array .float)) (arraysNode v' w').uniforms
        config.defaultArrayLength) :
    (arraysGraph v w).SameCapacities config (arraysGraph v' w') := by
  intro id n m hn hm port hp ht b hb hne
  obtain rfl : n = arraysNode v w := List.mem_singleton.1 (Graph.mem_nodeList_of_node? hn)
  obtain rfl : m = arraysNode v' w' := List.mem_singleton.1 (Graph.mem_nodeList_of_node? hm)
  rcases List.mem_pair.1 hp with rfl | rfl
  · cases hb
    exact absurd rfl hne
  · exact h

/-- Both graphs are compiled. -/
theorem exists_compile_arrays : ∃ r r' log log',
    compile (arraysScene [.int 1] [.int 1, .int 2]) arraysTarget = (.ok r, log) ∧
      compile (arraysScene [.int 2] [.int 3, .int 4]) arraysTarget = (.ok r', log') ∧
      r.passes ≠ [] ∧ r'.passes ≠ [] := by
  have hrun : succeedsWith (arraysScene [.int 1] [.int 1, .int 2]) arraysTarget
      (fun r => !r.passes.isEmpty) = true := by
    decide +kernel
  have hrun' : succeedsWith (arraysScene [.int 2] [.int 3, .int 4]) arraysTarget
      (fun r => !r.passes.isEmpty) = true := by
    decide +kernel
  obtain ⟨r, log, hr, -, hne⟩ := exists_of_succeedsWith hrun
  obtain ⟨r', log', hr', -, hne'⟩ := exists_of_succeedsWith hrun'
  exact ⟨r, r', log, log', hr, hr', by simpa using hne, by simpa using hne'⟩

/-- The elements of both arrays are exchanged for others, and the fragment program stays the same. -/
theorem alike_of_record_eq_arrays :
    (arraysGraph [.int 1] [.int 1, .int 2]).Variant (arraysGraph [.int 2] [.int 3, .int 4]) ∧
    record (arraysScene [.int 1] [.int 1, .int 2]) arraysTarget = .ok arraysRecord ∧
    record (arraysScene [.int 2] [.int 3, .int 4]) arraysTarget = .ok arraysRecord ∧
    ∃ r r' log, compile (arraysScene [.int 1] [.int 1, .int 2]) arraysTarget = (.ok r, log) ∧
      compile (arraysScene [.int 2] [.int 3, .int 4]) arraysTarget = (.ok r', log) ∧
      r.passes ≠ [] ∧ r'.passes.map (·.fragment) = r.passes.map (·.fragment) := by
  obtain ⟨r, r', log, log', hr, hr', hne, -⟩ := exists_compile_arrays
  have hv := variant_arraysGraph [.int 1] [.int 1, .int 2] [.int 2] [.int 3, .int 4]
  have hsame : (arraysGraph [.int 1] [.int 1, .int 2]).SameCapacities {}
      (arraysGraph [.int 2] [.int 3, .int 4]) :=
    sameCapacities_arraysGraph rfl
  have hg := record_arraysScene 1 [.int 1, .int 2]
  have hk := record_arraysScene 2 [.int 3, .int 4]
  refine ⟨hv, hg, hk, ?_⟩
  rcases alike_of_record_eq hv hg hk with
    ⟨f, _, hf, -⟩ | ⟨f, _, hf, -⟩ | ⟨r₁, r₂, log, hr₁, hr₂, -, halike, -⟩
  · cases hr.symm.trans hf
  · cases hr'.symm.trans hf
  · cases hr.symm.trans hr₁
    cases hr'.symm.trans hr₂
    exact ⟨r, r', log, hr, hr', hne, halike.fragments_eq hsame⟩

/-- A result that is answered from a kept one has its fragment programs. -/
theorem map_fragment_of_reuse {news : Keyed Uniform} (h : Shader.overrides scene = .ok news)
    (r : Result) :
    ∃ served, Session.reuse scene r = .ok served ∧
      served.passes.map (·.fragment) = r.passes.map (·.fragment) := by
  rw [Session.reuse, h]
  exact ⟨_, rfl, List.map_map⟩

/-- A third element is appended to a value that is bound to an array input and is itself no array. The
record stays the same, and the session answers with the program for two elements. -/
theorem kept_program_differs :
    (arraysGraph [.int 1] [.int 1, .int 2]).Variant (arraysGraph [.int 1] [.int 1, .int 2, .int 3]) ∧
    record (arraysScene [.int 1] [.int 1, .int 2]) arraysTarget = .ok arraysRecord ∧
    record (arraysScene [.int 1] [.int 1, .int 2, .int 3]) arraysTarget = .ok arraysRecord ∧
    ∃ r r' served log log', compile (arraysScene [.int 1] [.int 1, .int 2]) arraysTarget = (.ok r, log) ∧
      compile (arraysScene [.int 1] [.int 1, .int 2, .int 3]) arraysTarget = (.ok r', log') ∧
      r.failure = none ∧ r'.failure = none ∧
      r'.passes.map (·.fragment) ≠ r.passes.map (·.fragment) ∧
      ((Session.compile (arraysGraph [.int 1] [.int 1, .int 2, .int 3]) arraysTarget).run
        (Session.run (.new {}) [.compile (arraysGraph [.int 1] [.int 1, .int 2]) arraysTarget])).1 =
          .ok served ∧
      served.passes.map (·.fragment) = r.passes.map (·.fragment) := by
  have hrun : succeedsWith (arraysScene [.int 1] [.int 1, .int 2]) arraysTarget (fun r =>
      succeedsWith (arraysScene [.int 1] [.int 1, .int 2, .int 3]) arraysTarget fun r' =>
        r'.passes.map (·.fragment) != r.passes.map (·.fragment)) = true := by
    decide +kernel
  have hnews : (Shader.overrides (arraysScene [.int 1] [.int 1, .int 2, .int 3])).isOk = true := by
    decide +kernel
  have hg := record_arraysScene 1 [.int 1, .int 2]
  have hk := record_arraysScene 1 [.int 1, .int 2, .int 3]
  obtain ⟨r, log, hr, hf, hrun⟩ := exists_of_succeedsWith hrun
  obtain ⟨r', log', hr', hf', hne⟩ := exists_of_succeedsWith hrun
  -- The first request is kept, so that the second one finds it.
  obtain ⟨hcache, hconfig⟩ := Session.after_compile_of_miss (s := .new {})
    (fingerprint_of_record hg) rfl (congrArg Prod.fst hr) hf rfl
  have hkept : (Session.run (.new {})
      [.compile (arraysGraph [.int 1] [.int 1, .int 2]) arraysTarget]).cache.get?
        (Sha256.hexDigest arraysRecord) = some r := by
    rw [Session.run, List.foldl_cons, List.foldl_nil, hcache]
    simp [Cache.get?, Session.new]
  obtain ⟨news, hnews⟩ := exists_of_isOk hnews
  obtain ⟨served, hreuse, hfragments⟩ := map_fragment_of_reuse hnews r
  exact ⟨variant_arraysGraph _ _ _ _, hg, hk, r, r', served, log, log', hr, hr', hf, hf',
    by simpa using hne, (run_compile_of_kept hconfig hk hkept).trans hreuse, hfragments⟩

end Compile

end RenderGraph
