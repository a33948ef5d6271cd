import RenderGraph.Proofs.Compile.Legibility
import RenderGraph.Proofs.Compile.Reuse

/-!
# Requests with one record

Requests whose outlines are legible have one record only if their outlines are the same. They have one
fingerprint only if that is so, or if two different texts have one digest. Without legibility this fails:
a body that ends with the record of an output stands for that output, so that two graphs with different
programs have one record and a session answers for one of them with the program of the other.

## Main results

* `Compile.record_eq_iff_outline_eq`: legible requests with one record have one outline
* `Compile.exists_served_of_record_eq`: graphs with one record are answered with one program
* `Compile.kept_body_differs`: a body that ends with the record of an output
-/

namespace RenderGraph.Compile

/-! ### Records that agree -/

/-- Requests with legible outlines have one record only if their outlines are the same. They have one
fingerprint only if their outlines are the same or two different texts have one digest. -/
theorem record_eq_iff_outline_eq {scene scene' : Scene} {target target' : Target} {o o' : Outline}
    (h : outline scene target = .ok o) (h' : outline scene' target' = .ok o') (ho : o.Legible)
    (ho' : o'.Legible) :
    (record scene target = record scene' target' ↔ o = o') ∧
      (fingerprint scene target = fingerprint scene' target' →
        o = o' ∨ ∃ x y, record scene target = .ok x ∧ record scene' target' = .ok y ∧ x ≠ y ∧
          Sha256.hexDigest x = Sha256.hexDigest y) := by
  have hrecord : record scene target = .ok o.text := by
    rw [record_eq, h]
    rfl
  have hrecord' : record scene' target' = .ok o'.text := by
    rw [record_eq, h']
    rfl
  have hiff : record scene target = record scene' target' ↔ o = o' := by
    rw [hrecord, hrecord', Except.ok.injEq]
    exact ⟨Outline.text_inj ho ho', congrArg Outline.text⟩
  refine ⟨hiff, fun hfingerprint => ?_⟩
  rw [fingerprint_of_record hrecord, fingerprint_of_record hrecord', Except.ok.injEq] at hfingerprint
  by_cases htext : o.text = o'.text
  · exact .inl (Outline.text_inj ho ho' htext)
  · exact .inr ⟨o.text, o'.text, hrecord, hrecord', htext, hfingerprint⟩

/-! ### Graphs of one body -/

/-- A graph of one node without inputs. -/
def bodyGraph (source : String) (outputs : List Port) : Graph :=
  .ofLists [{ id := "n", source, outputs }] []

/-- The graph under the default configuration. -/
def bodyScene (source : String) (outputs : List Port) : Scene where
  graph := bodyGraph source outputs
  config := {}

/-- The node is requested. -/
def bodyTarget : Target :=
  { node := some "n" }

def bodyNodeOutline (source : String) (outputs : List PortOutline) : NodeOutline where
  id := "n"
  kind := .standard
  type := .vec4
  scope := ""
  globalName := ""
  source := source
  inputs := []
  outputs := outputs
  bound := []
  globalLength := none
  stages := []

def bodyOutline (source : String) (outputs : List PortOutline) : Outline where
  node := some "n"
  port := ""
  nodes := [bodyNodeOutline source outputs]
  edges := []

theorem outline_bodyScene (source : String) (outputs : List Port) :
    outline (bodyScene source outputs) bodyTarget =
      .ok (bodyOutline source (outputs.map portOutline)) := by
  have hsorted : sortedNodes (bodyScene source outputs).graph.nodeList =
      [{ id := "n", source, outputs }] :=
    List.mergeSort_singleton _
  have hnode (fallback : Number) : nodeOutline fallback { id := "n", source, outputs } =
      .ok (bodyNodeOutline source (outputs.map portOutline)) := by
    unfold nodeOutline
    rw [show (({ id := "n", source, outputs } : Node).uniforms.entries.mergeSort fun a b => !(b.1 < a.1)) =
      [] from List.mergeSort_nil]
    rfl
  unfold outline
  rw [hsorted, List.mapM_cons, hnode]
  rfl

/-- A short body. -/
def shortBody : String :=
  "void run(vec2 uv, out vec4 c) { c = vec4(1.0); } //"

theorem legible_bodyOutline {id : String} (h : IsField id) (type : DataType) :
    (bodyOutline shortBody [⟨id, type⟩]).Legible where
  node := (by decide : Told IsField (some "n"))
  port := (by decide : Unmarked behindStages "")
  nodes := by
    intro n hn
    obtain rfl := List.mem_singleton.1 hn
    exact {
      id := (by decide : IsField "n")
      scope := (by decide : IsField "")
      globalName := (by decide : Unmarked ["src"] "")
      source := (by decide +kernel : Unmarked behindSource shortBody)
      inputs := by simp [bodyNodeOutline]
      outputs := by simpa [bodyNodeOutline] using h
      bound := by simp [bodyNodeOutline]
      stages := by simp [bodyNodeOutline] }
  edges := by simp [bodyOutline]

/-- The record tells the name of an output. -/
theorem record_ne_of_output :
    (bodyOutline shortBody [⟨"c", .vec4⟩]).Legible ∧ (bodyOutline shortBody [⟨"d", .vec4⟩]).Legible ∧
      record (bodyScene shortBody [.ofId "c" .vec4]) bodyTarget ≠
        record (bodyScene shortBody [.ofId "d" .vec4]) bodyTarget := by
  have ho : (bodyOutline shortBody [⟨"c", .vec4⟩]).Legible := legible_bodyOutline (by decide) _
  have ho' : (bodyOutline shortBody [⟨"d", .vec4⟩]).Legible := legible_bodyOutline (by decide) _
  refine ⟨ho, ho', fun h => ?_⟩
  have heq := (record_eq_iff_outline_eq (outline_bodyScene shortBody [.ofId "c" .vec4])
    (outline_bodyScene shortBody [.ofId "d" .vec4]) ho ho').1.1 h
  exact absurd heq (by decide +kernel)

/-! ### A body that ends with the record of an output -/

/-- A graph whose record is that of a kept result is answered with the kept fragment programs. -/
theorem exists_served_of_record_eq {config : Config} {g k : Graph} {target : Target} {text : String}
    {r : Result} {log : List Journal.Record} (hg : record { graph := g, config } target = .ok text)
    (hk : record { graph := k, config } target = .ok text)
    (hr : compile { graph := g, config } target = (.ok r, log)) (hf : r.failure = none)
    (hroom : config.cacheCapacity.atMost 0 = false)
    (hnews : (Shader.overrides { graph := k, config }).isOk = true) :
    ∃ served, ((Session.compile k target).run
        (Session.run (.new config) [.compile g target])).1 = .ok served ∧
      served.passes.map (·.fragment) = r.passes.map (·.fragment) := by
  obtain ⟨hcache, hconfig⟩ := Session.after_compile_of_miss (s := .new config)
    (fingerprint_of_record hg) rfl (congrArg Prod.fst hr) hf hroom
  have hkept : (Session.run (.new config) [.compile g target]).cache.get? (Sha256.hexDigest text) =
      some r := by
    rw [Session.run, List.foldl_cons, List.foldl_nil, hcache]
    simp [Cache.get?, Session.new]
  obtain ⟨news, hnews⟩ := exists_of_isOk hnews
  obtain ⟨served, hreuse, hfragments⟩ := map_fragment_of_reuse hnews r
  exact ⟨served, (run_compile_of_kept hconfig hk hkept).trans hreuse, hfragments⟩

/-- Two graphs of one node, one with an output and the other with a body that ends with its record. Their
outlines differ, their records do not, and a session that has compiled the first graph answers a request
for the second one with a program that names the output. -/
theorem kept_body_differs :
    outline (bodyScene shortBody [.ofId "c" .vec4]) bodyTarget =
        .ok (bodyOutline shortBody [⟨"c", .vec4⟩]) ∧
      outline (bodyScene (shortBody ++ "out:c:vec4") []) bodyTarget =
        .ok (bodyOutline (shortBody ++ "out:c:vec4") []) ∧
      bodyOutline shortBody [⟨"c", .vec4⟩] ≠ bodyOutline (shortBody ++ "out:c:vec4") [] ∧
      ∃ text r r' served log log',
        record (bodyScene shortBody [.ofId "c" .vec4]) bodyTarget = .ok text ∧
        record (bodyScene (shortBody ++ "out:c:vec4") []) bodyTarget = .ok text ∧
        compile (bodyScene shortBody [.ofId "c" .vec4]) bodyTarget = (.ok r, log) ∧
        compile (bodyScene (shortBody ++ "out:c:vec4") []) bodyTarget = (.ok r', log') ∧
        r.failure = none ∧ r'.failure = none ∧
        r'.passes.map (·.fragment) ≠ r.passes.map (·.fragment) ∧
        ((Session.compile (bodyGraph (shortBody ++ "out:c:vec4") []) bodyTarget).run
          (Session.run (.new {}) [.compile (bodyGraph shortBody [.ofId "c" .vec4]) bodyTarget])).1 =
            .ok served ∧
        served.passes.map (·.fragment) = r.passes.map (·.fragment) := by
  have hout := outline_bodyScene shortBody [.ofId "c" .vec4]
  have hout' := outline_bodyScene (shortBody ++ "out:c:vec4") []
  have hg : record (bodyScene shortBody [.ofId "c" .vec4]) bodyTarget =
      .ok (bodyOutline shortBody [⟨"c", .vec4⟩]).text := by
    rw [record_eq, hout]
    rfl
  have hk : record (bodyScene (shortBody ++ "out:c:vec4") []) bodyTarget =
      .ok (bodyOutline shortBody [⟨"c", .vec4⟩]).text := by
    have hport : PortOutline.text "out" ⟨"c", .vec4⟩ = "out:c:vec4" := by decide +kernel
    have habsorb := (bodyNodeOutline shortBody []).text_absorb rfl ⟨"c", .vec4⟩ []
    rw [hport] at habsorb
    rw [record_eq, hout']
    exact congrArg (fun t => Except.ok (String.join (["target:n:"] ++ [t] ++ []))) habsorb
  have hrun : succeedsWith (bodyScene shortBody [.ofId "c" .vec4]) bodyTarget (fun r =>
      succeedsWith (bodyScene (shortBody ++ "out:c:vec4") []) bodyTarget fun r' =>
        r'.passes.map (·.fragment) != r.passes.map (·.fragment)) = true := by
    decide +kernel
  have hnews : (Shader.overrides (bodyScene (shortBody ++ "out:c:vec4") [])).isOk = true := by
    decide +kernel
  obtain ⟨r, log, hr, hf, hrun⟩ := exists_of_succeedsWith hrun
  obtain ⟨r', log', hr', hf', hne⟩ := exists_of_succeedsWith hrun
  obtain ⟨served, hserved, hfragments⟩ := exists_served_of_record_eq hg hk hr hf rfl hnews
  exact ⟨hout, hout', by decide +kernel, _, r, r', served, log, log', hg, hk, hr, hr', hf, hf',
    by simpa using hne, hserved, hfragments⟩

end RenderGraph.Compile
