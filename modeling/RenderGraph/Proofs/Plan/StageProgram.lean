import RenderGraph.Proofs.Plan.Account
import RenderGraph.Proofs.Plan.Declared

/-!
# The parts of a stage

The pass of a stage is built in a few steps: the textures of other stages and of the inputs of the node are
asked for, one of them is taken as the previous pass, and the program is written for them. The program is a
list of lines, behind which stand the body and, unless the body has one, a main function. Planning a stage
adds its passes last, the first iteration before the others.

## Main definitions

* `Plan.unlines`: lines that are written one below the other, each of them ended
* `Plan.IsStageProgram`: the parts of the program of a stage
* `Plan.StageBuild`: the steps in which the pass of a stage is built
* `Plan.AddsStage`: the passes that the planning of a stage adds

## Main results

* `Plan.isStageProgram_of_eq_ok`, `Plan.leads_buildStage_build`: programs and passes are made so
* `Plan.exists_addsStage`: a stage that is planned has a first pass
-/

namespace RenderGraph.Plan

/-! ### Lines -/

/-- Lines that are written one below the other, each of them ended. -/
def unlines (lines : List String) : String :=
  String.join (lines.map (· ++ "\n"))

theorem unlines_append (lines lines' : List String) :
    unlines (lines ++ lines') = unlines lines ++ unlines lines' := by
  rw [unlines, List.map_append, String.join_append]
  rfl

theorem unlines_cons (line : String) (lines : List String) :
    unlines (line :: lines) = line ++ "\n" ++ unlines lines := by
  rw [unlines, List.map_cons, String.join_cons]
  rfl

theorem unlines_singleton (line : String) : unlines [line] = line ++ "\n" := by
  simp [unlines, String.join]

/-- All lines but the first stand between two ends of lines. -/
theorem hasLine_unlines {line : String} {lines : List String} (h : line ∈ lines.tail) (back : String) :
    HasLine (unlines lines ++ back) line := by
  obtain ⟨first, rest, rfl⟩ : ∃ first rest, lines = first :: rest :=
    List.exists_cons_of_ne_nil fun hnil => by simp [hnil] at h
  rw [List.tail_cons] at h
  obtain ⟨before, after, rfl⟩ := List.append_of_mem h
  induction before generalizing first with
  | nil =>
    refine ⟨first, unlines after ++ back, ?_⟩
    rw [List.nil_append, unlines_cons, unlines_cons]
    simp only [String.append_assoc]
  | cons second before ih =>
    have hrest := (ih second List.mem_append_cons_self).append_left (first ++ "\n")
    rw [List.cons_append, unlines_cons]
    rwa [← String.append_assoc] at hrest

theorem intercalate_newline {lines : List String} (h : lines ≠ []) :
    "\n".intercalate lines ++ "\n" = unlines lines := by
  induction lines with
  | nil => exact absurd rfl h
  | cons first lines ih =>
    cases lines with
    | nil => simp [unlines, String.join]
    | cons second lines =>
      rw [String.intercalate_cons_cons, unlines_cons, ← ih (List.cons_ne_nil _ _), String.append_assoc]

/-- Pairs of lines are written one below the other. -/
private theorem join_pairs (pairs : List (String × String)) :
    String.join (pairs.map fun l => l.1 ++ "\n" ++ l.2 ++ "\n") =
      unlines (pairs.flatMap fun l => [l.1, l.2]) := by
  induction pairs with
  | nil => rfl
  | cons l pairs ih =>
    rw [List.map_cons, String.join_cons, ih, List.flatMap_cons, List.cons_append, List.singleton_append,
      unlines_cons, unlines_cons]
    simp only [String.append_assoc]

/-! ### Programs -/

/-- The line that defines a name of a body. -/
def referenceLine (r : String × String) : String :=
  "#define " ++ r.1 ++ " " ++ r.2

/-- The lines of the program of a stage that stand before its body, with the lines of its uniforms. -/
def stageLines (scene : Scene) (node : Node) (references : List Source.StageReference)
    (textures : Keyed String) (isLoop hasFeedback : Bool) (uniformLines : List String) : List String :=
  Shader.headerLines scene.config [] true ++
  (if isLoop then
    ["uniform int " ++ loopIndexUniform ++ ";", "uniform int " ++ loopCountUniform ++ ";"]
  else []) ++
  (if hasFeedback then [Shader.samplerLine Source.previousFrame] else []) ++
  (stageSamplers scene node textures).map Shader.samplerLine ++
  (definedReferences references textures).map referenceLine ++
  ["// Inject Node Uniforms"] ++
  (uniformLines.zip (Shader.stageDefines node)).flatMap fun l => [l.1, l.2]

/-- The main function of a stage: it calls the entry function with some arguments. -/
def mainCall (arguments : List String) : String :=
  "\nvoid main() \x7b run(" ++ ", ".intercalate (["vUv"] ++ arguments ++ ["fragColor"]) ++ "); \x7d\n"

/-- The parts of the program of a stage: the declarations of the bound values of its node, the lines before
the body, the uniforms, and the main function. -/
structure IsStageProgram (scene : Scene) (node : Node) (body : String) (io : Source.Interface)
    (textures : Keyed String) (isLoop hasFeedback : Bool) (cs : List Declaration) (main : String)
    (program : String × Keyed Uniform) : Prop where
  declared : List.Forall₂ (fun b c => b.2.declaration scene.fallback (node.uniformName b.1) = .ok c)
    (Shader.stageBindings node) cs
  nodup : (cs.map (·.name)).Nodup
  code_eq : program.1 = unlines (stageLines scene node io.references textures isLoop hasFeedback
    (cs.map (·.line))) ++ ("\n" ++ Source.stripPragmas body ++ "\n" ++ main)
  uniforms_eq : program.2 = (cs.foldl Declarations.add {}).uniforms.insertAll
    ((definedReferences io.references textures).map fun r =>
      (r.1, { type := .sampler2D, value := .text r.2 }))
  called : (Text.occurs Source.mainDeclaration body.toList = true ∧ main = "") ∨
    ∃ arguments, io.inputs.mapM (entryArgument scene node textures) = .ok arguments ∧
      main = mainCall arguments

variable {scene : Scene} {plan : Request → PlanM String} {node : Node} {stage : Stage}

/-- What stands before the body of a stage is written line by line. -/
theorem code_eq_unlines (references : List Source.StageReference) (textures : Keyed String)
    (isLoop hasFeedback : Bool) (uniformLines : List String) :
    Shader.header scene.config [] true ++
      (if isLoop then
        "uniform int " ++ loopIndexUniform ++ ";\nuniform int " ++ loopCountUniform ++ ";\n"
      else "") ++
      (if hasFeedback then Shader.samplerLine Source.previousFrame ++ "\n" else "") ++
      String.join ((stageSamplers scene node textures).map fun u => Shader.samplerLine u ++ "\n") ++
      String.join ((definedReferences references textures).map fun r =>
        "#define " ++ r.1 ++ " " ++ r.2 ++ "\n") ++
      "// Inject Node Uniforms\n" ++
      String.join ((uniformLines.zip (Shader.stageDefines node)).map fun l =>
        l.1 ++ "\n" ++ l.2 ++ "\n") =
      unlines (stageLines scene node references textures isLoop hasFeedback uniformLines) := by
  have hmarker : "// Inject Node Uniforms\n" = "// Inject Node Uniforms" ++ "\n" := by decide +kernel
  have hends : ";\nuniform int " = ";" ++ "\n" ++ "uniform int " ∧ ";\n" = ";" ++ "\n" := by
    decide +kernel
  have hlines {α : Type} (line : α → String) (as : List α) :
      String.join (as.map fun a => line a ++ "\n") = unlines (as.map line) := by
    rw [unlines, List.map_map]
    rfl
  have hloop : (if isLoop then
        "uniform int " ++ loopIndexUniform ++ ";\nuniform int " ++ loopCountUniform ++ ";\n"
      else "") = unlines (if isLoop then
        ["uniform int " ++ loopIndexUniform ++ ";", "uniform int " ++ loopCountUniform ++ ";"]
      else []) := by
    cases isLoop with
    | false => rfl
    | true =>
      rw [if_pos rfl, if_pos rfl, unlines_cons, unlines_singleton, hends.1, hends.2]
      simp only [String.append_assoc]
  have hfeedback : (if hasFeedback then Shader.samplerLine Source.previousFrame ++ "\n" else "") =
      unlines (if hasFeedback then [Shader.samplerLine Source.previousFrame] else []) := by
    cases hasFeedback with
    | false => rfl
    | true => simp only [if_true, unlines_singleton]
  have hdefines : String.join ((definedReferences references textures).map fun r =>
      "#define " ++ r.1 ++ " " ++ r.2 ++ "\n") =
        unlines ((definedReferences references textures).map referenceLine) :=
    hlines referenceLine _
  rw [stageLines, Shader.header, intercalate_newline (by simp [Shader.headerLines]), hloop, hfeedback,
    hlines Shader.samplerLine, hdefines, join_pairs, hmarker]
  simp only [unlines_append, unlines_singleton, String.append_assoc]

/-- Whatever is written as the program of a stage has these parts. -/
theorem isStageProgram_of_eq_ok {body : String} {io : Source.Interface} {textures : Keyed String}
    {isLoop hasFeedback : Bool} {program : String × Keyed Uniform}
    (h : stageProgram scene node body io textures isLoop hasFeedback = .ok program) :
    ∃ cs main, IsStageProgram scene node body io textures isLoop hasFeedback cs main program := by
  obtain ⟨d, hd, h⟩ := Fault.bind_eq_ok_iff.1 h
  rw [Shader.declareStages_eq] at hd
  obtain ⟨cs, hcs, rfl⟩ := Declarations.exists_of_addAll hd
  obtain ⟨hall, hnodup⟩ := forall₂_of_stageDeclarations hcs
  have hlines : (cs.foldl Declarations.add {}).lines = cs.map (·.line) :=
    Declarations.lines_foldl_add (d := {}) (fun _ _ => rfl) hnodup
  have huniforms : ((definedReferences io.references textures).foldl (fun u r =>
      u.insert r.1 { type := .sampler2D, value := .text r.2 }) (cs.foldl Declarations.add {}).uniforms) =
      (cs.foldl Declarations.add {}).uniforms.insertAll
        ((definedReferences io.references textures).map fun r =>
          (r.1, { type := .sampler2D, value := .text r.2 })) := by
    rw [Keyed.insertAll, List.foldl_map]
  have hbehind (front main : String) : front ++ "\n" ++ Source.stripPragmas body ++ "\n" ++ main =
      front ++ ("\n" ++ Source.stripPragmas body ++ "\n" ++ main) := by
    simp only [String.append_assoc]
  dsimp only at h
  rw [hlines, code_eq_unlines, huniforms] at h
  split at h
  · next hm =>
    obtain rfl := Except.ok.inj h
    exact ⟨cs, "", hall, hnodup, hbehind _ _, rfl, Or.inl ⟨hm, rfl⟩⟩
  · obtain ⟨arguments, harguments, h⟩ := Fault.bind_eq_ok_iff.1 h
    obtain rfl := Except.ok.inj h
    exact ⟨cs, mainCall arguments, hall, hnodup, hbehind _ _, rfl, Or.inr ⟨arguments, harguments, rfl⟩⟩

/-- The names that stand for samplers are those of the references and that of the previous pass, as far as
there is a texture for them. -/
theorem mem_definedReferences {references : List Source.StageReference} {textures : Keyed String}
    {name u : String} : (name, u) ∈ definedReferences references textures ↔
      textures.get? name = some u ∧
        (name = previousPass ∨ ∃ r ∈ references, r ≠ .previous ∧ r.uniform = name) := by
  unfold definedReferences
  rw [List.mem_filterMap]
  constructor
  · rintro ⟨name', hname, h⟩
    obtain ⟨u', hu, h⟩ := Option.map_eq_some_iff.1 h
    cases h
    refine ⟨hu, ?_⟩
    rcases List.mem_append.1 hname with hname | hname
    · obtain ⟨r, hr, rfl⟩ := List.mem_map.1 hname
      exact Or.inr ⟨r, by simpa using hr⟩
    · exact Or.inl (List.mem_singleton.1 hname)
  · rintro ⟨hu, hname⟩
    refine ⟨name, ?_, by rw [hu]; rfl⟩
    rcases hname with rfl | ⟨r, hr, hne, rfl⟩
    · exact List.mem_append_right _ List.mem_cons_self
    · exact List.mem_append_left _ (List.mem_map_of_mem (List.mem_filter.2 ⟨hr, by simpa using hne⟩))

namespace IsStageProgram

variable {body main : String} {io : Source.Interface} {textures : Keyed String}
  {isLoop hasFeedback : Bool} {cs : List Declaration} {program : String × Keyed Uniform}
  (h : IsStageProgram scene node body io textures isLoop hasFeedback cs main program)

include h

/-- The lines for textures, for names of the body and for bound values stand in the program. -/
private theorem hasLine {line : String} (hl : line = Shader.samplerLine scene.config.emptyTexture ∨
    line ∈ (stageSamplers scene node textures).map Shader.samplerLine ∨
    line ∈ (definedReferences io.references textures).map referenceLine ∨
    line ∈ ((cs.map (·.line)).zip (Shader.stageDefines node)).flatMap fun l => [l.1, l.2]) :
    HasLine program.1 line := by
  rw [h.code_eq]
  refine hasLine_unlines ?_ _
  have hheader (rest : List String) : (Shader.headerLines scene.config [] true ++ rest).tail =
      (Shader.headerLines scene.config [] true).tail ++ rest :=
    List.tail_append_of_ne_nil (by simp [Shader.headerLines])
  simp only [stageLines, List.append_assoc, hheader]
  rcases hl with rfl | hl | hl | hl
  · exact List.mem_append_left _ (by simp [Shader.headerLines])
  · simp [hl]
  · simp [hl]
  · simp only [List.mem_append, hl, or_true]

/-- Each name of a body that stands for a sampler is defined so. -/
theorem hasLine_reference {name u : String} (hr : (name, u) ∈ definedReferences io.references textures) :
    HasLine program.1 ("#define " ++ name ++ " " ++ u) := by
  have hline : referenceLine (name, u) ∈ (definedReferences io.references textures).map referenceLine :=
    List.mem_map_of_mem hr
  exact h.hasLine (.inr (.inr (.inl hline)))

/-- A name of a body that stands for a sampler has a uniform with the sampler. -/
theorem get?_of_mem {name u : String} (hr : (name, u) ∈ definedReferences io.references textures) :
    program.2.get? name = some { type := .sampler2D, value := .text u } := by
  rw [h.uniforms_eq]
  refine Keyed.get?_insertAll_of_forall (List.mem_map_of_mem hr) fun e he hname => ?_
  obtain ⟨r, hmem, rfl⟩ := List.mem_map.1 he
  obtain rfl : u = r.2 := by
    have htexture := (mem_definedReferences.1 hmem).1
    rw [show r.1 = name from hname, (mem_definedReferences.1 hr).1] at htexture
    exact Option.some.inj htexture
  rfl

/-- All other uniforms are those of bound values. -/
theorem get?_of_forall_ne {name : String}
    (hne : ∀ r ∈ definedReferences io.references textures, r.1 ≠ name) :
    program.2.get? name = (cs.find? (·.name == name)).map (·.uniform) := by
  rw [h.uniforms_eq, Keyed.get?_insertAll, List.find?_eq_none.2, Declarations.get?_foldl_add]
  · rfl
  · intro e he
    obtain ⟨r, hr, rfl⟩ := List.mem_map.1 (List.mem_reverse.1 he)
    simpa using hne r hr

/-- Each bound value has its line, and its key is defined as its uniform. -/
theorem exists_declaration {b : String × BoundValue} (hb : b ∈ Shader.stageBindings node) :
    ∃ c, b.2.declaration scene.fallback (node.uniformName b.1) = .ok c ∧ HasLine program.1 c.line ∧
      HasLine program.1 ("#define " ++ b.1 ++ " " ++ node.uniformName b.1) ∧
      cs.find? (·.name == c.name) = some c := by
  obtain ⟨c, hc, hdeclared⟩ := exists_of_forall₂ h.declared.flip hb
  have hlength : (cs.map (·.line)).length = (Shader.stageDefines node).length := by
    rw [Shader.stageDefines, List.length_map, List.length_map, h.declared.length_eq]
  have hpairs {line : String} (hl : ∃ l ∈ (cs.map (·.line)).zip (Shader.stageDefines node),
      l.1 = line ∨ l.2 = line) : HasLine program.1 line := by
    obtain ⟨l, hmem, hl⟩ := hl
    refine h.hasLine (Or.inr (Or.inr (Or.inr (List.mem_flatMap.2 ⟨l, hmem, ?_⟩))))
    rcases hl with rfl | rfl
    · exact List.mem_cons_self
    · exact List.mem_cons_of_mem _ List.mem_cons_self
  refine ⟨c, hdeclared, hpairs ?_, hpairs ?_, ?_⟩
  · have hmem : c.line ∈ ((cs.map (·.line)).zip (Shader.stageDefines node)).map Prod.fst := by
      rw [List.map_fst_zip hlength.le]
      exact List.mem_map_of_mem hc
    obtain ⟨l, hl, hline⟩ := List.mem_map.1 hmem
    exact ⟨l, hl, Or.inl hline⟩
  · have hmem : "#define " ++ b.1 ++ " " ++ node.uniformName b.1 ∈
        ((cs.map (·.line)).zip (Shader.stageDefines node)).map Prod.snd := by
      rw [List.map_snd_zip hlength.ge]
      exact List.mem_map_of_mem (f := fun b : String × BoundValue =>
        "#define " ++ b.1 ++ " " ++ node.uniformName b.1) hb
    obtain ⟨l, hl, hline⟩ := List.mem_map.1 hmem
    exact ⟨l, hl, Or.inr hline⟩
  · obtain ⟨e, he⟩ : ∃ e, cs.find? (·.name == c.name) = some e :=
      Option.isSome_iff_exists.1 (List.find?_isSome.2 ⟨c, hc, beq_self_eq_true c.name⟩)
    have hname : e.name = c.name := by simpa using List.find?_some he
    rw [he, List.inj_on_of_nodup_map h.nodup (List.mem_of_find?_eq_some he) hc hname]

/-- Whatever is read as a texture is declared, by the line of a texture or by that of a bound value. -/
theorem declares_texture {u : String} (hu : u ∈ textures.values) :
    HasLine program.1 (Shader.samplerLine u) ∨ ∃ b ∈ Shader.stageBindings node, ∃ c,
      node.uniformName b.1 = u ∧ b.2.declaration scene.fallback u = .ok c ∧ HasLine program.1 c.line := by
  rcases Shader.mem_newNames (scene.config.emptyTexture ::
    (Shader.stageBindings node).map fun b => node.uniformName b.1) hu with hknown | hnew
  · rcases List.mem_cons.1 hknown with rfl | hbound
    · exact Or.inl (h.hasLine (Or.inl rfl))
    · obtain ⟨b, hb, rfl⟩ := List.mem_map.1 hbound
      obtain ⟨c, hdeclared, hline, -⟩ := h.exists_declaration hb
      exact Or.inr ⟨b, hb, c, rfl, hdeclared, hline⟩
  · exact Or.inl (h.hasLine (Or.inr (Or.inl (List.mem_map_of_mem hnew))))

end IsStageProgram

/-! ### Passes -/

/-- The textures of a stage with one of them as the previous pass. -/
def withPrevious (texture : Option String) (textures : Keyed String) : Keyed String :=
  match texture with
  | none | some "" => textures
  | some name => textures.insert previousPass name

/-- The steps in which the pass of a stage is built, with the states between them. -/
structure StageBuild (scene : Scene) (plan : Request → PlanM String) (node : Node) (stage : Stage)
    (previous : String) (s : State) (template : RenderPass) (t : State) where
  io : Source.Interface
  body : String
  references : Keyed String
  read : State
  inputs : StageTextures
  fed : State
  texture : Option String
  taken : State
  isLoop : Bool
  hasFeedback : Bool
  interface_eq : Source.interface stage.text = .ok io
  body_eq : stage.body = .ok body
  reads : (referenceTextures scene plan node io.references).run s = (.ok references, read)
  feeds : (inputTextures scene plan node references).run read = (.ok inputs, fed)
  takes : (previousTexture scene node previous inputs.firstInput
    (io.references.any (· = .previous))).run fed = (.ok texture, taken)
  warnings_eq : t.warnings = taken.warnings
  textures_eq : template.textures = withPrevious texture inputs.all
  writes : stageProgram scene node body io template.textures isLoop hasFeedback =
    .ok (template.fragment, template.uniforms)

/-- Whatever is built for a stage is built in these steps. -/
theorem leads_buildStage_build (key previous : String) (s : State) :
    Leads (buildStage scene plan node stage key previous)
      (fun r t => Nonempty (StageBuild scene plan node stage previous s r.1 t)) s := by
  have hrun {α : Type} (x : PlanM α) (s : State) : Leads x (fun a t => x.run s = (.ok a, t)) s :=
    ends_iff.2 ⟨fun _ _ h => h, fun _ _ _ => trivial⟩
  have hlog (warnings : List String) (v : State) : Leads (warnings.forM fun w => log (.warn w))
      (fun _ w => w.warnings = v.warnings) v :=
    Ends.forM (I := fun w : State => w.warnings = v.warnings) (fun _ _ _ hw => by simpa using hw) rfl
  unfold buildStage
  rw [Leads, ends_bind, ends_lift, yields_iff]
  refine ⟨fun io hio => ?_, fun _ _ => trivial⟩
  rw [ends_bind]
  refine (hrun _ _).mono (fun references read hreads => ?_) fun _ _ => id
  rw [ends_bind]
  refine (hrun _ _).mono (fun inputs fed hfeeds => ?_) fun _ _ => id
  rw [ends_bind]
  refine (hrun _ _).mono (fun texture taken htakes => ?_) fun _ _ => id
  rw [ends_bind, ends_lift, yields_iff]
  refine ⟨fun body hbody => ?_, fun _ _ => trivial⟩
  rw [ends_bind, ends_lift, yields_iff]
  refine ⟨fun count _ => ?_, fun _ _ => trivial⟩
  dsimp only
  rw [ends_bind]
  refine (hlog _ _).mono (fun _ v hv => ?_) fun _ _ => id
  rw [ends_bind, ends_lift, yields_iff]
  refine ⟨fun program hprogram => ?_, fun _ _ => trivial⟩
  rw [ends_bind, ends_bindings, ends_pure]
  exact ⟨⟨io, body, references, read, inputs, fed, texture, taken, _, _, hio, hbody, hreads, hfeeds, htakes,
    hv, rfl, hprogram⟩⟩

/-- An iteration has the uniforms of its template, beside the numbers of a loop. -/
theorem get?_iterationUniforms {l : Loop} {i : Nat} {uniforms : Keyed Uniform} {name : String}
    (hi : name ≠ loopIndexUniform) (hc : name ≠ loopCountUniform) :
    (iterationUniforms l i uniforms).get? name = uniforms.get? name := by
  unfold iterationUniforms
  split
  · rw [Keyed.get?_insert, if_neg hc, Keyed.get?_insert, if_neg hi]
  · rfl

/-- On the way from one state to another, the planning of a stage added a first pass and some later ones
behind all others: these are the iterations of what was built. -/
structure AddsStage (scene : Scene) (plan : Request → PlanM String) (node : Node) (stage : Stage)
    (previous : String) (s t : State) (p : RenderPass) (later : List RenderPass) : Prop where
  built : ∃ template l u, (buildStage scene plan node stage (stageKey node stage) previous).run s =
    (.ok (template, l), u) ∧ p = firstIteration template l 0 ∧
      (∀ p' ∈ later, ∃ i, 0 < i ∧ IsTurn scene.config template l i p') ∧
      t.passes = u.passes ++ p :: later ∧ t.warnings = u.warnings
  id_eq : p.id = stageKey node stage

/-- A stage that is planned has a first pass. -/
theorem exists_addsStage {previous q : String} {s t : State}
    (h : (planStage scene plan node stage (stageKey node stage) previous).run s = (.ok q, t)) :
    ∃ p later, AddsStage scene plan node stage previous s t p later := by
  obtain ⟨⟨template, l⟩, u, hbuild, h⟩ := exists_of_run_bind h
  obtain ⟨passes, v, hiter, h⟩ := exists_of_run_bind h
  obtain ⟨hbase, hcount, -⟩ : l.base = stageKey node stage ∧ 1 ≤ l.count ∧ _ :=
    leads_buildStage.of_run_ok hbuild
  have hne : l.base ≠ "" := hbase ▸ stageKey_ne node stage
  obtain ⟨hturns, howners⟩ := (ends_iterations_turns scene template hne).of_run_ok hiter
  have hadded : Leads (addPasses passes (stageKey node stage) l.lastId >>= fun _ => pure l.lastId)
      (fun _ w => w.passes = v.passes ++ passes ∧ w.warnings = v.warnings) v := by
    rw [Leads, ends_bind, ends_addPasses, ends_pure]
    exact ⟨rfl, rfl⟩
  obtain ⟨hpasses, hwarnings⟩ := hadded.of_run_ok h
  rw [howners.eq] at hpasses hwarnings
  obtain ⟨k, hk⟩ : ∃ k, l.count.toNat = k + 1 := ⟨l.count.toNat - 1, by omega⟩
  rw [hk, List.range_succ_eq_map] at hturns
  cases hturns with
  | @cons _ p _ later hfirst hrest =>
    obtain rfl := hfirst.eq_firstIteration
    refine ⟨_, later, ⟨template, l, u, hbuild, rfl, fun p' hp' => ?_, hpasses, hwarnings⟩, hbase⟩
    obtain ⟨i, hi, hturn⟩ := exists_of_forall₂ hrest hp'
    obtain ⟨j, -, rfl⟩ := List.mem_map.1 hi
    exact ⟨_, j.succ_pos, hturn⟩

end RenderGraph.Plan
