import RenderGraph.Proofs.Plan.PassIds
import RenderGraph.Proofs.Plan.StageProgram

/-!
# The chain of iterations

Each later iteration of a stage reads the one before it, and this is kept in four places: in the program,
which defines the previous pass and declares its texture, and in the textures, the bindings and the
uniforms of the pass. The program is made from that of the first iteration as a text. It has a line behind
which textures may be declared, and this line stands behind a semicolon that ends a line; so it is found
again, unless the line itself holds a definition of the previous pass.

## Main definitions

* `Plan.BindsPrevious`: a program defines the previous pass as a texture, and declares it
* `Plan.ReadsIteration`: a pass reads another one as the previous pass
* `Plan.StandsApart`: an anchor stands behind a semicolon that ends a line, and ends so itself

## Main results

* `Plan.StandsApart.bindsPrevious`: a program with another previous pass defines and declares it
* `Plan.iterations_of_buildStage`: the iterations of a stage
-/

namespace RenderGraph.Plan

open Text (isBlank split)

/-! ### Lines of a program -/

theorem mem_linesOf {code line : String} :
    line ∈ linesOf code ↔ line.toList ∈ split '\n' code.toList := by
  constructor
  · intro h
    obtain ⟨cs, hcs, rfl⟩ := List.mem_map.1 h
    rwa [String.toList_ofList]
  · intro h
    exact List.mem_map.2 ⟨line.toList, h, String.ofList_toList⟩

/-- Behind blanks stands what is not blank. -/
private theorem dropWhile_append {blanks cs : List Char} (hb : ∀ c ∈ blanks, isBlank c = true)
    (hc : ∀ c ∈ cs.head?, isBlank c = false) : (blanks ++ cs).dropWhile isBlank = cs := by
  rw [List.dropWhile_append_of_pos hb]
  cases cs with
  | nil => rfl
  | cons c cs => rw [List.dropWhile_cons_of_neg (by simpa using hc)]

private theorem toList_defineLine (sampler : String) : (defineLine sampler).toList =
    "#define".toList ++ (' ' :: (previousPass.toList ++ (' ' :: sampler.toList))) := by
  have hdefine : "#define ".toList = "#define".toList ++ [' '] := by decide
  have hblank : " ".toList = [' '] := by decide
  simp only [defineLine, String.toList_append, hdefine, hblank, List.append_assoc, List.cons_append,
    List.nil_append]

private theorem head_define (cs : List Char) :
    ∀ c ∈ ("#define".toList ++ cs).head?, isBlank c = false := by
  intro c hc
  obtain rfl : '#' = c := Option.some.inj hc
  decide

variable {code code' anchor line sampler value : String}

private theorem eq_of_definesPrevious_defineLine
    (hs : ∀ c ∈ sampler.toList, Text.isIdentChar c = true)
    (h : DefinesPrevious (defineLine sampler) value) : value = sampler := by
  obtain ⟨indent, gap, rest, hline, hindent, ⟨-, hgap⟩, -, hvalue⟩ := h
  have hname (cs : List Char) : ∀ c ∈ (previousPass.toList ++ cs).head?, isBlank c = false := by
    rintro c hc
    obtain rfl : 'u' = c := Option.some.inj hc
    decide
  have hblank : ∀ c ∈ [' '], isBlank c = true := List.forall_mem_singleton.2 (by decide)
  have hsampler : ∀ c ∈ sampler.toList.head?, isBlank c = false :=
    fun c hc => Text.isBlank_of_isIdentChar (hs c (List.mem_of_head? hc))
  -- Without the blanks, both sides begin with the same word.
  rw [toList_defineLine] at hline
  have hdefine := congrArg (List.dropWhile isBlank) hline
  rw [dropWhile_append hindent (head_define _),
    ← List.nil_append ("#define".toList ++ _), dropWhile_append (by simp) (head_define _)] at hdefine
  have hbehind := congrArg (List.dropWhile isBlank) (List.append_cancel_left hdefine)
  rw [dropWhile_append hgap (hname _)] at hbehind
  have hgap' := dropWhile_append hblank (hname (' ' :: sampler.toList))
  rw [List.singleton_append] at hgap'
  rw [hgap'] at hbehind
  have hrest := List.append_cancel_left hbehind
  rw [← hrest] at hvalue
  exact String.toList_inj.1 (hvalue.trans (dropWhile_append hblank hsampler))

private theorem toList_samplerLine (sampler : String) : (Shader.samplerLine sampler).toList =
    "uniform sampler2D ".toList ++ (sampler.toList ++ ";".toList) := by
  unfold Shader.samplerLine
  simp only [String.toList_append, List.append_assoc]

/-- The line of a texture is no definition. -/
private theorem not_definesPrevious_samplerLine : ¬ DefinesPrevious (Shader.samplerLine sampler) value := by
  rintro ⟨indent, gap, rest, hline, hindent, -⟩
  have hword : "uniform sampler2D ".toList = 'u' :: "niform sampler2D ".toList := rfl
  have hsampler := (toList_samplerLine sampler).trans (congrArg (· ++ _) hword)
  have hdrop := congrArg (List.dropWhile isBlank) hline
  rw [hsampler, List.cons_append, List.dropWhile_cons_of_neg (by decide),
    dropWhile_append hindent (head_define _)] at hdrop
  have hdefine : "#define".toList = '#' :: "define".toList := by decide
  rw [hdefine] at hdrop
  exact absurd (List.cons.inj hdrop).1 (by decide)

/-- The new definition defines the previous pass as the texture. -/
theorem definesPrevious_defineLine (hs : ∀ c ∈ sampler.toList, Text.isIdentChar c = true) :
    DefinesPrevious (defineLine sampler) value ↔ value = sampler := by
  refine ⟨eq_of_definesPrevious_defineLine hs, ?_⟩
  rintro rfl
  have hvalue : ∀ c ∈ value.toList.head?, isBlank c = false :=
    fun c hc => Text.isBlank_of_isIdentChar (hs c (List.mem_of_head? hc))
  have hblank : ∀ c ∈ [' '], isBlank c = true := List.forall_mem_singleton.2 (by decide)
  exact ⟨[], [' '], ' ' :: value.toList, toList_defineLine value, by simp,
    ⟨List.cons_ne_nil _ _, hblank⟩, fun c hc => Option.some.inj hc ▸ by decide,
    (dropWhile_append hblank hvalue).symm⟩

/-! ### Anchors -/

/-- An anchor stands in a program behind a semicolon that ends a line, and ends so itself. The program ends
with the end of a line. -/
def StandsApart (code anchor : String) : Prop :=
  ∃ front text back : String, anchor = text ++ ";\n" ∧ code = front ++ ";\n" ++ anchor ++ back ++ "\n"

/-- Without the anchor, nothing is put behind it. -/
private theorem putBehind_of_not_mentions (h : ¬ Mentions code anchor) (line : String) :
    putBehind anchor line code = code := by
  rw [mentions_iff_occurs, Text.occurs, Option.not_isSome_iff_eq_none] at h
  rw [putBehind, Text.replaceFirst, h]
  exact String.ofList_toList

/-- A line is put behind an anchor that stands in the program. -/
theorem exists_putBehind (h : Mentions code anchor) (line : String) :
    ∃ front back, code = front ++ anchor ++ back ∧
      putBehind anchor line code = front ++ (anchor ++ line ++ "\n") ++ back := by
  obtain ⟨⟨before, _, rest⟩, hs⟩ := Option.isSome_iff_exists.1 (mentions_iff_occurs.1 h)
  refine ⟨String.ofList before, String.ofList rest, ?_, ?_⟩
  · rw [← String.toList_inj, Text.eq_of_search_literal hs]
    simp
  · rw [← String.toList_inj, putBehind, Text.replaceFirst, hs]
    simp

/-- A line that is put behind the end of a line is one more line. -/
theorem mem_linesOf_putBehind {text new : String} (h : Mentions code (text ++ "\n"))
    (hnew : '\n' ∉ new.toList) :
    line ∈ linesOf (putBehind (text ++ "\n") new code) ↔ line = new ∨ line ∈ linesOf code := by
  obtain ⟨front, back, hcode, hput⟩ := exists_putBehind h new
  have hold : code.toList = (front.toList ++ text.toList) ++ '\n' :: back.toList := by
    rw [hcode]
    simp
  have hlines : (putBehind (text ++ "\n") new code).toList =
      (front.toList ++ text.toList) ++ '\n' :: (new.toList ++ '\n' :: back.toList) := by
    rw [hput]
    simp
  rw [mem_linesOf, mem_linesOf, hold, hlines, Text.split_append_cons, Text.split_append_cons,
    Text.split_append_cons, Text.split_of_notMem hnew, List.mem_append, List.mem_append, List.mem_append,
    List.mem_singleton, String.toList_inj]
  exact or_left_comm

/-! ### Another previous pass -/

/-- A program defines the previous pass as a texture, in each of its lines that define it, and declares the
texture. -/
structure BindsPrevious (code u : String) : Prop where
  defined : ∃ line ∈ linesOf code, ∃ value, DefinesPrevious line value
  eq_of_defined : ∀ line ∈ linesOf code, ∀ value, DefinesPrevious line value → value = u
  declared : Mentions code (Shader.samplerLine u)

/-- A program still has its anchor, and one line that defines the previous pass, maybe repeatedly. -/
private structure Redefined (code anchor sampler : String) : Prop where
  anchored : Mentions code anchor
  mem : defineLine sampler ∈ linesOf code
  eq_of_defined : ∀ line ∈ linesOf code, ∀ value, DefinesPrevious line value →
    line = defineLine sampler

namespace StandsApart

theorem mentions (h : StandsApart code anchor) : Mentions code anchor := by
  obtain ⟨front, text, back, -, hcode⟩ := h
  refine ⟨front ++ ";\n", back ++ "\n", ?_⟩
  rw [hcode, String.append_assoc]

theorem exists_eq_newline (h : StandsApart code anchor) : ∃ text, anchor = text ++ "\n" := by
  obtain ⟨front, text, back, hanchor, -⟩ := h
  have hend : ";\n" = ";" ++ "\n" := by decide +kernel
  exact ⟨text ++ ";", by rw [hanchor, hend, String.append_assoc]⟩

private theorem toList_eq (h : StandsApart code anchor) : ∃ front text back : List Char,
    anchor.toList = text ++ [';', '\n'] ∧
      code.toList = front ++ ';' :: '\n' :: (text ++ ';' :: '\n' :: back) := by
  obtain ⟨front, text, back, hanchor, hcode⟩ := h
  refine ⟨front.toList, text.toList, (back ++ "\n").toList, ?_, ?_⟩
  · rw [hanchor]
    simp
  · rw [hcode, hanchor]
    simp

/-- Definitions are exchanged line by line. -/
private theorem exchanged (h : StandsApart code anchor) (new : List Char) :
    Exchanged new code.toList (Text.replaceAll previousDefine (fun _ _ => new) code.toList) := by
  obtain ⟨front, text, back, -, hcode⟩ := h
  refine exchanged_replaceFrom new (Or.inr ?_)
  rw [hcode, String.toList_append]
  exact List.getLast?_append_of_ne_nil _ (by decide)

/-- An anchor without a definition stands when definitions are exchanged. -/
private theorem mentions_replaceAll (h : StandsApart code anchor)
    (hfree : Text.occurs previousDefine anchor.toList = false) (new : List Char) :
    Mentions (String.ofList (Text.replaceAll previousDefine (fun _ _ => new) code.toList)) anchor := by
  obtain ⟨front, text, back, hanchor, hcode⟩ := h.toList_eq
  have hstands := Text.replaceFrom_of_search_eq_none (fun _ _ => new) (Option.isSome_eq_false_iff.1 hfree |>
    Option.isNone_iff_eq_none.1)
  rw [hanchor] at hstands
  have hfront := replaceFrom_cut new front (text ++ ';' :: '\n' :: back) (Nat.zero_le _) none
  have hback := replaceFrom_cut new text back (Nat.zero_le _) none
  rw [hback, hstands] at hfront
  refine ⟨String.ofList (Text.replaceFrom previousDefine (fun _ _ => new) 0 none
    (front ++ [';', '\n'])), String.ofList (Text.replaceFrom previousDefine (fun _ _ => new) 0 none back),
    ?_⟩
  rw [← String.toList_inj, Text.replaceAll, hcode, hfront]
  simp [hanchor]

/-- A program is given another previous pass, by exchanging its definitions or by a new one. -/
private theorem redefined (h : StandsApart code anchor)
    (hfree : Text.occurs previousDefine anchor.toList = false)
    (hs : ∀ c ∈ sampler.toList, Text.isIdentChar c = true) {defined : String}
    (hdefined : (if Text.occurs previousDefine code.toList then
        Text.substitute previousDefine (defineLine sampler) code
      else pure (putBehind anchor (defineLine sampler) code)) = .ok defined) :
    Redefined defined anchor sampler := by
  have hmem {c : Char} (hc : Text.isIdentChar c = false)
      (hwords : c ∉ "#define".toList ∧ c ≠ ' ' ∧ c ∉ previousPass.toList) :
      c ∉ (defineLine sampler).toList := by
    have hsampler : c ∉ sampler.toList := fun hmem => by rw [hs c hmem] at hc; cases hc
    simp only [toList_defineLine, List.mem_append, List.mem_cons, not_or]
    exact ⟨hwords.1, hwords.2.1, hwords.2.2, hwords.2.1, hsampler⟩
  have hend : '\n' ∉ (defineLine sampler).toList := hmem (by decide) (by decide)
  have hlines := h.exchanged (defineLine sampler).toList
  split at hdefined
  · next hoccurs =>
    rw [Text.substitute_of_notMem _ _ (hmem (by decide) (by decide))] at hdefined
    obtain rfl := Except.ok.inj hdefined
    refine ⟨h.mentions_replaceAll hfree _, ?_, fun line hline value hv => ?_⟩
    · rw [mem_linesOf, String.toList_ofList]
      exact hlines.mem_of_isSome hend hoccurs
    · rw [mem_linesOf, String.toList_ofList] at hline
      rw [← String.ofList_toList (s := line)] at hv
      exact String.toList_inj.1 (hlines.eq_of_definesPrevious hend hline hv)
  · next hnone =>
    obtain rfl := Except.ok.inj hdefined
    obtain ⟨text, rfl⟩ := h.exists_eq_newline
    have hstands : Text.replaceAll previousDefine (fun _ _ => (defineLine sampler).toList) code.toList =
        code.toList :=
      Text.replaceFrom_of_search_eq_none _ (Option.not_isSome_iff_eq_none.1 hnone)
    rw [hstands] at hlines
    obtain ⟨front, back, -, hput⟩ := exists_putBehind h.mentions (defineLine sampler)
    refine ⟨⟨front, defineLine sampler ++ "\n" ++ back, ?_⟩, ?_, fun line hline value hv => ?_⟩
    · rw [hput]
      simp only [String.append_assoc]
    · exact (mem_linesOf_putBehind h.mentions hend).2 (Or.inl rfl)
    · refine ((mem_linesOf_putBehind h.mentions hend).1 hline).elim id fun hline => ?_
      rw [← String.ofList_toList (s := line)] at hv
      exact String.toList_inj.1 (hlines.eq_of_definesPrevious hend (mem_linesOf.1 hline) hv)

/-- A program with another previous pass defines it so and declares it, unless there is a definition in the
anchor. -/
theorem bindsPrevious (h : StandsApart code anchor)
    (hfree : Text.occurs previousDefine anchor.toList = false)
    (hs : ∀ c ∈ sampler.toList, Text.isIdentChar c = true)
    (hr : rebindPrevious code sampler anchor = .ok code') : BindsPrevious code' sampler := by
  obtain ⟨defined, hdefined, rfl⟩ := rebindPrevious_eq_ok_iff.1 hr
  have hre := h.redefined hfree hs hdefined
  have heq : ∀ line ∈ linesOf defined, ∀ value, DefinesPrevious line value → value = sampler := by
    intro line hline value hv
    obtain rfl := hre.eq_of_defined line hline value hv
    exact (definesPrevious_defineLine hs).1 hv
  have hdefines : DefinesPrevious (defineLine sampler) sampler := (definesPrevious_defineLine hs).2 rfl
  unfold withSampler
  split
  · next hdeclared =>
    exact ⟨⟨_, hre.mem, sampler, hdefines⟩, heq, mentions_iff_occurs.2 hdeclared⟩
  · obtain ⟨text, rfl⟩ := h.exists_eq_newline
    have hend : '\n' ∉ (Shader.samplerLine sampler).toList := by
      have hsampler : '\n' ∉ sampler.toList := fun hmem => absurd (hs '\n' hmem) (by decide)
      have hwords : '\n' ∉ "uniform sampler2D ".toList ∧ '\n' ∉ ";".toList := by simp
      simp only [toList_samplerLine, List.mem_append, not_or]
      exact ⟨hwords.1, hsampler, hwords.2⟩
    have hmem (line : String) :
        line ∈ linesOf (putBehind (text ++ "\n") (Shader.samplerLine sampler) defined) ↔
          line = Shader.samplerLine sampler ∨ line ∈ linesOf defined :=
      mem_linesOf_putBehind hre.anchored hend
    obtain ⟨front, back, -, hput⟩ := exists_putBehind hre.anchored (Shader.samplerLine sampler)
    refine ⟨⟨_, (hmem _).2 (Or.inr hre.mem), sampler, hdefines⟩, fun line hline value hv => ?_, ?_⟩
    · rcases (hmem line).1 hline with rfl | hline
      · exact absurd hv not_definesPrevious_samplerLine
      · exact heq line hline value hv
    · refine ⟨front ++ (text ++ "\n"), "\n" ++ back, ?_⟩
      rw [hput]
      simp only [String.append_assoc]

end StandsApart

/-! ### The program of a stage -/

variable {scene : Scene} {node : Node}

/-- The header of a stage has an anchor for textures. -/
private theorem exists_header (config : Config) : ∃ front back : String,
    unlines (Shader.headerLines config [] true) = front ++ ";\n" ++ Shader.cubeAnchor config ++ back := by
  obtain ⟨before, after, hlines⟩ : ∃ before after, Shader.headerLines config [] true = before ++
      ([Shader.samplerLine config.emptyTexture, "uniform samplerCube " ++ config.emptyCubeTexture ++ ";"] ++
        after) :=
    ⟨["#version " ++ config.glslVersion, "precision " ++ config.floatPrecision ++ " float;",
      "in vec2 vUv;", "out vec4 fragColor;", "#define texture2D texture",
      "#define gl_FragColor fragColor", "", "uniform float u_time;", "uniform vec2 u_resolution;"],
      _, rfl⟩
  have hend : ";" ++ "\n" = ";\n" := by decide +kernel
  refine ⟨unlines before ++ "uniform sampler2D " ++ config.emptyTexture, unlines after, ?_⟩
  rw [hlines, unlines_append, unlines_append, unlines_cons, unlines_singleton]
  unfold Shader.samplerLine Shader.cubeAnchor
  simp only [String.append_assoc, hend]

/-- The program of a stage has an anchor for textures. -/
theorem yields_stageProgram_anchor (body : String) (io : Source.Interface)
    (textures : Keyed String) (isLoop hasFeedback : Bool) :
    Yields (stageProgram scene node body io textures isLoop hasFeedback)
      (fun program => StandsApart program.1 (Shader.cubeAnchor scene.config)) fun _ => True := by
  refine yields_iff.2 ⟨fun program hprogram => ?_, fun _ _ => trivial⟩
  obtain ⟨cs, main, h⟩ := isStageProgram_of_eq_ok hprogram
  obtain ⟨front, back, hheader⟩ := exists_header scene.config
  obtain ⟨rest, hlines⟩ : ∃ rest, stageLines scene node io.references textures isLoop hasFeedback
      (cs.map (·.line)) = Shader.headerLines scene.config [] true ++ rest := by
    simp only [stageLines, List.append_assoc]
    exact ⟨_, rfl⟩
  obtain ⟨behind, hbehind⟩ : ∃ behind, "\n" ++ Source.stripPragmas body ++ "\n" ++ main = behind ++ "\n" := by
    rcases h.called with ⟨-, rfl⟩ | ⟨arguments, -, rfl⟩
    · exact ⟨_, String.append_empty⟩
    · have hend : "); \x7d\n" = "); \x7d" ++ "\n" := by decide +kernel
      refine ⟨"\n" ++ Source.stripPragmas body ++ "\n" ++ ("\nvoid main() \x7b run(" ++
        ", ".intercalate (["vUv"] ++ arguments ++ ["fragColor"]) ++ "); \x7d"), ?_⟩
      unfold mainCall
      rewrite [hend]
      simp only [String.append_assoc]
  refine ⟨front, "uniform samplerCube " ++ scene.config.emptyCubeTexture, back ++ unlines rest ++ behind,
    rfl, ?_⟩
  rw [h.code_eq, hlines, unlines_append, hheader, hbehind]
  simp only [String.append_assoc]

/-! ### Iterations -/

/-- A pass reads another one as the previous pass: its program, its textures, its bindings and its uniforms
say so. -/
structure ReadsIteration (p : RenderPass) (id : String) : Prop where
  program : BindsPrevious p.fragment (Shader.samplerName id)
  texture_eq : p.textures.get? previousPass = some (Shader.samplerName id)
  binding_eq : p.bindings.get? (Shader.samplerName id) = some id
  uniform_eq : p.uniforms.get? previousPass =
    some { type := .sampler2D, value := .text (Shader.samplerName id) }

variable {stage : Stage} {plan : Request → PlanM String} {previous : String} {template p : RenderPass}
  {l loop : Loop} {s t u : State}

/-- A later iteration reads the one before it. -/
theorem IsTurn.readsIteration {i : Nat} (h : IsTurn scene.config template loop (i + 1) p)
    (hanchor : StandsApart template.fragment (Shader.cubeAnchor scene.config))
    (hfree : Text.occurs previousDefine (Shader.cubeAnchor scene.config).toList = false) :
    ReadsIteration p (loop.iterationId i) := by
  obtain ⟨fragment, hrebind, rfl⟩ := h.exists_eq i.succ_pos
  have hid : loop.previousId (i + 1 : Nat) = loop.iterationId i := by
    rw [Loop.previousId]
    congr 1
    omega
  rw [hid] at hrebind ⊢
  exact {
    program := hanchor.bindsPrevious hfree isIdentChar_of_mem_samplerName hrebind
    texture_eq := by rw [Keyed.get?_insert, if_pos rfl]
    binding_eq := by rw [Keyed.get?_insert, if_pos rfl]
    uniform_eq := by rw [Keyed.get?_insert, if_pos rfl] }

/-- A template can be repeated, whatever its program is. -/
private theorem exists_iterations (scene : Scene) (template : RenderPass) (hb : loop.base ≠ "")
    (u : State) : ∃ passes v, (iterations scene template loop).run u = (.ok passes, v) ∧
      List.Forall₂ (IsTurn scene.config template loop) (List.range loop.count.toNat) passes := by
  have hends := ends_iterations_turns (s := u) scene template hb
  rcases hrun : (iterations scene template loop).run u with ⟨f | passes, v⟩
  · exact (hends.of_run_error hrun).elim
  · exact ⟨passes, v, rfl, (hends.of_run_ok hrun).1⟩

private theorem isTurn_of_getElem? {passes : List RenderPass}
    (h : List.Forall₂ (IsTurn scene.config template loop) (List.range loop.count.toNat) passes) {i : Nat}
    (hp : passes[i]? = some p) : IsTurn scene.config template loop i p := by
  obtain ⟨hlt, rfl⟩ := List.getElem?_eq_some_iff.1 hp
  have hrange : i < (List.range loop.count.toNat).length := h.length_eq ▸ hlt
  have hget := h.get hrange hlt
  rwa [List.get_eq_getElem, List.getElem_range] at hget

/-- However often the stage of a template is repeated, its iterations have ids apart, of which the last one
is known, the first is drawn by the template, and each of the others reads the one before it; unless there is
a definition of the previous pass in the line behind which textures are declared. -/
theorem iterations_of_buildStage
    (h : (buildStage scene plan node stage (stageKey node stage) previous).run s = (.ok (template, l), t))
    (hfree : Text.occurs previousDefine (Shader.cubeAnchor scene.config).toList = false)
    (hbase : loop.base = stageKey node stage) (hcount : 1 ≤ loop.count) :
    ∃ passes v, (iterations scene template loop).run u = (.ok passes, v) ∧
      passes.map (·.id) = (List.range loop.count.toNat).map (fun i : Nat => loop.iterationId i) ∧
      (passes.map (·.id)).Nodup ∧ (passes.map (·.id)).getLast? = some loop.lastId ∧
      (∀ p, passes[0]? = some p → p.fragment = template.fragment ∧ p.textures = template.textures ∧
        p.bindings = template.bindings) ∧
      ∀ (i : Nat) (p), passes[i + 1]? = some p → ReadsIteration p (loop.iterationId i) := by
  have hanchor := (leads_buildStage_program (@yields_stageProgram_anchor scene node) s).of_run_ok h
  have hne : loop.base ≠ "" := hbase ▸ stageKey_ne node stage
  obtain ⟨passes, v, hrun, hturns⟩ := exists_iterations scene template hne u
  have hids : passes.map (·.id) = (List.range loop.count.toNat).map fun i : Nat => loop.iterationId i := by
    rw [eq_comm, ← List.forall₂_eq_eq_eq, List.forall₂_map_left_iff, List.forall₂_map_right_iff]
    exact hturns.imp fun i p hp => hp.isIteration.id_eq.symm
  refine ⟨passes, v, hrun, hids, ?_, ?_, fun p hp => ?_, fun i p hp => ?_⟩
  · rw [hids]
    exact List.nodup_range.map loop.injective_iterationId
  · rw [hids, Loop.lastId_eq hcount, List.getLast?_map, List.getLast?_range, if_neg (by omega)]
    rfl
  · obtain rfl := (isTurn_of_getElem? hturns hp).eq_firstIteration
    exact ⟨rfl, rfl, rfl⟩
  · exact (isTurn_of_getElem? hturns hp).readsIteration hanchor hfree

/-! ### A stage that is drawn twice -/

/-- A stage that is drawn twice. -/
def trailStage : Stage where
  id := "s"
  source := some "void run(vec2 uv, out vec4 c) \x7b c = vec4(1.0); \x7d"
  loop := 2

/-- The node of the stage. -/
def trailNode : Node where
  id := "n"
  kind := .multiStage
  stages := [trailStage]

/-- The loop of the stage. -/
def trailLoop : Loop where
  base := "n_pass_s"
  count := 2

/-- The graph of the node, with a name for the empty texture of a cube. -/
def trail (emptyCubeTexture : String) : Scene where
  graph := .ofLists [trailNode] []
  config := { emptyCubeTexture }

theorem iterations_of_buildStage_trail : ∃ template t,
    (buildStage (trail "u_empty_cube") (planWithin (trail "u_empty_cube") 0) trailNode trailStage
      "n_pass_s" "").run {} = (.ok (template, trailLoop), t) ∧
    Text.occurs previousDefine (Shader.cubeAnchor (trail "u_empty_cube").config).toList = false ∧
    trailLoop.base = stageKey trailNode trailStage ∧ 1 ≤ trailLoop.count ∧
    ∃ passes v, (iterations (trail "u_empty_cube") template trailLoop).run t = (.ok passes, v) ∧
      passes.map (·.id) = ["n_pass_s", "n_pass_s_loop1"] ∧
      ∀ p, passes[1]? = some p → ReadsIteration p "n_pass_s" := by
  have htest : (match (buildStage (trail "u_empty_cube") (planWithin (trail "u_empty_cube") 0) trailNode
      trailStage "n_pass_s" "").run {} with
    | (.ok r, _) => r.2 == trailLoop
    | (.error _, _) => false) = true := by
    decide +kernel
  have hfree : Text.occurs previousDefine (Shader.cubeAnchor (trail "u_empty_cube").config).toList =
      false := by
    decide +kernel
  have hbase : trailLoop.base = stageKey trailNode trailStage := by decide +kernel
  split at htest
  · next r t hrun =>
    obtain ⟨template, l⟩ := r
    obtain rfl : l = trailLoop := by simpa using htest
    obtain ⟨passes, v, hiter, hids, -, -, -, hreads⟩ :=
      iterations_of_buildStage (u := t) hrun hfree hbase (by decide)
    exact ⟨template, t, hrun, hfree, hbase, by decide, passes, v, hiter, hids.trans (by decide +kernel),
      hreads 0⟩
  · cases htest

/-- The lines of the program of the stage, if the name for the empty texture of a cube ends with a
definition of the previous pass. -/
private def strayLines : List String :=
  ["#version 300 es\n", "precision mediump float;\n", "in vec2 vUv;\n", "out vec4 fragColor;\n",
    "#define texture2D texture\n", "#define gl_FragColor fragColor\n", "\n", "uniform float u_time;\n",
    "uniform vec2 u_resolution;\n", "uniform sampler2D u_empty_tex;\n", "uniform samplerCube c;\n",
    "#define u_prevPass x;\n", "\n", "// Shadertoy compatibility\n", "#define iTime u_time\n",
    "#define iResolution vec3(u_resolution, 1.0)\n", "uniform int u_loopIndex;\n",
    "uniform int u_loopCount;\n", "// Inject Node Uniforms\n", "\n",
    "void run(vec2 uv, out vec4 c) \x7b c = vec4(1.0); \x7d\n", "\n",
    "void main() \x7b run(vUv, fragColor); \x7d\n"]

/-- The definition is exchanged, so the anchor is not found again, and the texture is not declared. -/
private theorem not_mentions_of_stray {code : String}
    (h : rebindPrevious (String.join strayLines) "u_pass_n_pass_s_tex"
      (Shader.cubeAnchor (trail "c;\n#define u_prevPass x").config) = .ok code) :
    ¬ Mentions code "uniform sampler2D u_pass_n_pass_s_tex;" := by
  have hscan : (Text.occurs previousDefine (strayLines.flatMap String.toList) &&
      let defined := Text.replaceAll previousDefine (fun _ _ => (defineLine "u_pass_n_pass_s_tex").toList)
        (strayLines.flatMap String.toList)
      !Text.occurs (Text.literal (Shader.cubeAnchor (trail "c;\n#define u_prevPass x").config)) defined &&
        !Text.occurs (Text.literal (Shader.samplerLine "u_pass_n_pass_s_tex")) defined) = true := by
    rw [strayLines]
    repeat rw [List.flatMap_cons, String.toList_ofList]
    decide +kernel
  simp only [Bool.and_eq_true, Bool.not_eq_true'] at hscan
  obtain ⟨hdefined, hanchor, hdeclared⟩ := hscan
  obtain ⟨defined, hread, rfl⟩ := rebindPrevious_eq_ok_iff.1 h
  have hslash : '\\' ∉ (defineLine "u_pass_n_pass_s_tex").toList := by decide +kernel
  rw [String.toList_join, if_pos hdefined, Text.substitute_of_notMem _ _ hslash, String.toList_join] at hread
  obtain rfl := Except.ok.inj hread
  rw [withSampler, String.toList_ofList, hdeclared, if_neg Bool.false_ne_true,
    putBehind_of_not_mentions, mentions_iff_occurs]
  · rw [String.toList_ofList]
    exact Bool.eq_false_iff.1 hdeclared
  · rw [mentions_iff_occurs, String.toList_ofList]
    exact Bool.eq_false_iff.1 hanchor

/-- With such a name, the stage has no definition of the previous pass in its source, and still the second
iteration reads a texture that it does not declare. -/
theorem iterations_trail_stray : ∃ template t passes v p,
    (buildStage (trail "c;\n#define u_prevPass x") (planWithin (trail "c;\n#define u_prevPass x") 0)
      trailNode trailStage "n_pass_s" "").run {} = (.ok (template, trailLoop), t) ∧
    Text.occurs (Text.literal "#define u_prevPass") trailStage.text.toList = false ∧
    (iterations (trail "c;\n#define u_prevPass x") template trailLoop).run t = (.ok passes, v) ∧
    passes[1]? = some p ∧ p.id = "n_pass_s_loop1" ∧
    ¬ Mentions p.fragment "uniform sampler2D u_pass_n_pass_s_tex;" := by
  have htest : (match (buildStage (trail "c;\n#define u_prevPass x")
      (planWithin (trail "c;\n#define u_prevPass x") 0) trailNode trailStage "n_pass_s" "").run {} with
    | (.ok r, _) => r.2 == trailLoop && r.1.fragment == String.join strayLines
    | (.error _, _) => false) = true := by
    decide +kernel
  split at htest
  · next r t hrun =>
    obtain ⟨template, l⟩ := r
    obtain ⟨rfl, hfragment⟩ : l = trailLoop ∧ template.fragment = String.join strayLines := by
      simpa using htest
    obtain ⟨passes, v, hiter, hturns⟩ := exists_iterations
      (trail "c;\n#define u_prevPass x") template (show trailLoop.base ≠ "" by decide) t
    obtain ⟨p, hp⟩ : ∃ p, passes[1]? = some p := by
      refine ⟨_, List.getElem?_eq_getElem ?_⟩
      rw [← hturns.length_eq]
      decide
    have hturn := isTurn_of_getElem? hturns hp
    have hid : trailLoop.iterationId (1 : Nat) = "n_pass_s_loop1" := by decide +kernel
    have hpass := hturn.isIteration.id_eq.trans hid
    obtain ⟨fragment, hrebind, rfl⟩ := hturn.exists_eq Nat.one_pos
    have hsampler : Shader.samplerName (trailLoop.previousId (1 : Nat)) = "u_pass_n_pass_s_tex" := by
      decide +kernel
    rw [hfragment, hsampler] at hrebind
    exact ⟨template, t, passes, v, _, hrun, by decide +kernel, hiter, hp, hpass,
      not_mentions_of_stray hrebind⟩
  · cases htest

end RenderGraph.Plan
