import RenderGraph.Plan.Stages
import RenderGraph.Proofs.Shader.Calls
import RenderGraph.Proofs.Source.Signature

/-!
# Calls of entry functions

A call of an entry function passes the coordinate, then what the inputs are given, then variables for
the outputs; the call of a stage passes the colour that it draws as its only output. The entry function
declares its parameters in an order of its own. A call passes what each of its parameters asks for if
the parameters are regular and have as many outputs as the call passes; otherwise arguments are missing,
stand in other places, or are too many.

## Main definitions

* `Plan.Passed`, `Plan.StagePassed`: what is passed for a port
* `Plan.InPlace`: each parameter is passed its own argument

## Main results

* `Plan.calls_in_place_iff`: when calls pass what the parameters ask for
* `Plan.output_first_displaced`: an output that is declared first is passed the argument of an input
-/

namespace RenderGraph.Plan

open Shader (CallContext CallState)
open Source (Interface Regular Signature listed parameter? outputsOf portsOf)

/-- What the call of a node passes for a port: what an input is given, and the variable of an output. -/
inductive Passed (ctx : CallContext) (n : Node) : Bool × Port → String → Prop
  | input {port : Port} {text : String} {s s' : CallState}
      (h : (Shader.argument ctx n port).run s = (.ok text, s')) : Passed ctx n (false, port) text
  | output (port : Port) : Passed ctx n (true, port) (n.outputVar port.id)

/-- What the call of a stage passes for a port: what an input is given, and the colour that it draws as
an output. -/
inductive StagePassed (scene : Scene) (node : Node) (textures : Keyed String) :
    Bool × Port → String → Prop
  | input {port : Port} {text : String} (h : entryArgument scene node textures port = .ok text) :
      StagePassed scene node textures (false, port) text
  | output (port : Port) : StagePassed scene node textures (true, port) "fragColor"

/-- There is one argument for each parameter, and it is what is passed for the port that the parameter
declares. -/
def InPlace (R : Bool × Port → String → Prop) (parameters : List (List String))
    (texts : List String) : Prop :=
  List.Forall₂ (fun parameter text => ∃ port, parameter? parameter = some port ∧ R port text)
    parameters texts

/-- Arguments for ports that stand in the order of the parameters are in place. -/
theorem inPlace_of_map_eq {R : Bool × Port → String → Prop} {ports : List (Bool × Port)}
    {parameters : List (List String)} {texts : List String}
    (h : ports.map some = parameters.map parameter?) (ht : List.Forall₂ R ports texts) :
    InPlace R parameters texts := by
  induction ht generalizing parameters with
  | nil =>
    cases parameters with
    | nil => exact .nil
    | cons => simp at h
  | cons hr _ ih =>
    cases parameters with
    | nil => simp at h
    | cons parameter parameters =>
      rw [List.map_cons, List.map_cons, List.cons.injEq] at h
      exact .cons ⟨_, h.1.symm, hr⟩ (ih h.2)

variable {code : String} {parameters : List (List String)} {io : Interface}

/-! ### Nodes -/

variable {ctx : CallContext} {n : Node}

/-- The arguments of a call, one after the other. -/
theorem leads_arguments_passed (s : CallState) :
    Leads (n.inputs.mapM (Shader.argument ctx n)) (fun texts s' =>
      List.Forall₂ (Passed ctx n) (n.inputs.map (false, ·)) texts ∧
        ∃ lines, s'.lines = s.lines ++ lines) s := by
  refine Ends.mapM (I := fun done texts (s' : CallState) =>
    List.Forall₂ (Passed ctx n) (done.map (false, ·)) texts ∧ ∃ lines, s'.lines = s.lines ++ lines) ?_
    ⟨.nil, [], (List.append_nil _).symm⟩
  rintro done port texts t - ⟨hpassed, lines, ht⟩
  refine ((Shader.leads_argument t).and_run).mono ?_ fun _ _ _ => trivial
  rintro text u ⟨⟨a, -, -, hu⟩, hrun⟩
  rw [List.map_append]
  refine ⟨List.rel_append hpassed (.cons (.input hrun) .nil), lines ++ a.lines, ?_⟩
  rw [hu, ht, List.append_assoc]

/-- The call of a standard node passes what its inputs are given, then its outputs. -/
theorem leads_nodeCall_passed (hk : n.kind = .standard) (s : CallState) :
    Leads (Shader.nodeCall ctx n) (fun _ s' => ∃ lines texts,
      s'.lines = s.lines ++ lines ++ [Shader.callLine n.runName ("uv" :: texts)] ∧
      List.Forall₂ (Passed ctx n) (listed n.inputs n.effectiveOutputs) texts) s := by
  unfold Shader.nodeCall
  rw [hk, Leads, ends_bind, ends_lift]
  show Leads (Shader.callWith ctx n n.effectiveOutputs) _ s
  unfold Shader.callWith
  rw [Leads, ends_bind]
  refine Ends.mono (leads_arguments_passed s) ?_ fun _ _ => id
  rintro arguments t ⟨hpassed, lines, ht⟩
  rw [ends_bind]
  refine (Shader.ends_writeLines _ n.effectiveOutputs t).mono ?_ fun _ _ => id
  rintro _ u ⟨hu, -⟩
  rw [ht, List.append_assoc] at hu
  refine ⟨_, arguments ++ n.effectiveOutputs.map fun p => n.outputVar p.id,
    congrArg (· ++ [_]) hu, List.rel_append hpassed ?_⟩
  rw [List.forall₂_map_left_iff, List.forall₂_map_right_iff, List.forall₂_same]
  exact fun port _ => .output port

/-- The ports of a node that has those of a body stand in the order of the parameters if these are regular
and declare some output. -/
theorem listed_effectiveOutputs_eq_iff (h : Signature code parameters)
    (hio : Source.interface code = .ok io) (hi : n.inputs = io.inputs)
    (ho : n.outputs = io.outputs) :
    (listed n.inputs n.effectiveOutputs).map some = parameters.map parameter? ↔
      Regular code parameters ∧ outputsOf (portsOf parameters) ≠ [] := by
  rw [hi, h.listed_eq_iff hio, ← (h.interface_eq hio).2, ← ho]
  refine and_congr_right fun _ => ?_
  unfold Node.effectiveOutputs
  split
  · next hempty =>
    rw [List.isEmpty_iff] at hempty
    simp [hempty]
  · next hempty => simpa using hempty

/-! ### Stages -/

/-- A program ends with a main function that calls the entry function with some arguments behind the
coordinate. -/
def EndsInCall (fragment : String) (texts : List String) : Prop :=
  ∃ front, fragment = front ++ ("\nvoid main() \x7b run(" ++ ", ".intercalate ("vUv" :: texts) ++
    "); \x7d\n")

/-- The program of a stage ends with a call unless the body has a main function of its own. -/
theorem yields_stageProgram {scene : Scene} {node : Node} {body : String} {textures : Keyed String}
    {isLoop hasFeedback : Bool} (hm : Text.occurs Source.mainDeclaration body.toList = false) :
    Yields (stageProgram scene node body io textures isLoop hasFeedback)
      (fun program => ∃ texts, EndsInCall program.1 texts ∧
        ∀ port, List.Forall₂ (StagePassed scene node textures) (listed io.inputs [port]) texts)
      fun _ => True := by
  unfold stageProgram
  dsimp only
  rw [yields_bind, yields_iff]
  refine ⟨fun d _ => ?_, fun _ _ => trivial⟩
  rw [hm, if_neg Bool.false_ne_true, yields_bind]
  have hall : Yields (io.inputs.mapM (entryArgument scene node textures))
      (List.Forall₂ (fun port text => entryArgument scene node textures port = .ok text) io.inputs)
      fun _ => True :=
    Yields.mapM fun port _ => yields_iff.2 ⟨fun text htext => htext, fun _ _ => trivial⟩
  refine hall.mono (fun arguments hgiven => ?_) fun _ => id
  rw [pure_bind, yields_pure]
  refine ⟨arguments ++ ["fragColor"], ⟨_, rfl⟩, fun port => List.rel_append ?_ ?_⟩
  · rw [List.forall₂_map_left_iff]
    exact hgiven.imp fun _ _ h => .input h
  · exact .cons (.output port) .nil

/-- So does the first pass of a stage. -/
theorem leads_buildStage_call {scene : Scene} {plan : Request → PlanM String} {node : Node}
    {stage : Stage} {key previous : String} {s : State} (hs : stage.source = some code)
    (hm : Text.occurs Source.mainDeclaration code.toList = false)
    (hio : Source.interface code = .ok io) :
    Leads (buildStage scene plan node stage key previous)
      (fun r _ => ∃ texts, EndsInCall r.1.fragment texts ∧
        ∀ port, List.Forall₂ (StagePassed scene node r.1.textures) (listed io.inputs [port]) texts)
      s := by
  have htext : stage.text = code := by rw [Stage.text, hs, Option.getD_some]
  have hbody : stage.body = .ok code := by rw [Stage.body, hs]
  unfold buildStage
  rw [htext, hio, hbody, Leads, ends_bind, ends_lift, yields_ok]
  refine Leads.bind fun _ s => Leads.bind fun textures s => Leads.bind fun texture s => ?_
  rw [Leads, ends_bind, ends_lift, yields_ok]
  refine Leads.bind fun count s => Leads.bind fun _ s => ?_
  rw [Leads, ends_bind, ends_lift]
  refine (yields_stageProgram hm).mono (fun program hprogram => ?_) fun _ => id
  exact Leads.bind fun _ _ => hprogram

/-- The call of a stage passes one output, whatever its port. -/
theorem exists_listed_eq_iff (h : Signature code parameters) (hio : Source.interface code = .ok io) :
    (∃ port, (listed io.inputs [port]).map some = parameters.map parameter?) ↔
      Regular code parameters ∧ (outputsOf (portsOf parameters)).length = 1 := by
  simp only [h.listed_eq_iff hio, exists_and_left, List.length_eq_one_iff]

/-! ### Arguments and parameters -/

/-- The call of a standard node with the ports of a body, and the call of a stage with that body, pass
what the inputs are given and then the outputs. These ports stand in the order of the parameters if and
only if the parameters are regular and declare some output, for a stage exactly one; then each parameter
is passed its own argument. -/
theorem calls_in_place_iff (h : Signature code parameters) (hio : Source.interface code = .ok io) :
    (∀ {ctx : CallContext} {n : Node} {s s' : CallState}, n.kind = .standard →
      n.inputs = io.inputs → n.outputs = io.outputs →
      (Shader.nodeCall ctx n).run s = (.ok (), s') →
      ∃ lines texts,
        s'.lines = s.lines ++ lines ++ [Shader.callLine n.runName ("uv" :: texts)] ∧
        List.Forall₂ (Passed ctx n) (listed n.inputs n.effectiveOutputs) texts ∧
        ((listed n.inputs n.effectiveOutputs).map some = parameters.map parameter? ↔
          Regular code parameters ∧ outputsOf (portsOf parameters) ≠ []) ∧
        (Regular code parameters ∧ outputsOf (portsOf parameters) ≠ [] →
          InPlace (Passed ctx n) parameters texts)) ∧
    ∀ {scene : Scene} {plan : Request → PlanM String} {node : Node} {stage : Stage}
      {key previous : String} {s t : State} {template : RenderPass} {loop : Loop},
      stage.source = some code → Text.occurs Source.mainDeclaration code.toList = false →
      (buildStage scene plan node stage key previous).run s = (.ok (template, loop), t) →
      ∃ texts, EndsInCall template.fragment texts ∧
        (∀ port, List.Forall₂ (StagePassed scene node template.textures)
          (listed io.inputs [port]) texts) ∧
        ((∃ port, (listed io.inputs [port]).map some = parameters.map parameter?) ↔
          Regular code parameters ∧ (outputsOf (portsOf parameters)).length = 1) ∧
        (Regular code parameters ∧ (outputsOf (portsOf parameters)).length = 1 →
          InPlace (StagePassed scene node template.textures) parameters texts) := by
  constructor
  · intro ctx n s s' hk hi ho hr
    obtain ⟨lines, texts, hlines, htexts⟩ := (leads_nodeCall_passed hk s).of_run_ok hr
    have hiff := listed_effectiveOutputs_eq_iff h hio hi ho
    exact ⟨lines, texts, hlines, htexts, hiff, fun hc => inPlace_of_map_eq (hiff.2 hc) htexts⟩
  · intro scene plan node stage key previous s t template loop hs hm hr
    obtain ⟨texts, hcall, htexts⟩ := (leads_buildStage_call hs hm hio).of_run_ok hr
    have hiff := exists_listed_eq_iff h hio
    refine ⟨texts, hcall, htexts, hiff, fun hc => ?_⟩
    obtain ⟨port, hport⟩ := hiff.2 hc
    exact inPlace_of_map_eq hport (htexts port)

/-- A body that declares its input first. -/
def gain : String :=
  "void run(vec2 uv, float k, out vec4 c) \x7b c = vec4(k); \x7d"

/-- The same body, but the output is declared first. -/
def gainInto : String :=
  "void run(vec2 uv, out vec4 c, float k) \x7b c = vec4(k); \x7d"

/-- The ports of both bodies. -/
def gainPorts : Interface where
  inputs := [.ofId "k" .float]
  outputs := [.ofId "c" .vec4]
  valid := true
  index := some 0

/-- A node with one of the bodies. -/
def gainNode (source : String) : Node where
  id := "n"
  source
  inputs := gainPorts.inputs
  outputs := gainPorts.outputs

def gainContext : CallContext where
  scene := { graph := .ofLists [] [], config := {} }

/-- The default overload of both bodies. -/
def gainOverload : Source.Overload where
  inputs := gainPorts.inputs
  outputs := gainPorts.outputs

theorem signature_gain : Signature gain [["float", "k"], ["out", "vec4", "c"]] := by
  refine ⟨[gainOverload], gainOverload, ["vec2", "uv"], ?_⟩
  rw [Source.overloads, Source.tokenize_stripComments, gain, String.toList_ofList]
  decide +kernel

theorem interface_gain : Source.interface gain = .ok gainPorts := by
  rw [Source.interface, Source.overloads, Source.tokenize_stripComments, Source.stageReferences, gain,
    String.toList_ofList]
  decide +kernel

theorem regular_gain : Regular gain [["float", "k"], ["out", "vec4", "c"]] where
  declared := by decide +kernel
  inputsFirst := by decide +kernel
  unreserved := by
    rw [Source.reserved, Source.stageReferences, gain, String.toList_ofList]
    decide +kernel

/-- The body that declares its input first is called in order, by a node and as a stage. -/
theorem calls_in_place_gain :
    (∃ s' lines texts,
      (Shader.nodeCall gainContext (gainNode gain)).run {} = (.ok (), s') ∧
      s'.lines = lines ++ [Shader.callLine "node_n_run" ("uv" :: texts)] ∧
      InPlace (Passed gainContext (gainNode gain)) [["float", "k"], ["out", "vec4", "c"]] texts) ∧
    ∃ template loop t texts,
      (buildStage gainContext.scene (fun _ => pure "") (gainNode "")
        { id := "a", source := some gain } "a" "").run {} = (.ok (template, loop), t) ∧
      EndsInCall template.fragment texts ∧
      InPlace (StagePassed gainContext.scene (gainNode "") template.textures)
        [["float", "k"], ["out", "vec4", "c"]] texts := by
  have h := calls_in_place_iff signature_gain interface_gain
  constructor
  · have hok : ((Shader.nodeCall gainContext (gainNode gain)).run {}).1.isOk = true := by
      decide +kernel
    obtain ⟨_, s', hr⟩ := exists_run_of_isOk hok
    obtain ⟨lines, texts, hlines, -, -, hplace⟩ := h.1 rfl rfl rfl hr
    exact ⟨s', lines, texts, hr, hlines, hplace ⟨regular_gain, by decide +kernel⟩⟩
  · have hok : ((buildStage gainContext.scene (fun _ => pure "") (gainNode "")
        { id := "a", source := some gain } "a" "").run {}).1.isOk = true := by
      decide +kernel
    obtain ⟨⟨template, loop⟩, t, hr⟩ := exists_run_of_isOk hok
    have hmain : Text.occurs Source.mainDeclaration gain.toList = false := by
      rw [gain, String.toList_ofList]
      decide +kernel
    obtain ⟨texts, hcall, -, -, hplace⟩ := h.2 rfl hmain hr
    exact ⟨template, loop, t, texts, hr, hcall, hplace ⟨regular_gain, by decide +kernel⟩⟩

/-- The body that declares its output first has the same ports, and its call passes the default of the
input where the output is declared. -/
theorem output_first_displaced :
    Signature gainInto [["out", "vec4", "c"], ["float", "k"]] ∧
    Source.interface gainInto = .ok gainPorts ∧
    ((Shader.nodeCall gainContext (gainNode gainInto)).run {}).2.lines =
      ["  vec4 out_n_c;", Shader.callLine "node_n_run" ["uv", "0.0", "out_n_c"]] ∧
    ¬ InPlace (Passed gainContext (gainNode gainInto)) [["out", "vec4", "c"], ["float", "k"]]
      ["0.0", "out_n_c"] := by
  refine ⟨⟨[gainOverload], gainOverload, ["vec2", "uv"], ?_⟩, ?_, by decide +kernel, ?_⟩
  · rw [Source.overloads, Source.tokenize_stripComments, gainInto, String.toList_ofList]
    decide +kernel
  · rw [Source.interface, Source.overloads, Source.tokenize_stripComments, Source.stageReferences, gainInto,
      String.toList_ofList]
    decide +kernel
  intro h
  obtain ⟨⟨port, hport, hpassed⟩, -⟩ := List.forall₂_cons.1 h
  have hc : parameter? ["out", "vec4", "c"] = some (true, .ofId "c" .vec4) := by decide +kernel
  cases hc.symm.trans hport
  have hne : (gainNode gainInto).outputVar "c" ≠ "0.0" := by decide +kernel
  generalize htext : "0.0" = text at hpassed
  cases hpassed
  exact hne htext.symm

end RenderGraph.Plan
