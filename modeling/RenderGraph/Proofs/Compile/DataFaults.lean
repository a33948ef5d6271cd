import RenderGraph.Proofs.Compile.Run
import RenderGraph.Proofs.Value.Packing

/-!
# Compilations that raise a fault

A compilation reports what is wrong with the graph in its result. What is wrong with the data of a graph
is not reported: the compilation ends with a fault. The data at fault are numerals that are too long,
stages without a body, and numbers that are too great for what they are used for. For a graph of one
node with one bound input, this is settled by the bound value alone.

Memory is taken as unbounded. Scenes that ask for arrays of 2^59 elements or more, which no machine can
address, are set apart. So are floats that are stored as unsigned words though their integer parts do not
fit. Here they are refused like integers, but how they are stored is up to the library that makes words.

## Main definitions

* `DataFault`: what may be wrong with the data of a scene
* `BoundValue.Unusable`: what may be wrong with a bound value
* `Scene.Overlong`, `BoundValue.HasStrayFloat`: what is set apart

## Main results

* `Compile.compile_ok_or_dataFault`: every compilation returns a result unless its data are at fault
-/

namespace RenderGraph

/-- Why a bound value cannot be used: the length of its uniform cannot be found, or its value cannot be
packed to it. -/
inductive BoundValue.Unusable (fallback : Number) (b : BoundValue) (f : Fault) : Prop
  | length (h : NoLength b.type (some b) b.value fallback f)
  | value {length : Option Nat}
      (hl : declaredLength b.type (some b) b.value fallback = .ok length)
      (h : Unpackable length b.type b.value f)

/-- The value of a global; one that is not set has the default of its type. -/
def Node.globalDefault (n : Node) (length : Option Nat) : Value :=
  match n.globalValue with
  | .null => n.outputType.defaultValue (length.getD 1)
  | value => value

/-- Why the data of a scene cannot be used. -/
inductive DataFault (scene : Scene) : Fault → Prop
  /-- The index in a handle has too many digits. -/
  | handle {e : Edge} {port : String} {base digits : List Char} (he : e ∈ scene.graph.edges)
      (hp : e.targetPort = some port) (hs : splitHandle port.toList = some (base, digits))
      (h : Numeral.greatestLength < digits.length) : DataFault scene .longNumeral
  /-- The order in a directive has too many digits. -/
  | directive {n : Node} {stage : Stage} {t : Source.Token} {label : String} {digits : List Char}
      (hn : n ∈ scene.graph.nodeList) (hs : stage ∈ n.stages)
      (ht : t ∈ Source.tokenize (Source.stripComments stage.text))
      (hd : Source.metadataDigits? t.text = some (label, digits))
      (h : Numeral.greatestLength < digits.length) : DataFault scene .longNumeral
  /-- The number of iterations in a pragma has too many digits. -/
  | loop {n : Node} {stage : Stage} {body : String} {before digits behind : List Char}
      (hn : n ∈ scene.graph.nodeList) (hs : stage ∈ n.stages) (hb : stage.source = some body)
      (hd : Text.search Source.loopArgument none body.toList = some (before, digits, behind))
      (h : Numeral.greatestLength < digits.length) : DataFault scene .longNumeral
  /-- A stage has no body. -/
  | body {n : Node} {stage : Stage} (hn : n ∈ scene.graph.nodeList) (hs : stage ∈ n.stages)
      (h : stage.source = none) : DataFault scene .wrongShape
  /-- The selected element of an array is too great a number. -/
  | index {n : Node} {port : Port} {b : BoundValue} {k : Number} (hn : n ∈ scene.graph.nodeList)
      (hp : port ∈ n.inputs) (ht : port.type.isArray = true) (hb : n.uniforms.get? port.id = some b)
      (hk : b.arrayIndex = some (.number k)) (h : k.IsHuge) : DataFault scene .outOfRange
  /-- The capacity of an array input cannot be found. -/
  | capacity {n : Node} {port : Port} {f : Fault} (hn : n ∈ scene.graph.nodeList)
      (hp : port ∈ n.inputs) (ht : port.type.isArray = true)
      (h : BoundValue.NoCapacity port.type (n.uniforms.get? port.id) scene.fallback f) :
      DataFault scene f
  /-- The capacity of an array that a stage takes cannot be found. -/
  | parameter {n : Node} {stage : Stage} {io : Source.Interface} {port : Port} {f : Fault}
      (hn : n ∈ scene.graph.nodeList) (hs : stage ∈ n.stages)
      (hi : Source.interface stage.text = .ok io) (hp : port ∈ io.inputs)
      (h : BoundValue.NoCapacity port.type none scene.fallback f) : DataFault scene f
  /-- A bound value cannot be used. -/
  | bound {n : Node} {key : String} {b : BoundValue} {f : Fault} (hn : n ∈ scene.graph.nodeList)
      (hb : n.uniforms.get? key = some b) (h : b.Unusable scene.fallback f) : DataFault scene f
  /-- The length of a global array cannot be found. -/
  | globalLength {n : Node} {f : Fault} (hn : n ∈ scene.graph.nodeList) (hk : n.kind = .globalVar)
      (h : BoundValue.NoLength n.outputType (n.uniforms.get? "value") n.globalValue scene.fallback f) :
      DataFault scene f
  /-- A global value cannot be packed. -/
  | globalValue {n : Node} {length : Option Nat} {f : Fault} (hn : n ∈ scene.graph.nodeList)
      (hk : n.kind = .globalVar)
      (hl : BoundValue.declaredLength n.outputType (n.uniforms.get? "value") n.globalValue
        scene.fallback = .ok length)
      (h : Unpackable length n.outputType (n.globalDefault length) f) : DataFault scene f

/-- An array is asked to have at least 2^59 elements, by the fallback or by a widget. With up to four
components of four bytes each, they are more than 64 bits can address. -/
inductive Scene.Overlong (scene : Scene) : Prop
  | fallback {length : Nat} (h : BoundValue.fallbackCapacity scene.fallback = .ok length)
      (hl : 2 ^ 59 ≤ length) : Overlong scene
  | stated {n : Node} {key : String} {b : BoundValue} {length : Nat} (hn : n ∈ scene.graph.nodeList)
      (hb : n.uniforms.get? key = some b) (h : b.statedLength = .ok (some length))
      (hl : 2 ^ 59 ≤ length) : Overlong scene

/-- A component of an unsigned vector is a float whose integer part is no word. -/
def BoundValue.HasStrayFloat (b : BoundValue) : Prop :=
  b.type.isUnsigned = true ∧ ∃ items x k, b.value = .list items ∧ .number (.float x) ∈ items ∧
    x.trunc = .ok k ∧ (k < 0 ∨ 2 ^ 32 ≤ k)

variable {scene : Scene} {f : Fault}

/-! ### Values -/

/-- A uniform is declared unless its bound value cannot be used. -/
theorem Shader.failsFor_declareBound (scene : Scene) (name : String) (b : BoundValue)
    (d : Declarations) :
    FailsFor (declareBound scene name b d) (b.Unusable scene.fallback) := by
  refine ((BoundValue.failsFor_declaredLength _ _ _ _).bind fun length _ =>
    (failsFor_pack b.type b.value length).map _).congr fun f => ⟨?_, ?_⟩
  · rintro (h | ⟨length, hl, h⟩)
    · exact .length h
    · exact .value hl h
  · rintro (h | ⟨hl, h⟩)
    · exact Or.inl h
    · exact Or.inr ⟨_, hl, h⟩

theorem Shader.failsIn_declareGlobal {n : Node} (hn : n ∈ scene.graph.nodeList)
    (hk : n.kind = .globalVar) (d : Declarations) :
    FailsIn (declareGlobal scene n d) (DataFault scene) := by
  refine FailsIn.bind ((BoundValue.failsFor_declaredLength _ _ _ _).failsIn
    fun f hf => .globalLength hn hk hf) fun length hl => ?_
  have hpack : FailsIn (pack n.outputType (n.globalDefault length) length) (DataFault scene) :=
    (failsFor_pack _ _ _).failsIn fun f hf => .globalValue hn hk hl hf
  exact hpack.bind fun _ _ => trivial

/-- The uniforms of an input proxy are always declared. -/
theorem Shader.exists_declareProxy (n : Node) (d : Declarations) :
    ∃ d', declareProxy n d = .ok d' := by
  rw [declareProxy]
  split
  · exact ⟨d, rfl⟩
  · generalize n.outputs = ports
    induction ports generalizing d with
    | nil => exact ⟨d, rfl⟩
    | cons port ports ih =>
      obtain ⟨v, hv⟩ := exists_pack_defaultValue port.type
      rw [List.foldlM_cons, hv]
      exact ih _

theorem BoundValue.Unusable.isCompilation_eq_false {fallback : Number} {b : BoundValue}
    (h : b.Unusable fallback f) : f.isCompilation = false := by
  rcases h with h | ⟨-, h⟩
  · exact h.2.isCompilation_eq_false
  · exact h.isCompilation_eq_false

/-! ### Causes -/

/-- A value that cannot be packed is a fault of data. -/
theorem PackingFault.dataFault (h : PackingFault scene f) : DataFault scene f := by
  rcases h with ⟨hn, hp, ht, h⟩ | ⟨hn, hs, hi, hp, -, h⟩ | ⟨hn, hb, h⟩ | ⟨hn, hk, h⟩ | ⟨hn, hk, h⟩
  · exact .capacity hn hp ht (failsIn_iff.1 (BoundValue.failsFor_capacity _ _ _).fails f h)
  · exact .parameter hn hs hi hp (failsIn_iff.1 (BoundValue.failsFor_capacity _ _ _).fails f h)
  · exact .bound hn hb (failsIn_iff.1 (Shader.failsFor_declareBound _ _ _ _).fails f h)
  · exact failsIn_iff.1 (Shader.failsIn_declareGlobal hn hk _) f h
  · obtain ⟨d, hd⟩ := Shader.exists_declareProxy _ _
    cases h.symm.trans hd

theorem Numeral.read_eq_error_iff {digits : List Char} :
    Numeral.read digits = .error f ↔ greatestLength < digits.length ∧ f = .longNumeral := by
  by_cases h : digits.length ≤ greatestLength
  · simp [Numeral.read, h, Nat.not_lt.2 h]
  · simp [Numeral.read, h, Nat.not_le.1 h, eq_comm]

theorem failsIn_handle {e : Edge} (he : e ∈ scene.graph.edges) :
    FailsIn e.arrayElement (DataFault scene) := by
  rw [Edge.arrayElement]
  split
  · trivial
  · next port hp =>
    rw [arrayElement]
    split
    · trivial
    · next base digits hs =>
      refine FailsIn.map (failsIn_iff.2 fun f hf => ?_) _
      obtain ⟨hlong, rfl⟩ := Numeral.read_eq_error_iff.1 hf
      exact .handle he hp hs hlong

/-- An overload is read unless the nearest directive before it holds too long a numeral. -/
theorem failsIn_ofTokens {n : Node} {stage : Stage} (hn : n ∈ scene.graph.nodeList)
    (hs : stage ∈ n.stages) {directive : Option String}
    (hd : ∀ d ∈ directive, ∃ t ∈ Source.tokenize (Source.stripComments stage.text), t.text = d)
    (index : Nat) (tokens : List Source.Token) :
    FailsIn (Source.Overload.ofTokens directive index tokens) (DataFault scene) := by
  refine FailsIn.bind ?_ fun _ _ => trivial
  cases directive with
  | none => trivial
  | some d =>
    obtain ⟨t, ht, rfl⟩ := hd d rfl
    rw [Source.metadataBehind, Source.metadata]
    split
    · trivial
    · next label digits hdigits =>
      refine FailsIn.map (failsIn_iff.2 fun f hf => ?_) _
      obtain ⟨hlong, rfl⟩ := Numeral.read_eq_error_iff.1 hf
      exact .directive hn hs ht hdigits hlong

theorem failsIn_directives {n : Node} {stage : Stage} (hn : n ∈ scene.graph.nodeList)
    (hs : stage ∈ n.stages) : FailsIn (Source.interface stage.text) (DataFault scene) := by
  have hfrom (tokens : List Source.Token) (directive : Option String) (index : Nat)
      (hsub : ∀ t ∈ tokens, t ∈ Source.tokenize (Source.stripComments stage.text))
      (hd : ∀ d ∈ directive, ∃ t ∈ Source.tokenize (Source.stripComments stage.text), t.text = d) :
      FailsIn (Source.overloadsFrom directive index tokens) (DataFault scene) := by
    induction tokens generalizing directive index with
    | nil => trivial
    | cons t ts ih =>
      have hrest : ∀ u ∈ ts, u ∈ Source.tokenize (Source.stripComments stage.text) :=
        fun u hu => hsub u (List.mem_cons_of_mem t hu)
      have hnext : ∀ d ∈ (if t.kind = .directive then some t.text else directive),
          ∃ u ∈ Source.tokenize (Source.stripComments stage.text), u.text = d := by
        intro d h
        split at h
        · exact ⟨t, hsub t List.mem_cons_self, Option.some.inj h⟩
        · exact hd d h
      rw [Source.overloadsFrom]
      split
      · refine FailsIn.bind (failsIn_ofTokens hn hs hd _ _) fun o _ => ?_
        exact (ih _ _ hrest hnext).bind fun _ _ => trivial
      · exact ih _ _ hrest hnext
  rw [Source.interface]
  refine FailsIn.bind (hfrom _ none 0 (fun _ => id) (by simp)) fun all _ => ?_
  split <;> trivial

theorem failsIn_iterations {n : Node} {stage : Stage} {body : String}
    (hn : n ∈ scene.graph.nodeList) (hs : stage ∈ n.stages) (hb : stage.body = .ok body) :
    FailsIn (stage.loopCount body) (DataFault scene) := by
  have hsource : stage.source = some body := by
    rw [Stage.body] at hb
    split at hb
    · next h => exact h.trans (congrArg some (Except.ok.inj hb))
    · cases hb
  rw [Stage.loopCount]
  split
  · trivial
  · refine FailsIn.map ?_ _
    rw [Stage.pragmaLoop]
    split
    · next before digits behind hd =>
      refine FailsIn.map (failsIn_iff.2 fun f hf => ?_) _
      obtain ⟨hlong, rfl⟩ := Numeral.read_eq_error_iff.1 hf
      exact .loop hn hs hsource hd hlong
    · trivial

/-- What cannot be read is a fault of data. -/
theorem ReadingFault.dataFault (h : ReadingFault scene f) : DataFault scene f := by
  rcases h with ⟨he, h⟩ | ⟨hn, hs, h⟩ | ⟨hn, hs, h⟩ | ⟨hn, hs, hb, h⟩ | ⟨hn, hp, ht, h⟩
  · exact failsIn_iff.1 (failsIn_handle he) f h
  · exact failsIn_iff.1 (failsIn_directives hn hs) f h
  · rw [Stage.body] at h
    split at h
    · cases h
    · next hnone =>
      cases h
      exact .body hn hs hnone
  · exact failsIn_iff.1 (failsIn_iterations hn hs hb) f h
  · obtain ⟨k, hk, hhuge, rfl⟩ := failsIn_iff.1 (BoundValue.failsFor_statedIndex _).fails f h
    obtain ⟨b, hb, hk⟩ := Option.bind_eq_some_iff.1 hk
    exact .index hn hp ht hb hk hhuge

/-- What is wrong with a graph is reported. -/
theorem GraphFault.isCompilation (h : GraphFault scene f) : f.isCompilation = true := by
  rcases h with _ | _ | _
  · rfl
  · rfl
  · rfl

/-- A fault that is not reported is a fault of data. -/
theorem Cause.dataFault (h : Cause scene f) (hf : f.isCompilation = false) : DataFault scene f := by
  rcases h with h | h | h
  · rw [h.isCompilation] at hf
    cases hf
  · exact h.dataFault
  · exact h.dataFault

namespace Compile

/-- The planning of a target fails in what is reported or by a fault of data. -/
theorem ends_planTarget_dataFault (scene : Scene) (id : String) (port : Option String) :
    Ends (planTarget scene id port) (fun _ _ => True)
      (fun f _ => f.isCompilation = false → DataFault scene f) {} := by
  cases hn : scene.graph.node? id with
  | none =>
    rw [planTarget, ends_bind, Graph.requireNode, hn, ends_lift]
    exact fun h => by cases h
  | some node =>
    rw [planTarget, ends_bind, Graph.requireNode, hn, ends_lift, yields_ok]
    have hmem : id ∈ scene.graph.nodes.keys :=
      scene.graph.id_eq hn ▸ Graph.id_mem_keys (Graph.mem_nodeList_of_node? hn)
    have hplan {request : Plan.Request} (hr : request.node = id) :
        Ends (Plan.plan scene request) (fun _ _ => True)
          (fun f _ => f.isCompilation = false → DataFault scene f) {} :=
      (ends_plan (hr ▸ hmem)).mono (fun _ _ _ => trivial) fun _ _ h hf => h.dataFault hf
    split
    · exact hplan rfl
    · split
      · exact hplan rfl
      · exact hplan rfl
      · split
        · rw [ends_throw]
          exact fun h => by cases h
        · exact hplan rfl

/-- A compilation returns a result, without passes if it reports a failure, unless the data of the graph
are at fault. -/
theorem exists_result_or_dataFault (scene : Scene) (target : Target) :
    (∃ r log, compile scene target = (.ok r, log) ∧ (r.failure ≠ none → r.passes = [])) ∨
      ∃ f log, compile scene target = (.error f, log) ∧ DataFault scene f := by
  rw [compile]
  split
  · exact Or.inl ⟨_, _, rfl, fun _ => rfl⟩
  · exact Or.inl ⟨_, _, rfl, fun _ => rfl⟩
  · next id _ _ =>
    have hends := ends_planTarget_dataFault scene id target.port
    rcases hr : (planTarget scene id target.port).run {} with ⟨outcome, s⟩
    cases outcome with
    | ok q => exact Or.inl ⟨_, _, rfl, fun h => absurd rfl h⟩
    | error f =>
      simp only [resultOf]
      by_cases hf : f.isCompilation = true
      · rw [if_pos hf]
        exact Or.inl ⟨_, _, rfl, fun _ => rfl⟩
      · rw [if_neg hf]
        rw [Bool.not_eq_true] at hf
        exact Or.inr ⟨f, _, rfl, hends.of_run_error hr hf⟩

/-! ### A single bound value -/

/-- A node with one input, to which a value is bound. -/
def boundNode (b : BoundValue) : Node :=
  { id := "n", inputs := [.ofId "x" b.type], uniforms := .ofList [("x", b)] }

/-- A graph of one node with one input, to which a value is bound. -/
def boundScene (config : Config) (b : BoundValue) : Scene where
  graph := .ofLists [boundNode b] []
  config

variable {config : Config} {b : BoundValue}

/-- The capacity of an input of the type of its bound value is the length of its uniform. -/
theorem noCapacity_iff {fallback : Number} (ht : b.type.isArray = true) :
    BoundValue.NoCapacity b.type (some b) fallback f ↔
      BoundValue.NoLength b.type (some b) b.value fallback f := by
  rw [BoundValue.NoLength]
  constructor
  · rintro (⟨⟨⟩, hn, h⟩ | ⟨hx, hb, h⟩)
    · exact ⟨ht, .stated rfl hn h⟩
    · refine ⟨ht, .fallback ?_ hb h⟩
      rw [if_pos (hb b rfl).2, hx]
  · rintro ⟨-, ⟨⟨⟩, hn, h⟩ | ⟨hx, hb, h⟩⟩
    · exact .stated rfl hn h
    · rw [if_pos (hb b rfl).2] at hx
      exact .fallback hx hb h

theorem eq_of_mem_boundScene {n : Node} (hn : n ∈ (boundScene config b).graph.nodeList) :
    n = boundNode b :=
  List.mem_singleton.1 hn

theorem eq_of_get?_boundNode {key : String} {b' : BoundValue}
    (h : (boundNode b).uniforms.get? key = some b') : b' = b := by
  have hmem : (key, b') ∈ [("x", b)] := Keyed.mem_of_get?_ofList h
  exact congrArg Prod.snd (List.mem_singleton.1 hmem)

/-- What may be wrong with the data of one bound value. -/
theorem unusable_of_dataFault (h : DataFault (boundScene config b) f) :
    b.Unusable config.defaultArrayLength f ∨
      b.type.isArray = true ∧ ∃ k, b.arrayIndex = some (.number k) ∧ k.IsHuge ∧ f = .outOfRange := by
  have hport {port : Port} (hp : port ∈ (boundNode b).inputs) : port = .ofId "x" b.type :=
    List.mem_singleton.1 hp
  cases h with
  | handle he => cases he
  | directive hn hs => cases eq_of_mem_boundScene hn; cases hs
  | loop hn hs => cases eq_of_mem_boundScene hn; cases hs
  | body hn hs => cases eq_of_mem_boundScene hn; cases hs
  | parameter hn hs => cases eq_of_mem_boundScene hn; cases hs
  | globalLength hn hk => cases eq_of_mem_boundScene hn; cases hk
  | globalValue hn hk => cases eq_of_mem_boundScene hn; cases hk
  | bound hn hb h =>
    cases eq_of_mem_boundScene hn
    cases eq_of_get?_boundNode hb
    exact Or.inl h
  | capacity hn hp ht h =>
    cases eq_of_mem_boundScene hn
    cases hport hp
    exact Or.inl (.length ((noCapacity_iff ht).1 h))
  | index hn hp ht hb hk h =>
    cases eq_of_mem_boundScene hn
    cases hport hp
    cases eq_of_get?_boundNode hb
    exact Or.inr ⟨ht, _, hk, h, rfl⟩

/-- The bound value cannot be used, or it selects too great an element. -/
def SpoilsNode (config : Config) (b : BoundValue) : Prop :=
  (∃ f, b.Unusable config.defaultArrayLength f) ∨
    b.type.isArray = true ∧ ∃ k, b.arrayIndex = some (.number k) ∧ k.IsHuge

/-- The uniforms of the node are not declared if its bound value cannot be used. -/
private theorem exists_declareNode_error (h : SpoilsNode config b) (d : Declarations) :
    ∃ f, Shader.declareNode (boundScene config b) (boundNode b) d = .error f ∧
      f.isCompilation = false := by
  show ∃ f, Shader.declareInputs (boundScene config b) (boundNode b) d = .error f ∧ _
  have hbound : Shader.declareBoundInputs (boundScene config b) (boundNode b) d =
      Shader.declareBound (boundScene config b) ((boundNode b).uniformName "x") b d := by
    show Shader.declareBound _ _ b d >>= pure = _
    rw [bind_pure]
    rfl
  have hfails := Shader.failsFor_declareBound (boundScene config b) ((boundNode b).uniformName "x") b d
  rw [Shader.declareInputs, hbound]
  cases hd : Shader.declareBound (boundScene config b) ((boundNode b).uniformName "x") b d with
  | error f => exact ⟨f, rfl, (failsIn_iff.1 hfails.fails f hd).isCompilation_eq_false⟩
  | ok d =>
    rcases h with h | ⟨ht, k, hk, hhuge⟩
    · obtain ⟨f, hf⟩ := hfails.exists_error h
      cases hf.symm.trans hd
    · have hindex := BoundValue.failsFor_statedIndex (some b)
      obtain ⟨f, hf⟩ := hindex.exists_error ⟨_, k, hk, hhuge, rfl⟩
      show ∃ f, (if b.type.isArray then _ else _) >>= pure = Except.error f ∧ _
      rw [if_pos ht, bind_pure]
      show ∃ f, BoundValue.selectedIndex b.type (some b) config.defaultArrayLength >>= _ = Except.error f ∧ _
      rw [BoundValue.selectedIndex]
      cases hc : BoundValue.capacity b.type (some b) config.defaultArrayLength with
      | error f =>
        exact ⟨f, rfl, (failsIn_iff.1 (BoundValue.failsFor_capacity _ _ _).fails f hc).isCompilation_eq_false⟩
      | ok length =>
        rw [hf]
        obtain ⟨_, -, -, rfl⟩ := failsIn_iff.1 hindex.fails f hf
        exact ⟨_, rfl, rfl⟩

/-- The pass of the node is not planned if its bound value cannot be used. -/
private theorem ends_planTarget_bound (h : SpoilsNode config b) :
    Ends (planTarget (boundScene config b) "n" none) (fun _ _ => False)
      (fun f _ => f.isCompilation = false) {} := by
  obtain ⟨f, hf, hc⟩ := exists_declareNode_error h {}
  rw [planTarget, ends_bind, ends_lift]
  show Ends (Plan.plan (boundScene config b) { node := "n" }) _ _ {}
  rw [Plan.plan, Plan.planWithin, ends_bind, ends_lift]
  show Ends (Plan.planOutput (boundScene config b) _ (boundNode b) none) _ _ {}
  rw [Plan.planOutput, ends_bind, ends_get]
  show Ends (Plan.whileActive _ _ >>= _) _ _ {}
  rw [ends_bind, Plan.ends_whileActive, Plan.buildPass, ends_bind]
  -- The search finds the node alone.
  show Ends (modify _ >>= fun _ => Plan.writeFragment _ { order := [boundNode b] } _ _ >>= _) _ _ _
  rw [ends_bind, ends_modify, ends_bind]
  have hrun : (Shader.fragment (boundScene config b) .empty [boundNode b] (boundNode b)
      ((boundNode b).outputPort none)).run {} = (.error f, {}) := by
    rw [Shader.fragment, List.foldlM_cons, hf]
    rfl
  show Ends (Plan.writeFragment (boundScene config b) { order := [boundNode b] } (boundNode b)
    ((boundNode b).outputPort none)) _ _ _
  rw [Plan.writeFragment, hrun]
  exact hc

/-- Every compilation returns a result, without passes if it reports a failure, or the data of the graph
are at fault, unless arrays are asked for that no memory holds. For a graph of one bound value, the
compilation raises a fault just when that value cannot be used, if such arrays and floats that do not fit
words are set apart. -/
theorem compile_ok_or_dataFault (scene : Scene) (target : Target) :
    (scene.Overlong ∨
      (∃ r log, compile scene target = (.ok r, log) ∧ (r.failure ≠ none → r.passes = [])) ∨
      ∃ f log, compile scene target = (.error f, log) ∧ DataFault scene f) ∧
    ∀ config b, ¬ (boundScene config b).Overlong → ¬ b.HasStrayFloat →
      ((∃ f log, compile (boundScene config b) { node := some "n" } = (.error f, log)) ↔
        SpoilsNode config b) := by
  refine ⟨Or.inr (exists_result_or_dataFault scene target), fun config b _ _ => ⟨?_, fun h => ?_⟩⟩
  · rintro ⟨f, log, hr⟩
    rcases exists_result_or_dataFault (boundScene config b) { node := some "n" } with
      ⟨r, _, hr', -⟩ | ⟨f', _, hr', hf⟩
    · cases hr.symm.trans hr'
    · exact (unusable_of_dataFault hf).imp (fun h => ⟨_, h⟩) fun ⟨ht, k, hk, h, _⟩ => ⟨ht, k, hk, h⟩
  · have hends := ends_planTarget_bound h
    rcases hr : (planTarget (boundScene config b) "n" none).run {} with ⟨outcome, s⟩
    have htarget : ({ node := some "n" } : Target).node = some "n" := rfl
    rw [compile_eq_of_run htarget (by decide) hr]
    cases outcome with
    | ok q => exact (hends.of_run_ok hr).elim
    | error f =>
      refine ⟨f, s.journal, ?_⟩
      simp [resultOf, hends.of_run_error hr]

/-- An unsigned vector with a negative component. -/
def negativeVector : BoundValue :=
  { type := .uvec2, value := .list [.int (-1), .int 2] }

private theorem not_overlong_negativeVector : ¬ (boundScene {} negativeVector).Overlong := by
  rintro (⟨h, hl⟩ | ⟨hn, hb, h, hl⟩)
  · obtain rfl := Except.ok.inj h
    revert hl
    decide
  · obtain rfl := eq_of_mem_boundScene hn
    obtain rfl := eq_of_get?_boundNode hb
    cases h

/-- The negative component is refused. -/
theorem compile_ok_or_dataFault_negative :
    ¬ (boundScene {} negativeVector).Overlong ∧ ¬ negativeVector.HasStrayFloat ∧
      SpoilsNode {} negativeVector ∧
      ∃ f log, compile (boundScene {} negativeVector) { node := some "n" } = (.error f, log) := by
  have hstray : ¬ negativeVector.HasStrayFloat := by
    rintro ⟨-, items, x, k, ⟨⟩, hx, -⟩
    rcases List.mem_cons.1 hx with hx | hx
    · cases hx
    · cases List.mem_singleton.1 hx
  have hspoils : SpoilsNode {} negativeVector := by
    have hlength : BoundValue.declaredLength .uvec2 (some negativeVector) negativeVector.value
        (.int 16) = .ok none := rfl
    exact Or.inl ⟨.outOfRange, .value hlength
      (.word rfl rfl List.mem_cons_self (.int (Or.inl (by decide))))⟩
  exact ⟨not_overlong_negativeVector, hstray, hspoils,
    ((compile_ok_or_dataFault (boundScene {} negativeVector) { node := some "n" }).2 {} negativeVector
      not_overlong_negativeVector hstray).2 hspoils⟩

/-- The description of a node with an array of words, one of which is too great. -/
def wordDocument : Value :=
  .map [("nodes", .list [.map [("id", .text "n"), ("data", .map
    [("inputs", .list [.map [("id", .text "x"), ("type", .text "int[]")]]),
      ("uniforms", .list [.list [.text "x", .map
        [("type", .text "int[]"), ("value", .list [.int 3000000000])]]])])]])]

/-- A graph that a document describes is not compiled: the compilation raises a fault. -/
theorem compile_word_eq_error :
    ∃ graph, Graph.ofValue wordDocument = .ok graph ∧
      compile { graph, config := {} } { node := some "n" } = (.error .outOfRange, []) := by
  have hrun : (match Graph.ofValue wordDocument with
      | .ok graph =>
        match compile { graph, config := {} } { node := some "n" } with
        | (.error f, log) => f = .outOfRange && log.isEmpty
        | (.ok _, _) => false
      | .error _ => false) = true := by
    decide +kernel
  split at hrun
  · next graph hg =>
    split at hrun
    · next f log hc =>
      rw [Bool.and_eq_true, decide_eq_true_eq, List.isEmpty_iff] at hrun
      obtain ⟨rfl, rfl⟩ := hrun
      exact ⟨graph, hg, hc⟩
    · cases hrun
  · cases hrun

end Compile

end RenderGraph
