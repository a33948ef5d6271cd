import RenderGraph.Proofs.Compile.DataFaults

/-!
# What nodes contribute to uniforms

A node contributes uniforms to the programs that contain it, each under a name and with a value. The
declarations of a program are contributed by nodes of the graph, and the present values of all uniforms
of a graph have a value for every name that a node contributes. Nothing keeps two nodes from
contributing under one name.

## Main definitions

* `BoundValue.Carries`, `Node.CarriesGlobal`: the uniform that carries a value
* `Node.Contributes`, `Scene.Contributes`: the relation between names and uniforms
* `Node.contributions`, `Scene.contributions`: the same as lists

## Main results

* `Node.contributes_iff`, `Scene.contributes_iff`: the lists hold what is contributed
* `Shader.yields_declareNode`: the declarations of a node and of the nodes inside its scope
* `Shader.yields_overrides`, `Shader.failsIn_overrides`: the present values of all uniforms
-/

namespace RenderGraph

/-- The uniform carries a bound value. -/
def BoundValue.Carries (fallback : Number) (b : BoundValue) (u : Uniform) : Prop :=
  ∃ length value, declaredLength b.type (some b) b.value fallback = .ok length ∧
    pack b.type b.value length = .ok value ∧ u = { type := b.type, value }

/-- The uniform carries the global value of a node. -/
def Node.CarriesGlobal (fallback : Number) (n : Node) (u : Uniform) : Prop :=
  ∃ length value, BoundValue.declaredLength n.outputType (n.uniforms.get? "value") n.globalValue
      fallback = .ok length ∧
    pack n.outputType (n.globalDefault length) length = .ok value ∧ u = { type := n.outputType, value }

/-- What a node itself contributes to uniforms, by name. -/
inductive Node.Contributes (fallback : Number) (n : Node) : String → Uniform → Prop
  /-- The value bound to an input. -/
  | bound {port : Port} {b : BoundValue} {u : Uniform} (hk : n.kind = .standard ∨ n.kind = .compound)
      (hp : port ∈ n.inputs) (hb : n.uniforms.get? port.id = some b) (h : b.Carries fallback u) :
      Contributes fallback n (n.uniformName port.id) u
  /-- The selected index of an array input. -/
  | index {port : Port} {i : Nat} (hk : n.kind = .standard ∨ n.kind = .compound)
      (hp : port ∈ n.inputs) (ht : port.type.isArray = true)
      (h : BoundValue.selectedIndex port.type (n.uniforms.get? port.id) fallback = .ok i) :
      Contributes fallback n (n.uniformName port.id ++ "_index") { type := .int, value := .int i }
  /-- The global value. -/
  | global {u : Uniform} (hk : n.kind = .globalVar) (h : n.CarriesGlobal fallback u) :
      Contributes fallback n n.globalUniformName u
  /-- The default of an output of an input proxy at top level. -/
  | proxy {port : Port} {value : Value} (hk : n.kind = .graphInput) (hs : n.scope = none)
      (hp : port ∈ n.outputs) (h : pack port.type (port.type.defaultValue defaultLength) none = .ok value) :
      Contributes fallback n (n.uniformName port.id) { type := port.type, value }
  /-- A bound value that the stages may read. -/
  | stage {key : String} {b : BoundValue} {u : Uniform} (hk : n.kind = .multiStage)
      (hkey : (key, b) ∈ Shader.stageBindings n) (h : b.Carries fallback u) :
      Contributes fallback n (n.uniformName key) u

/-- What the nodes of a scene contribute to uniforms, by name. -/
def Scene.Contributes (scene : Scene) (name : String) (u : Uniform) : Prop :=
  ∃ n ∈ scene.graph.nodeList, n.Contributes scene.fallback name u

/-! ### Lists of contributions -/

/-- The uniform that carries a bound value. -/
def BoundValue.uniform (fallback : Number) (b : BoundValue) : Except Fault Uniform := do
  let length ← declaredLength b.type (some b) b.value fallback
  let value ← pack b.type b.value length
  pure { type := b.type, value }

/-- The uniform that carries the global value of a node. -/
def Node.globalUniform (fallback : Number) (n : Node) : Except Fault Uniform := do
  let length ← BoundValue.declaredLength n.outputType (n.uniforms.get? "value") n.globalValue fallback
  let value ← pack n.outputType (n.globalDefault length) length
  pure { type := n.outputType, value }

/-- The contributions of the inputs of a node: bound values and selected indices. -/
def Node.inputContributions (fallback : Number) (n : Node) : List (String × Except Fault Uniform) :=
  n.inputs.filterMap (fun port =>
    (n.uniforms.get? port.id).map fun b => (n.uniformName port.id, b.uniform fallback)) ++
  (n.inputs.filter (·.type.isArray)).map fun port =>
    (n.uniformName port.id ++ "_index",
      (BoundValue.selectedIndex port.type (n.uniforms.get? port.id) fallback).map fun i =>
        { type := .int, value := .int i })

/-- The contributions of a node to uniforms, with their names. -/
def Node.contributions (fallback : Number) (n : Node) : List (String × Except Fault Uniform) :=
  match n.kind with
  | .standard | .compound => n.inputContributions fallback
  | .globalVar => [(n.globalUniformName, n.globalUniform fallback)]
  | .graphInput =>
    if n.scope.isSome then []
    else
      n.outputs.map fun port =>
        (n.uniformName port.id,
          (pack port.type (port.type.defaultValue defaultLength) none).map fun value =>
            { type := port.type, value })
  | .graphOutput => []
  | .multiStage => (Shader.stageBindings n).map fun b => (n.uniformName b.1, b.2.uniform fallback)

/-- The contributions of all nodes to uniforms, with their names. -/
def Scene.contributions (scene : Scene) : List (String × Except Fault Uniform) :=
  scene.graph.nodeList.flatMap (Node.contributions scene.fallback)

theorem BoundValue.carries_iff {fallback : Number} {b : BoundValue} {u : Uniform} :
    b.Carries fallback u ↔ b.uniform fallback = .ok u := by
  simp only [Carries, uniform, Fault.bind_eq_ok_iff]
  constructor
  · rintro ⟨length, value, hl, hv, rfl⟩
    exact ⟨length, hl, value, hv, rfl⟩
  · rintro ⟨length, hl, value, hv, hu⟩
    cases hu
    exact ⟨length, value, hl, hv, rfl⟩

theorem Node.carriesGlobal_iff {fallback : Number} {n : Node} {u : Uniform} :
    n.CarriesGlobal fallback u ↔ n.globalUniform fallback = .ok u := by
  simp only [CarriesGlobal, globalUniform, Fault.bind_eq_ok_iff]
  constructor
  · rintro ⟨length, value, hl, hv, rfl⟩
    exact ⟨length, hl, value, hv, rfl⟩
  · rintro ⟨length, hl, value, hv, hu⟩
    cases hu
    exact ⟨length, value, hl, hv, rfl⟩

section Lists

variable {fallback : Number} {n : Node} {name : String} {u : Uniform}

theorem Node.mem_inputContributions_iff :
    (name, .ok u) ∈ n.inputContributions fallback ↔
      (∃ port ∈ n.inputs, ∃ b, n.uniforms.get? port.id = some b ∧ n.uniformName port.id = name ∧
        b.Carries fallback u) ∨
      ∃ port ∈ n.inputs, port.type.isArray = true ∧ n.uniformName port.id ++ "_index" = name ∧
        ∃ i : Nat, BoundValue.selectedIndex port.type (n.uniforms.get? port.id) fallback = .ok i ∧
          { type := .int, value := .int i } = u := by
  simp only [inputContributions, List.mem_append, List.mem_filterMap, List.mem_map, List.mem_filter,
    Option.map_eq_some_iff, Prod.mk.injEq, Fault.map_eq_ok_iff, BoundValue.carries_iff, and_assoc]

theorem Node.contributions_of_inputs (hk : n.kind = .standard ∨ n.kind = .compound) :
    n.contributions fallback = n.inputContributions fallback := by
  rcases hk with hk | hk <;> simp only [contributions, hk]

/-- A node contributes what stands in the list of its contributions. -/
theorem Node.contributes_iff :
    n.Contributes fallback name u ↔ (name, .ok u) ∈ n.contributions fallback := by
  constructor
  · intro h
    cases h with
    | @bound port b u hk hp hb h =>
      rw [contributions_of_inputs hk, mem_inputContributions_iff]
      exact Or.inl ⟨port, hp, b, hb, rfl, h⟩
    | @index port i hk hp ht h =>
      rw [contributions_of_inputs hk, mem_inputContributions_iff]
      exact Or.inr ⟨port, hp, ht, rfl, i, h, rfl⟩
    | global hk h => simp [contributions, hk, carriesGlobal_iff.1 h]
    | @proxy port value hk hs hp h =>
      simp only [contributions, hk, hs]
      exact List.mem_map.2 ⟨port, hp, by rw [h]; rfl⟩
    | @stage key b u hk hkey h =>
      simp only [contributions, hk]
      exact List.mem_map.2 ⟨(key, b), hkey, by rw [BoundValue.carries_iff.1 h]⟩
  · intro h
    have hinputs (hk : n.kind = .standard ∨ n.kind = .compound) : n.Contributes fallback name u := by
      rw [contributions_of_inputs hk, mem_inputContributions_iff] at h
      rcases h with ⟨port, hp, b, hb, rfl, h⟩ | ⟨port, hp, ht, rfl, i, h, rfl⟩
      · exact .bound hk hp hb h
      · exact .index hk hp ht h
    cases hk : n.kind with
    | standard => exact hinputs (Or.inl hk)
    | compound => exact hinputs (Or.inr hk)
    | globalVar =>
      simp only [contributions, hk, List.mem_singleton, Prod.mk.injEq] at h
      obtain ⟨rfl, h⟩ := h
      exact .global hk (carriesGlobal_iff.2 h.symm)
    | graphInput =>
      simp only [contributions, hk] at h
      split at h
      · cases h
      · next hs =>
        obtain ⟨port, hp, heq⟩ := List.mem_map.1 h
        obtain ⟨rfl, hu⟩ := Prod.mk.inj heq
        obtain ⟨value, hv, rfl⟩ := Fault.map_eq_ok_iff.1 hu
        exact .proxy hk (by simpa using hs) hp hv
    | graphOutput =>
      simp only [contributions, hk] at h
      cases h
    | multiStage =>
      simp only [contributions, hk] at h
      obtain ⟨⟨key, b⟩, hb, heq⟩ := List.mem_map.1 h
      obtain ⟨rfl, hu⟩ := Prod.mk.inj heq
      exact .stage hk hb (BoundValue.carries_iff.2 hu)

/-- The nodes of a scene contribute what stands in the list of their contributions. -/
theorem Scene.contributes_iff {scene : Scene} :
    scene.Contributes name u ↔ (name, .ok u) ∈ scene.contributions := by
  simp only [Contributes, contributions, List.mem_flatMap, Node.contributes_iff]

end Lists

/-! ### Declarations -/

namespace Declarations

variable {C C' : String → Uniform → Prop} {d d' d'' : Declarations}

/-- The name is declared. -/
def Has (d : Declarations) (name : String) : Prop :=
  d.uniforms.contains name = true

/-- Every name that is declared has a line. -/
def Listed (d : Declarations) : Prop :=
  ∀ {name}, d.Has name → ∃ t length, declarationLine name t length ∈ d.lines

theorem listed_empty : ({} : Declarations).Listed := by
  intro name h
  cases h

/-- The declarations have grown by contributions. -/
structure Grown (C : String → Uniform → Prop) (d d' : Declarations) : Prop where
  keeps : ∀ {name}, d.Has name → d'.Has name
  origin : ∀ {name u}, d'.uniforms.get? name = some u → d.uniforms.get? name = some u ∨ C name u
  lists : d.Listed → d'.Listed

theorem Grown.refl (d : Declarations) : d.Grown C d :=
  ⟨id, Or.inl, fun h => h⟩

theorem Grown.trans (h : d.Grown C d') (h' : d'.Grown C d'') : d.Grown C d'' where
  keeps := fun hd => h'.keeps (h.keeps hd)
  origin := fun hu => (h'.origin hu).elim h.origin Or.inr
  lists := fun hd => h'.lists (h.lists hd)

theorem Grown.mono (h : d.Grown C d') (hC : ∀ name u, C name u → C' name u) : d.Grown C' d' where
  keeps := h.keeps
  origin := fun hu => (h.origin hu).imp_right (hC _ _)
  lists := h.lists

/-- A loop that declares: the declarations grow, and what a round has declared stays declared. -/
theorem yields_foldlM {α : Type} {f : Declarations → α → Except Fault Declarations}
    {P : α → String → Prop} {l : List α}
    (h : ∀ d, ∀ a ∈ l, Yields (f d a) (fun d' => d.Grown C d' ∧ ∀ name, P a name → d'.Has name)
      fun _ => True) (d : Declarations) :
    Yields (l.foldlM f d) (fun d' => d.Grown C d' ∧ ∀ a ∈ l, ∀ name, P a name → d'.Has name)
      fun _ => True := by
  induction l generalizing d with
  | nil => exact ⟨.refl d, by simp⟩
  | cons a l ih =>
    rw [List.foldlM_cons, yields_bind]
    refine (h d a List.mem_cons_self).mono (fun d' hd' => ?_) fun _ => id
    refine (ih (fun d a ha => h d a (List.mem_cons_of_mem _ ha)) d').mono (fun d'' hd'' => ?_) fun _ => id
    refine ⟨hd'.1.trans hd''.1, fun b hb name hname => ?_⟩
    rcases List.mem_cons.1 hb with rfl | hb
    · exact hd''.1.keeps (hd'.2 name hname)
    · exact hd''.2 b hb name hname

/-- One more declaration. -/
theorem grown_declare {name : String} {t : DataType} {value : Value} (h : C name { type := t, value })
    (length : Option Nat) :
    d.Grown C (d.declare name t value length) ∧ (d.declare name t value length).Has name := by
  unfold declare
  by_cases hc : d.uniforms.contains name = true
  · rw [if_pos hc]
    exact ⟨.refl d, hc⟩
  · rw [if_neg hc]
    refine ⟨⟨fun {key} hk => ?_, fun {key} u hu => ?_, fun hl key hk => ?_⟩, ?_⟩
    · rw [Has, Keyed.contains_eq_isSome] at hk ⊢
      rw [Keyed.get?_insert]
      split
      · rfl
      · exact hk
    · rw [Keyed.get?_insert] at hu
      split at hu
      · next hkey =>
        cases hu
        exact Or.inr (hkey ▸ h)
      · exact Or.inl hu
    · rw [Has, Keyed.contains_eq_isSome, Keyed.get?_insert] at hk
      by_cases hkey : key = name
      · exact ⟨t, length, List.mem_append_right _ (hkey ▸ List.mem_cons_self)⟩
      · rw [if_neg hkey, ← Keyed.contains_eq_isSome] at hk
        obtain ⟨t', length', hline⟩ := hl hk
        exact ⟨t', length', List.mem_append_left _ hline⟩
    · rw [Has, Keyed.contains_eq_isSome, Keyed.get?_insert, if_pos rfl]
      rfl

end Declarations

namespace Shader

open Declarations (grown_declare yields_foldlM)

variable {scene : Scene} {n : Node} {C : String → Uniform → Prop}

theorem yields_declareBound {name : String} {b : BoundValue}
    (h : ∀ u, b.Carries scene.fallback u → C name u) (d : Declarations) :
    Yields (declareBound scene name b d) (fun d' => d.Grown C d' ∧ d'.Has name) fun _ => True := by
  rw [declareBound, yields_bind, yields_iff]
  refine ⟨fun length hl => ?_, fun _ _ => trivial⟩
  rw [yields_bind, yields_iff]
  exact ⟨fun value hv => grown_declare (h _ ⟨length, value, hl, hv, rfl⟩) length, fun _ _ => trivial⟩

/-- The declarations of the values bound to the inputs of a node. -/
theorem yields_declareBoundInputs (hk : n.kind = .standard ∨ n.kind = .compound) (d : Declarations) :
    Yields (declareBoundInputs scene n d) (fun d' => d.Grown (n.Contributes scene.fallback) d' ∧
      ∀ port ∈ n.inputs, ∀ name, (n.uniforms.get? port.id).isSome = true ∧ name = n.uniformName port.id →
        d'.Has name) fun _ => True := by
  refine yields_foldlM (fun d port hp => ?_) d
  split
  · next b hb =>
    refine (yields_declareBound (fun u hu => .bound hk hp hb hu) d).mono (fun d' hd' => ⟨hd'.1, ?_⟩)
      fun _ => id
    rintro _ ⟨-, rfl⟩
    exact hd'.2
  · next hb =>
    refine ⟨.refl d, ?_⟩
    rintro _ ⟨hs, -⟩
    rw [hb] at hs
    cases hs

/-- The declarations of the selected indices of a node. -/
theorem yields_declareIndices (hk : n.kind = .standard ∨ n.kind = .compound) (d : Declarations) :
    Yields (declareIndices scene n d) (fun d' => d.Grown (n.Contributes scene.fallback) d' ∧
      ∀ port ∈ n.inputs, ∀ name, port.type.isArray = true ∧ name = n.uniformName port.id ++ "_index" →
        d'.Has name) fun _ => True := by
  refine yields_foldlM (fun d port hp => ?_) d
  split
  · next ht =>
    rw [yields_bind, yields_iff]
    refine ⟨fun i hi => ?_, fun _ _ => trivial⟩
    obtain ⟨hgrown, hhas⟩ := grown_declare (d := d) (Node.Contributes.index hk hp ht hi) none
    refine ⟨hgrown, ?_⟩
    rintro _ ⟨-, rfl⟩
    exact hhas
  · next ht => exact ⟨.refl d, fun _ h => absurd h.1 ht⟩

/-- The declarations of the inputs of a node. -/
theorem yields_declareInputs (hk : n.kind = .standard ∨ n.kind = .compound) (d : Declarations) :
    Yields (declareInputs scene n d) (fun d' => d.Grown (n.Contributes scene.fallback) d' ∧
      ∀ c ∈ n.contributions scene.fallback, d'.Has c.1) fun _ => True := by
  rw [declareInputs, yields_bind]
  refine (yields_declareBoundInputs hk d).mono (fun d' hd' => ?_) fun _ => id
  refine (yields_declareIndices hk d').mono (fun d'' hd'' => ⟨hd'.1.trans hd''.1, ?_⟩) fun _ => id
  intro c hc
  rw [Node.contributions_of_inputs hk, Node.inputContributions, List.mem_append] at hc
  rcases hc with hc | hc
  · obtain ⟨port, hp, hc⟩ := List.mem_filterMap.1 hc
    obtain ⟨b, hb, rfl⟩ := Option.map_eq_some_iff.1 hc
    exact hd''.1.keeps (hd'.2 _ hp _ ⟨by rw [hb]; rfl, rfl⟩)
  · obtain ⟨port, hp, rfl⟩ := List.mem_map.1 hc
    obtain ⟨hp, ht⟩ := List.mem_filter.1 hp
    exact hd''.2 _ hp _ ⟨ht, rfl⟩

theorem yields_declareGlobal (hk : n.kind = .globalVar) (d : Declarations) :
    Yields (declareGlobal scene n d) (fun d' => d.Grown (n.Contributes scene.fallback) d' ∧
      d'.Has n.globalUniformName) fun _ => True := by
  rw [declareGlobal, yields_bind, yields_iff]
  refine ⟨fun length hl => ?_, fun _ _ => trivial⟩
  rw [yields_bind, yields_iff]
  exact ⟨fun value hv => grown_declare (.global hk ⟨length, value, hl, hv, rfl⟩) length,
    fun _ _ => trivial⟩

theorem yields_declareProxy (hk : n.kind = .graphInput) (d : Declarations) :
    Yields (declareProxy n d) (fun d' => d.Grown (n.Contributes scene.fallback) d' ∧
      (n.scope = none → ∀ port ∈ n.outputs, d'.Has (n.uniformName port.id))) fun _ => True := by
  rw [declareProxy]
  split
  · next hs =>
    refine ⟨.refl d, fun hnone => ?_⟩
    rw [hnone] at hs
    cases hs
  · next hs =>
    have hnone : n.scope = none := by simpa using hs
    refine (yields_foldlM (P := fun port name => name = n.uniformName port.id)
      (fun d port hp => ?_) d).mono (fun d' hd' => ⟨hd'.1, fun _ port hp => hd'.2 port hp _ rfl⟩)
      fun _ => id
    rw [yields_bind, yields_iff]
    refine ⟨fun value hv => ?_, fun _ _ => trivial⟩
    obtain ⟨hgrown, hhas⟩ := grown_declare (d := d)
      (Node.Contributes.proxy hk hnone hp hv) none
    exact ⟨hgrown, fun _ h => h ▸ hhas⟩

theorem yields_declareStages (hk : n.kind = .multiStage) (d : Declarations) :
    Yields (declareStages scene n d) (fun d' => d.Grown (n.Contributes scene.fallback) d' ∧
      ∀ b ∈ stageBindings n, ∀ name, name = n.uniformName b.1 → d'.Has name) fun _ => True := by
  refine yields_foldlM (fun d b hb => ?_) d
  refine (yields_declareBound (fun u hu => .stage hk hb hu) d).mono (fun d' hd' => ⟨hd'.1, ?_⟩)
    fun _ => id
  rintro _ rfl
  exact hd'.2

/-- The declarations of a node and of the nodes inside its scope are contributed by nodes of the graph;
with fuel, the names that the node itself contributes are among them. -/
theorem yields_declareWithin (fuel : Nat) (stack : List String) (hn : n ∈ scene.graph.nodeList)
    (d : Declarations) :
    Yields (declareWithin scene fuel stack n d) (fun d' => d.Grown scene.Contributes d' ∧
      (fuel ≠ 0 → n.kind ≠ .multiStage → ∀ c ∈ n.contributions scene.fallback, d'.Has c.1))
      fun _ => True := by
  induction fuel generalizing stack n d with
  | zero => exact ⟨.refl d, fun h => absurd rfl h⟩
  | succ fuel ih =>
    have hscene {d d' : Declarations} (h : d.Grown (n.Contributes scene.fallback) d') :
        d.Grown scene.Contributes d' :=
      h.mono fun name u hu => ⟨n, hn, hu⟩
    have hinputs (hk : n.kind = .standard ∨ n.kind = .compound) :
        Yields (declareInputs scene n d) (fun d' => d.Grown scene.Contributes d' ∧
          ∀ c ∈ n.contributions scene.fallback, d'.Has c.1) fun _ => True :=
      (yields_declareInputs hk d).mono (fun d' hd' => ⟨hscene hd'.1, hd'.2⟩) fun _ => id
    unfold declareWithin
    split
    · next hk =>
      refine (yields_declareGlobal hk d).mono (fun d' hd' => ⟨hscene hd'.1, fun _ _ c hc => ?_⟩) fun _ => id
      simp only [Node.contributions, hk, List.mem_singleton] at hc
      exact hc ▸ hd'.2
    · next hk =>
      refine (yields_declareProxy hk d).mono (fun d' hd' => ⟨hscene hd'.1, fun _ _ c hc => ?_⟩) fun _ => id
      simp only [Node.contributions, hk] at hc
      split at hc
      · cases hc
      · next hs =>
        obtain ⟨port, hp, rfl⟩ := List.mem_map.1 hc
        exact hd'.2 (by simpa using hs) port hp
    · next hk => exact ⟨.refl d, fun _ _ c hc => by simp [Node.contributions, hk] at hc⟩
    · next hk => exact ⟨.refl d, fun _ hne => absurd hk hne⟩
    · next hk => exact (hinputs (Or.inl hk)).mono (fun d' hd' => ⟨hd'.1, fun _ _ => hd'.2⟩) fun _ => id
    · next hk =>
      rw [yields_bind]
      refine (hinputs (Or.inr hk)).mono (fun d' hd' => ?_) fun _ => id
      split
      · exact ⟨hd'.1, fun _ _ => hd'.2⟩
      · have hinner : Yields ((scene.graph.children (some n.id)).foldlM
            (fun d inner => declareWithin scene fuel (stack ++ [n.id]) inner d) d')
            (fun d'' => d'.Grown scene.Contributes d'') fun _ => True := by
          refine Yields.foldlM (fun e inner hi he => ?_) (.refl d')
          exact (ih _ (List.mem_filter.1 hi).1 e).mono (fun e' he' => he.trans he'.1) fun _ => id
        exact hinner.mono (fun d'' hd'' => ⟨hd'.1.trans hd'', fun _ _ c hc =>
          hd''.keeps (hd'.2 c hc)⟩) fun _ => id

/-- The declarations of a node and of the nodes inside its scope. -/
theorem yields_declareNode (hn : n ∈ scene.graph.nodeList) (d : Declarations) :
    Yields (declareNode scene n d) (fun d' => d.Grown scene.Contributes d' ∧
      (n.kind ≠ .multiStage → ∀ c ∈ n.contributions scene.fallback, d'.Has c.1)) fun _ => True :=
  (yields_declareWithin _ [] hn d).mono (fun _ hd' => ⟨hd'.1, hd'.2 (Nat.succ_ne_zero _)⟩) fun _ => id

/-! ### All uniforms of a graph -/

/-- The present values of all uniforms of a graph have a value for each name that is contributed, and
each value is contributed. -/
theorem yields_overrides (scene : Scene) :
    Yields (overrides scene) (fun news =>
      (∀ name u, scene.Contributes name u → (news.get? name).isSome = true) ∧
        ∀ name u, news.get? name = some u → scene.Contributes name u) fun _ => True := by
  rw [overrides, yields_bind]
  refine (yields_foldlM (C := scene.Contributes)
    (P := fun n name => ∃ u, n.Contributes scene.fallback name u) (fun d n hn => ?_) {}).mono
      (fun d hd => ⟨?_, fun name u hu => ?_⟩) fun _ => id
  · split
    · next hk =>
      refine (yields_declareStages hk d).mono (fun d' hd' => ⟨hd'.1.mono fun name u hu => ⟨n, hn, hu⟩, ?_⟩)
        fun _ => id
      rintro _ ⟨_, ⟨hk', -⟩ | ⟨hk', -⟩ | ⟨hk', -⟩ | ⟨hk', -⟩ | ⟨-, hb, -⟩⟩
      case stage => exact hd'.2 _ hb _ rfl
      all_goals simp [hk] at hk'
    · next hk =>
      refine (yields_declareNode hn d).mono (fun d' hd' => ⟨hd'.1, ?_⟩) fun _ => id
      rintro name ⟨u, hu⟩
      exact hd'.2 hk _ (Node.contributes_iff.1 hu)
  · rintro name u ⟨n, hn, hu⟩
    rw [← Keyed.contains_eq_isSome]
    exact hd.2 n hn name ⟨u, hu⟩
  · exact (hd.1.origin hu).resolve_left (by simp [Keyed.get?_empty])

/-- The present values of all uniforms of a graph are found unless its data are at fault. -/
theorem failsIn_overrides (scene : Scene) : FailsIn (overrides scene) (DataFault scene) := by
  refine FailsIn.bind (FailsIn.foldlM (fun d n hn => ?_) _) fun _ _ => trivial
  split
  · refine FailsIn.foldlM (fun d b hb => ?_) d
    have hget := Keyed.mem_entries_iff.1 (List.mem_filter.1 hb).1
    exact (failsFor_declareBound scene _ _ d).failsIn fun f hf => .bound hn hget hf
  · exact failsIn_declareWithin (fun _ h => h.dataFault) (fun _ h => h.dataFault) hn d

end Shader

end RenderGraph
