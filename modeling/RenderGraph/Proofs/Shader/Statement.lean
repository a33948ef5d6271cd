import Mathlib.Data.List.Forall2
import RenderGraph.Shader.Call

/-!
# Statements and the names that they read

The lines of a main function, and those of the body of a compound, are statements. A statement may
declare a variable, and it reads names: of variables, uniforms, parameters and textures. Both kinds of
lines are made of calls. What an input is given for a call is an expression, which other statements may
have to prepare.

## Main definitions

* `Shader.Reference`, `Shader.Expression`, `Shader.Statement`
* `Shader.Closed`: every name is declared before it is read, or known from elsewhere
* `Shader.sourceExpression`, `Shader.boundExpression?`: what edges and bound values bring
* `Shader.Provision`, `Shader.callStatements`: what an input is given, and the statements of a call

## Main results

* `Shader.boundArgument?_eq_map`: the text of a bound value
* `Shader.closed_callStatements`: what the statements of a call read
-/

namespace RenderGraph.Shader

/-! ### References -/

/-- What a program refers to by a name. -/
inductive Reference
  /-- The variable of an output. -/
  | output (n : Node) (port : Port)
  /-- The uniform of a global value. -/
  | global (n : Node)
  /-- The uniform of the value bound to an input. -/
  | bound (n : Node) (port : Port)
  /-- The array that is assembled for an input. -/
  | array (n : Node) (port : Port)
  /-- A parameter of a compound. -/
  | parameter (port : Port)
  | texture (name : String)
  /-- The coordinate at which a program is run. -/
  | coordinate

def Reference.name : Reference → String
  | output n port => n.outputVar port.id
  | global n => n.globalUniformName
  | bound n port => n.uniformName port.id
  | array n port => arrayName n port
  | parameter port => port.id
  | texture name => name
  | coordinate => "uv"

/-- An expression: what a reference stands for, converted to a type; what a texture shows; or the
default of a type. -/
inductive Expression
  | value (r : Reference) (a b : DataType)
  | sampled (texture : String) (t : DataType)
  | default (t : DataType) (length : Option Nat)

namespace Expression

def text (config : Config) : Expression → String
  | value r a b => cast r.name a b
  | sampled texture t => sample texture t
  | default t length => defaultLiteral config t length

/-- The references in an expression. Defaults are literals, but for those of samplers. -/
def references (config : Config) : Expression → List Reference
  | value r _ _ => [r]
  | sampled texture _ => [.texture texture]
  | default .sampler2D _ => [.texture config.emptyTexture]
  | default .samplerCube _ => [.texture config.emptyCubeTexture]
  | default _ _ => []

theorem eq_of_mem_references_default {config : Config} {t : DataType} {length : Option Nat}
    {r : Reference} (h : r ∈ (default t length).references config) :
    r = .texture config.emptyTexture ∨ r = .texture config.emptyCubeTexture := by
  cases t
  case sampler2D => exact Or.inl (List.mem_singleton.1 h)
  case samplerCube => exact Or.inr (List.mem_singleton.1 h)
  all_goals cases h

end Expression

/-! ### Statements -/

/-- A line of a main function or of the body of a compound. -/
inductive Statement
  /-- Declares the variable of an output. -/
  | output (n : Node) (port : Port)
  /-- Declares the array that is assembled for an input. -/
  | array (n : Node) (port : Port) (length : Nat)
  /-- Copies the bound value of an input to the array. -/
  | copy (n : Node) (port : Port) (length : Nat)
  /-- Assigns an element of the array. -/
  | element (n : Node) (port : Port) (length index : Nat) (value : Expression)
  | call (n : Node) (arguments : List Expression) (results : List Port)
  /-- Assigns an output of a compound. -/
  | assign (port : Port) (value : Expression)
  /-- Writes the colour of a pass. -/
  | colour (value : Expression)

namespace Statement

def text (scene : Scene) : Statement → String
  | output n port => outputDeclaration scene (n.outputVar port.id) port.type
  | array n port length =>
    "  " ++ port.type.element.name ++ " " ++ arrayName n port ++ "[" ++ toString length ++ "] = " ++
      defaultLiteral scene.config port.type (some length) ++ ";"
  | copy n port length =>
    "  for (int i = 0; i < " ++ toString length ++ "; i++) \x7b " ++ arrayName n port ++
      "[i] = " ++ n.uniformName port.id ++ "[i]; \x7d"
  | element n port length index value =>
    elementLine (arrayName n port) length index (value.text scene.config)
  | call n arguments results =>
    callLine n.runName (["uv"] ++ arguments.map (·.text scene.config) ++
      results.map fun port => n.outputVar port.id)
  | assign port value => "  " ++ port.id ++ " = " ++ value.text scene.config ++ ";"
  | colour value => "  fragColor = " ++ value.text scene.config ++ ";"

/-- The names of the variables that a statement declares. -/
def declares : Statement → List String
  | output n port => [n.outputVar port.id]
  | array n port _ => [arrayName n port]
  | _ => []

/-- The references that a statement reads or writes by name. -/
def reads (config : Config) : Statement → List Reference
  | output _ _ | array _ _ _ => []
  | copy n port _ => [.array n port, .bound n port]
  | element n port _ _ value => .array n port :: value.references config
  | call n arguments results =>
    .coordinate :: arguments.flatMap (·.references config) ++ results.map (.output n)
  | assign _ value | colour value => value.references config

end Statement

/-- Every name that a statement reads is declared by a statement before it, or it is known to the
statement. -/
def Closed (config : Config) (known : Statement → Reference → Prop) (statements : List Statement) :
    Prop :=
  ∀ before s after, statements = before ++ s :: after → ∀ r ∈ s.reads config,
    r.name ∈ before.flatMap Statement.declares ∨ known s r

namespace Closed

variable {config : Config} {known known' : Statement → Reference → Prop} {s : Statement}
  {ss ts : List Statement}

theorem nil : Closed config known [] := by
  intro before s after h
  simp at h

theorem mono (h : Closed config known ss) (hk : ∀ s r, known s r → known' s r) :
    Closed config known' ss :=
  fun before s after he r hr => (h before s after he r hr).imp_right (hk s r)

theorem cons (hs : ∀ r ∈ s.reads config, known s r)
    (h : Closed config (fun t r => r.name ∈ s.declares ∨ known t r) ss) :
    Closed config known (s :: ss) := by
  intro before t after he r hr
  cases before with
  | nil =>
    obtain ⟨rfl, -⟩ := List.cons.inj he
    exact Or.inr (hs r hr)
  | cons s' before =>
    obtain ⟨rfl, hrest⟩ := List.cons.inj he
    rw [List.flatMap_cons, List.mem_append]
    rcases h before t after hrest r hr with hb | hs | hk
    · exact Or.inl (Or.inr hb)
    · exact Or.inl (Or.inl hs)
    · exact Or.inr hk

theorem append (h : Closed config known ss)
    (h' : Closed config (fun t r => r.name ∈ ss.flatMap Statement.declares ∨ known t r) ts) :
    Closed config known (ss ++ ts) := by
  intro before t after he r hr
  rcases List.append_eq_append_iff.1 he with ⟨new, rfl, hnew⟩ | ⟨old, rfl, hold⟩
  · rw [List.flatMap_append, List.mem_append]
    rcases h' new t after hnew r hr with hb | hs | hk
    · exact Or.inl (Or.inr hb)
    · exact Or.inl (Or.inl hs)
    · exact Or.inr hk
  · cases old with
    | nil =>
      rw [List.append_nil] at h'
      rcases h' [] t after hold.symm r hr with hb | hs | hk
      · simp at hb
      · exact Or.inl hs
      · exact Or.inr hk
    | cons t' old =>
      obtain ⟨rfl, -⟩ := List.cons.inj hold
      exact h before t old rfl r hr

/-- Statements that read only what is known are closed. -/
theorem of_known (h : ∀ s ∈ ss, ∀ r ∈ s.reads config, known s r) : Closed config known ss := by
  rintro before s after rfl r hr
  exact Or.inr (h s (by simp) r hr)

end Closed

/-! ### What edges and bound values bring -/

variable {config : Config} {n : Node} {port : Port} {known : Reference → Prop}

/-- What a node gives along an edge, as a value of a type: its global value, or the variable of an output. -/
def sourceExpression (source : Node) (port : Option String) (t : DataType) : Expression :=
  if source.kind = .globalVar then .value (.global source) source.outputType t
  else .value (.output source (source.outputPort port)) (source.outputPort port).type t

/-- The bound value of an input, as a value of the input's type. -/
def boundExpression? (n : Node) (port : Port) : Option Expression :=
  (n.uniforms.get? port.id).bind fun b =>
    if b.type = port.type ∨ (!b.type.isArray && !port.type.isArray) = true then
      some (.value (.bound n port) b.type port.type)
    else none

theorem boundArgument?_eq_map (config : Config) (n : Node) (port : Port) :
    boundArgument? n port = (boundExpression? n port).map (Expression.text config) := by
  unfold boundArgument? boundExpression?
  cases n.uniforms.get? port.id with
  | none => rfl
  | some b =>
    by_cases ht : b.type = port.type
    · simp [ht, Expression.text, Reference.name]
    · by_cases ha : (!b.type.isArray && !port.type.isArray) = true
      · simp only [Option.bind_some, ht, ha, if_true, if_false, false_or, Option.map_some]
        rfl
      · simp only [Option.bind_some, ht, ha, if_false, false_or]
        rfl

theorem eq_of_mem_references_bound {x : Expression} (h : boundExpression? n port = some x)
    {r : Reference} (hr : r ∈ x.references config) :
    r = .bound n port ∧ (n.uniforms.get? port.id).isSome = true := by
  obtain ⟨b, hb, h⟩ := Option.bind_eq_some_iff.1 h
  split at h
  · cases h
    exact ⟨List.mem_singleton.1 hr, by rw [hb]; rfl⟩
  · cases h

/-! ### Calls -/

/-- What an input is given, with the statements that prepare it. -/
structure Provision where
  value : Expression
  preparation : List Statement := []

/-- What is read for an input is declared by the preparation, or it is known. -/
structure Provision.IsClosed (config : Config) (known : Reference → Prop) (x : Provision) : Prop where
  preparation : Closed config (fun _ => known) x.preparation
  value : ∀ r ∈ x.value.references config,
    r.name ∈ x.preparation.flatMap Statement.declares ∨ known r

/-- An expression that needs no preparation. -/
theorem Provision.isClosed_of_references {x : Expression} (h : ∀ r ∈ x.references config, known r) :
    Provision.IsClosed config known { value := x } :=
  ⟨.nil, fun r hr => Or.inr (h r hr)⟩

/-- The statements that call a node: those that prepare what its inputs are given, the variables of its
results, and the call. -/
def callStatements (n : Node) (provisions : List Provision) (results : List Port) : List Statement :=
  provisions.flatMap (·.preparation) ++
    (results.map (.output n) ++ [.call n (provisions.map (·.value)) results])

theorem flatMap_preparation_map (values : List Expression) :
    (values.map fun value => ({ value } : Provision)).flatMap (·.preparation) = [] := by
  simp

/-- A call for which nothing has to be prepared. -/
theorem callStatements_unprepared (n : Node) (values : List Expression) (results : List Port) :
    callStatements n (values.map fun value => { value }) results =
      results.map (.output n) ++ [.call n values results] := by
  have hvalues : (values.map fun value => ({ value } : Provision)).map (·.value) = values := by
    rw [List.map_map]
    exact List.map_id values
  rw [callStatements, flatMap_preparation_map, hvalues, List.nil_append]

/-- What is read for some inputs is declared by the preparation, or it is known to one of them. -/
theorem closed_of_forall₂ {refers : Port → Reference → Prop} {ports : List Port}
    {provisions : List Provision}
    (h : List.Forall₂ (fun port x => x.IsClosed config (refers port)) ports provisions) :
    Closed config (fun _ r => ∃ port ∈ ports, refers port r) (provisions.flatMap (·.preparation)) ∧
      ∀ x ∈ provisions, ∀ r ∈ x.value.references config,
        r.name ∈ (provisions.flatMap (·.preparation)).flatMap Statement.declares ∨
          ∃ port ∈ ports, refers port r := by
  induction h with
  | nil => exact ⟨.nil, by simp⟩
  | @cons port x ports provisions hx _ ih =>
    obtain ⟨hclosed, hreads⟩ := ih
    have hfirst (r : Reference) (hr : refers port r) : ∃ p ∈ port :: ports, refers p r :=
      ⟨port, List.mem_cons_self, hr⟩
    have hrest (r : Reference) (hr : ∃ p ∈ ports, refers p r) : ∃ p ∈ port :: ports, refers p r :=
      hr.imp fun p hp => ⟨List.mem_cons_of_mem _ hp.1, hp.2⟩
    rw [List.flatMap_cons]
    refine ⟨(hx.preparation.mono fun _ => hfirst).append (hclosed.mono ?_), ?_⟩
    · exact fun _ r hr => Or.inr (hrest r hr)
    · simp only [List.flatMap_append, List.mem_append]
      refine List.forall_mem_cons.2 ⟨fun r hr => ?_, fun y hy r hr => ?_⟩
      · exact (hx.value r hr).imp Or.inl (hfirst r)
      · exact (hreads y hy r hr).imp Or.inr (hrest r)

/-- The variables of the results are declared. -/
theorem declares_callStatements {provisions : List Provision} {results : List Port}
    (hp : port ∈ results) :
    n.outputVar port.id ∈ (callStatements n provisions results).flatMap Statement.declares := by
  refine List.mem_flatMap.2 ⟨.output n port, ?_, List.mem_singleton_self _⟩
  exact List.mem_append_right _ (List.mem_append_left _ (List.mem_map_of_mem hp))

/-- The statements of a call are closed if what its inputs are given is declared before the call, by the
preparation or as a variable of a result, or known. -/
theorem closed_callStatements {known : Statement → Reference → Prop} {provisions : List Provision}
    {results : List Port} (hclosed : Closed config known (provisions.flatMap (·.preparation)))
    (hcoordinate : known (.call n (provisions.map (·.value)) results) .coordinate)
    (hreads : ∀ x ∈ provisions, ∀ r ∈ x.value.references config,
      r.name ∈ (provisions.flatMap (·.preparation)).flatMap Statement.declares ∨
        r.name ∈ results.map (fun p => n.outputVar p.id) ∨
        known (.call n (provisions.map (·.value)) results) r) :
    Closed config known (callStatements n provisions results) := by
  have hdeclares : (results.map (Statement.output n)).flatMap Statement.declares =
      results.map fun p => n.outputVar p.id := by
    rw [List.flatMap_map, List.map_eq_flatMap]
    rfl
  refine hclosed.append (.append (.of_known ?_) (.of_known (List.forall_mem_singleton.2 fun r hr => ?_)))
  · intro s hs r hr
    obtain ⟨port, -, rfl⟩ := List.mem_map.1 hs
    cases hr
  · rw [hdeclares]
    rw [Statement.reads, List.cons_append, List.mem_cons, List.mem_append] at hr
    rcases hr with rfl | hr | hr
    · exact Or.inr (Or.inr hcoordinate)
    · obtain ⟨_, hx, hr⟩ := List.mem_flatMap.1 hr
      obtain ⟨x, hmem, rfl⟩ := List.mem_map.1 hx
      exact or_left_comm.1 (hreads x hmem r hr)
    · obtain ⟨port, hp, rfl⟩ := List.mem_map.1 hr
      exact Or.inl (List.mem_map.2 ⟨port, hp, rfl⟩)

end RenderGraph.Shader
