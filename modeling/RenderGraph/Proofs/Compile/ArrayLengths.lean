import RenderGraph.Proofs.Compile.Scoping
import RenderGraph.Proofs.Plan.Declared

/-!
# The lengths of arrays

The length of an array stands in the line that declares it, and its value is packed into as many elements.
The two are made apart: the line gets the capacity that a widget, the value or the fallback determines,
while packing cuts and pads the value. For bound values and global values both are told one length. The
outputs of input proxies at top level are declared without one, while their values are packed to the
default length; so the line of such an array is no declaration.

## Main definitions

* `Uniform.Holds`: a value that is packed into a number of elements
* `RenderPass.DeclaresArray`: an array with a length that its value has

## Main results

* `size_of_packArray`: an array is packed to its capacity
* `Node.length_of_declarations`: the lengths that nodes declare
* `Compile.declaresArray_or_unsized`: the arrays of the passes of a compilation
-/

namespace RenderGraph

/-! ### Packed lengths -/

/-- The value is packed into a number of elements of its type. -/
def Uniform.Holds (u : Uniform) (elements : Nat) : Prop :=
  ∃ b : Buffer, u.value = .tensor (.flat b) ∧ b.size = elements * u.type.components

/-- Scalars that are read one by one and made up to a size have that size. -/
private theorem length_padTo_of_mapM {α β : Type} {f : α → Except Fault β} {scalars : List α}
    {xs : List β} {size : Nat} (h : (scalars.take size).mapM f = .ok xs) (filler : β) :
    (padTo size filler xs).length = size := by
  have hlength := length_of_mapM h
  rw [List.length_take] at hlength
  rw [length_padTo]
  omega

/-- An array is packed to its capacity. -/
theorem size_of_packArray {e : ArrayElement} {v : Value} {capacity : Nat} {b : Buffer}
    (h : packArray e v capacity = .ok b) : b.size = capacity * e.type.components := by
  obtain ⟨flat, -, h⟩ := Fault.bind_eq_ok_iff.1 h
  cases e with
  | float | int | uint | bool | vec2 | vec3 | vec4 =>
    obtain ⟨xs, hxs, h⟩ := Fault.bind_eq_ok_iff.1 h
    cases h
    exact length_padTo_of_mapM hxs _

private theorem components_array (e : ArrayElement) :
    (DataType.array e).components = e.type.components := by
  cases e <;> rfl

/-- An array is packed to the length that is given. -/
theorem holds_of_pack {t : DataType} {v value : Value} {length : Nat} (ht : t.isArray = true)
    (hl : 0 < length) (h : pack t v (some length) = .ok value) :
    Uniform.Holds { type := t, value } length := by
  cases t with
  | array e =>
    obtain ⟨b, hb, h⟩ := Fault.map_eq_ok_iff.1 h
    cases h
    refine ⟨b, rfl, ?_⟩
    rw [size_of_packArray hb, Option.getD_some, Nat.max_eq_right hl, components_array]
  | _ => cases ht

/-- The default value of an array has the default length. -/
theorem holds_of_pack_defaultValue {t : DataType} {value : Value} (ht : t.isArray = true)
    (h : pack t (t.defaultValue defaultLength) none = .ok value) :
    Uniform.Holds { type := t, value } defaultLength := by
  cases t with
  | array e =>
    obtain ⟨b, hb, h⟩ := Fault.map_eq_ok_iff.1 h
    cases h
    refine ⟨b, rfl, ?_⟩
    have hlength : Value.elementCount (.array e) ((DataType.array e).defaultValue defaultLength) =
        defaultLength := List.length_replicate
    rw [size_of_packArray hb, hlength, components_array]
    rfl
  | _ => cases ht

/-! ### Declared lengths -/

namespace BoundValue

/-- An array is declared with a length. -/
theorem exists_length_of_declaredLength {t : DataType} {bound : Option BoundValue} {v : Value}
    {fallback : Number} {length : Option Nat} (ht : t.isArray = true)
    (h : declaredLength t bound v fallback = .ok length) : ∃ n, length = some n ∧ 0 < n := by
  rw [declaredLength, if_pos ht] at h
  obtain ⟨n, hn, rfl⟩ := Fault.map_eq_ok_iff.1 h
  exact ⟨n, rfl, capacity_pos hn⟩

end BoundValue

/-- The declaration has a positive length, and its value as many elements. -/
def Declaration.IsSized (c : Declaration) : Prop :=
  ∃ n, 0 < n ∧ c.length = some n ∧ c.uniform.Holds n

/-- A bound array is declared with the length that it is packed to. -/
theorem BoundValue.isSized_of_declaration {b : BoundValue} {fallback : Number} {name : String}
    {c : Declaration} (h : b.declaration fallback name = .ok c) (ht : c.uniform.type.isArray = true) :
    c.IsSized := by
  obtain ⟨length, hlength, h⟩ := Fault.bind_eq_ok_iff.1 h
  obtain ⟨value, hvalue, h⟩ := Fault.bind_eq_ok_iff.1 h
  cases h
  obtain ⟨n, rfl, hn⟩ := exists_length_of_declaredLength ht hlength
  exact ⟨n, hn, rfl, holds_of_pack ht hn hvalue⟩

namespace Node

variable {n : Node} {fallback : Number} {c : Declaration}

/-- A global array is declared with the length that it is packed to. -/
theorem isSized_of_globalDeclaration (h : n.globalDeclaration fallback = .ok c)
    (ht : c.uniform.type.isArray = true) : c.IsSized := by
  obtain ⟨length, hlength, h⟩ := Fault.bind_eq_ok_iff.1 h
  obtain ⟨value, hvalue, h⟩ := Fault.bind_eq_ok_iff.1 h
  cases h
  obtain ⟨k, rfl, hk⟩ := BoundValue.exists_length_of_declaredLength ht hlength
  exact ⟨k, hk, rfl, holds_of_pack ht hk hvalue⟩

/-- The declaration is that of an output of an input proxy at top level: it has no length, and its value
has the default one. -/
structure IsProxyDeclaration (n : Node) (c : Declaration) : Prop where
  kind_eq : n.kind = .graphInput
  scope_eq : n.scope = none
  output : ∃ port ∈ n.outputs, n.uniformName port.id = c.name ∧ port.type = c.uniform.type
  length_eq : c.length = none
  holds : c.uniform.Holds defaultLength

/-- An array that a node declares has a length, unless it is an output of an input proxy at top level. -/
theorem length_of_declarations (h : .ok c ∈ n.declarations fallback)
    (ht : c.uniform.type.isArray = true) : c.IsSized ∨ n.IsProxyDeclaration c := by
  cases declares_of_mem h with
  | bound _ _ _ h => exact Or.inl (BoundValue.isSized_of_declaration h ht)
  | index _ _ _ h =>
    obtain ⟨i, -, rfl⟩ := Fault.map_eq_ok_iff.1 h
    cases ht
  | global _ h => exact Or.inl (isSized_of_globalDeclaration h ht)
  | proxy hk hs hp h =>
    obtain ⟨value, hvalue, rfl⟩ := Fault.map_eq_ok_iff.1 h
    exact Or.inr ⟨hk, hs, ⟨_, hp, rfl, rfl⟩, rfl, holds_of_pack_defaultValue ht hvalue⟩

end Node

/-! ### Passes -/

/-- The pass declares an array with a positive length, and the value has as many elements. -/
def RenderPass.DeclaresArray (p : RenderPass) (name : String) (u : Uniform) : Prop :=
  ∃ n, 0 < n ∧ Plan.HasLine p.fragment (declarationLine name u.type (some n)) ∧ u.Holds n

/-- A line that declares an array with a length is not the one that declares it with none. -/
theorem declarationLine_ne {name : String} {t : DataType} (ht : t.isArray = true) (n : Nat) :
    declarationLine name t (some n) ≠ declarationLine name t none := by
  intro h
  have hchars := congrArg String.toList h
  simp only [declarationLine, if_pos ht, String.toList_append] at hchars
  have hlength : (toString n).toList = "None".toList :=
    List.append_cancel_left (List.append_cancel_right hchars)
  have hletter : 'N' ∈ (toString n).toList := by
    rw [hlength]
    decide
  exact absurd (Text.isDigit_of_mem_toString hletter) (by decide)

namespace Compile

open Shader (Program)

variable {scene : Scene} {target : Target} {r : Result} {log : List Journal.Record} {p : RenderPass}
  {name : String} {u : Uniform}

/-- Every array among the uniforms of a pass is declared with a positive length, and its value has as many
elements, but for the outputs of input proxies at top level, and for the stages whose inputs have a key
that breaks a line. -/
theorem declaresArray_or_unsized (h : compile scene target = (.ok r, log)) (hf : r.failure = none)
    (hp : p ∈ r.passes) (hu : p.uniforms.get? name = some u) (ht : u.type.isArray = true) :
    p.DeclaresArray name u ∨
    (∃ n ∈ scene.graph.nodeList, n.kind = .graphInput ∧ n.scope = none ∧
      (∃ port ∈ n.outputs, n.uniformName port.id = name ∧ port.type = u.type) ∧
      Plan.HasLine p.fragment (declarationLine name u.type none) ∧ u.Holds defaultLength) ∨
    ∃ n ∈ scene.graph.nodeList, n.stages ≠ [] ∧
      (∃ b ∈ Shader.stageBindings n, '\n' ∈ b.1.toList) ∧ (∃ k, 0 < k ∧ p.loopIndex = some k) ∧
      ∃ length, 0 < length ∧ u.Holds length := by
  obtain ⟨s, hs, hpasses, -⟩ := exists_steps_of_compile h hf
  obtain ⟨before, after, hsplit⟩ := List.append_of_mem hp
  rcases Plan.exists_drawing (hs.steps.origin rfl (hpasses.trans hsplit)) with hstage | ⟨d, -⟩
  · obtain ⟨n, hn, hstages, b, -, c, hc, rfl, rfl, hline⟩ := hstage.exists_declaration hu ht
    obtain ⟨length, hpos, hlength, hholds⟩ := BoundValue.isSized_of_declaration hc ht
    rw [Declaration.line, hlength] at hline
    rcases hline with hline | ⟨hlater, hkey⟩
    · exact Or.inl ⟨length, hpos, hline, hholds⟩
    · exact Or.inr (Or.inr ⟨n, hn, hstages, hkey, hlater, length, hpos, hholds⟩)
  · obtain ⟨n, hn, c, hc, rfl, rfl, hline⟩ := d.exists_of_get?_uniforms hu
    rw [Declaration.line] at hline
    rcases Node.length_of_declarations hc ht with ⟨length, hpos, hlength, hholds⟩ | hproxy
    · rw [hlength] at hline
      exact Or.inl ⟨length, hpos, hline, hholds⟩
    · rw [hproxy.length_eq] at hline
      exact Or.inr (Or.inl ⟨n, hn.mem_nodeList d.order_subset, hproxy.kind_eq, hproxy.scope_eq,
        hproxy.output, hline, hproxy.holds⟩)

/-- A node with a bound array that asks for more elements than it gives. -/
def switches : Scene where
  graph := .ofLists
    [{ id := "n", inputs := [.ofId "x" (.array .bool)], outputs := [.ofId "o" .vec4],
       uniforms := .ofList [("x", {
         type := .array .bool
         value := .list [.bool true, .bool false]
         settings := .ofList [("arrayLength", .int 3)] })] }] []
  config := {}

theorem declaresArray_or_unsized_switches : ∃ r log p u,
    compile switches { node := some "n" } = (.ok r, log) ∧ r.failure = none ∧ p ∈ r.passes ∧
      p.uniforms.get? "u_n_x" = some u ∧ u.type.isArray = true ∧ p.DeclaresArray "u_n_x" u := by
  have hrun : succeedsWith switches { node := some "n" } (fun r => r.passes.any fun p =>
      (p.uniforms.get? "u_n_x").any (·.type.isArray)) = true := by
    decide +kernel
  obtain ⟨r, log, hr, hf, htest⟩ := exists_of_succeedsWith hrun
  obtain ⟨p, hp, hany⟩ := List.any_eq_true.1 htest
  obtain ⟨u, hu, ht⟩ := (Option.any_eq_true ..).1 hany
  refine ⟨r, log, p, u, hr, hf, hp, hu, ht, ?_⟩
  rcases declaresArray_or_unsized hr hf hp hu ht with hdeclared | ⟨n, hn, hk, -⟩ | ⟨n, hn, hs, -⟩
  · exact hdeclared
  · have hkinds : ∀ n ∈ switches.graph.nodeList, n.kind ≠ .graphInput := by decide +kernel
    exact absurd hk (hkinds n hn)
  · have hstages : ∀ n ∈ switches.graph.nodeList, n.stages.length = 0 := by decide +kernel
    exact absurd (List.length_eq_zero_iff.1 (hstages n hn)) hs

/-- An input proxy with an array. -/
def arrayProxy : Node :=
  { id := "p", kind := .graphInput, outputs := [.ofId "a" (.array .bool)] }

def unsized : Scene where
  graph := .ofLists [arrayProxy] []
  config := {}

/-- The program of the proxy. -/
def unsizedProgram : Program where
  textures := []
  uniforms := [declarationLine "u_p_a" (.array .bool) none]
  functions :=
    ["// Node: p\nvoid node_p_run(vec2 uv, out bool a[16]) \x7b\n  a = u_p_a;\n\x7d\n\n"]
  statements :=
    [.output arrayProxy (.ofId "a" (.array .bool)), .call arrayProxy [] [.ofId "a" (.array .bool)],
      .colour (.value (.output arrayProxy (.ofId "a" (.array .bool))) (.array .bool) .vec4)]

/-- The compilation of the proxy succeeds, but no line among the uniforms of its program declares the
array with a length. -/
theorem proxy_array_unsized : ∃ r log p u,
    compile unsized { node := some "p" } = (.ok r, log) ∧ r.failure = none ∧ p ∈ r.passes ∧
      p.uniforms.get? "u_p_a" = some u ∧ u.type.isArray = true ∧
      p.fragment = unsizedProgram.text unsized ∧
      ∀ n, declarationLine "u_p_a" u.type (some n) ∉ unsizedProgram.uniforms := by
  have hrun : succeedsWith unsized { node := some "p" } (fun r => r.passes.any fun p =>
      (p.uniforms.get? "u_p_a").any (·.type = .array .bool) &&
        p.fragment == unsizedProgram.text unsized) = true := by
    decide +kernel
  obtain ⟨r, log, hr, hf, htest⟩ := exists_of_succeedsWith hrun
  obtain ⟨p, hp, hany⟩ := List.any_eq_true.1 htest
  obtain ⟨hany, hfragment⟩ := Bool.and_eq_true_iff.1 hany
  obtain ⟨u, hu, ht⟩ := (Option.any_eq_true ..).1 hany
  have ht : u.type = .array .bool := of_decide_eq_true ht
  refine ⟨r, log, p, u, hr, hf, hp, hu, by rw [ht]; rfl, eq_of_beq hfragment, fun n hn => ?_⟩
  rw [ht] at hn
  exact declarationLine_ne rfl n (List.mem_singleton.1 hn)

end Compile

end RenderGraph
