import RenderGraph.Proofs.Compile.SharedLengths
import RenderGraph.Proofs.Shader.MainStatements
import RenderGraph.Proofs.Text.Numerals

/-!
# Arrays that are passed as a whole

An array of one node may feed an array input of another one as a whole. Its length is fixed where it is
declared: by a global value, or by the configuration for the variable of an output. The parameter that
receives it has the capacity of the input, which the input's own bound value fixes. Neither looks at the
other, so that they agree only if both ends imply the same length, or one of them implies the length that
the other falls back to. The length of a variable is the fallback as it is written, and so a length only if
the fallback is a positive integer.

## Main definitions

* `BoundValue.impliedLength`, `Node.impliedLength`: the length that one end implies
* `Settles`, `Alike`: a length from one end, and two ends with the same length
* `Shader.PassesArray`: an array is passed as a whole

## Main results

* `Settles.eq_iff`: when two lengths are the same
* `Number.text_eq_toString_iff`: numbers that are written as a length
* `Compile.passed_lengths_agree_iff`: the lengths in the passes of a compilation
-/

namespace RenderGraph

/-! ### Lengths that are implied -/

/-- The length that a widget or a value implies. -/
def BoundValue.impliedLength (t : DataType) (bound : Option BoundValue) : Except Fault (Option Nat) :=
  match bound with
  | none => .ok none
  | some b => do
    match ← b.statedLength with
    | some length => pure (some length)
    | none =>
      pure (if 1 ≤ b.value.elementCount t then some (b.value.elementCount t) else none)

/-- The length that a widget or the value of a global node implies. -/
def Node.impliedLength (n : Node) : Except Fault (Option Nat) := do
  match ← BoundValue.impliedLength n.outputType (n.uniforms.get? "value") with
  | some length => pure (some length)
  | none =>
    let count := n.globalValue.elementCount n.outputType
    pure (if 1 ≤ count then some count else none)

/-- The length is the implied one, or else that of the fallback. -/
def Settles (fallback : Number) (implied : Option Nat) (length : Nat) : Prop :=
  implied = some length ∨ implied = none ∧ BoundValue.fallbackCapacity fallback = .ok length

/-- Both ends imply the same, or one of them implies the length of the fallback and the other one none. -/
def Alike (fallback : Number) (a b : Option Nat) : Prop :=
  a = b ∨ ∃ length, BoundValue.fallbackCapacity fallback = .ok length ∧
    (a = none ∧ b = some length ∨ a = some length ∧ b = none)

variable {fallback : Number}

/-- The lengths of two ends are the same if and only if these are alike. -/
theorem Settles.eq_iff {a b : Option Nat} {m k : Nat} (h : Settles fallback a m)
    (h' : Settles fallback b k) : m = k ↔ Alike fallback a b := by
  rcases h with rfl | ⟨rfl, hm⟩ <;> rcases h' with rfl | ⟨rfl, hk⟩
  · simp [Alike]
  · simp [Alike, hk, eq_comm]
  · simp [Alike, hm, eq_comm]
  · simp [Alike, Except.ok.inj (hm.symm.trans hk)]

/-- A capacity is implied, or else it is that of the fallback. -/
theorem BoundValue.exists_of_capacity {t : DataType} {bound : Option BoundValue} {length : Nat}
    (h : capacity t bound fallback = .ok length) :
    ∃ implied, impliedLength t bound = .ok implied ∧ Settles fallback implied length := by
  cases bound with
  | none => exact ⟨none, rfl, Or.inr ⟨rfl, h⟩⟩
  | some b =>
    obtain ⟨stated, hs, h⟩ := Fault.bind_eq_ok_iff.1 h
    simp only [impliedLength, hs]
    cases stated with
    | some k =>
      cases h
      exact ⟨some length, rfl, Or.inl rfl⟩
    | none =>
      by_cases hc : 1 ≤ b.value.elementCount t
      · obtain rfl : b.value.elementCount t = length := by simpa [pure, Except.pure, hc] using h
        exact ⟨_, rfl, Or.inl (if_pos hc)⟩
      · simp only [hc, if_false] at h
        exact ⟨_, rfl, Or.inr ⟨if_neg hc, h⟩⟩

/-- A global array is declared with the length that its node implies, or else with that of the fallback. -/
theorem Node.exists_of_globalDeclaration {n : Node} {c : Declaration}
    (h : n.globalDeclaration fallback = .ok c) (ht : n.outputType.isArray = true) :
    ∃ implied length, n.impliedLength = .ok implied ∧ Settles fallback implied length ∧
      c.name = n.globalUniformName ∧ c.uniform.type = n.outputType ∧ c.length = some length := by
  obtain ⟨declared, hd, h⟩ := Fault.bind_eq_ok_iff.1 h
  obtain ⟨value, -, h⟩ := Fault.bind_eq_ok_iff.1 h
  cases h
  rw [BoundValue.declaredLength, if_pos ht] at hd
  obtain ⟨length, hlength, rfl⟩ := Fault.map_eq_ok_iff.1 hd
  obtain ⟨bound, hbound, hsettles⟩ := BoundValue.exists_of_capacity hlength
  suffices hown : ∃ implied, n.impliedLength = .ok implied ∧ Settles fallback implied length by
    obtain ⟨implied, himplied, hs⟩ := hown
    exact ⟨implied, length, himplied, hs, rfl, rfl, rfl⟩
  unfold impliedLength
  rw [hbound]
  rcases hsettles with rfl | ⟨rfl, hfallback⟩
  · exact ⟨_, rfl, Or.inl rfl⟩
  · refine ⟨_, rfl, ?_⟩
    by_cases hc : n.globalValue.elementCount n.outputType = 0
    · rw [if_pos hc] at hfallback
      exact Or.inr ⟨if_neg (by omega), hfallback⟩
    -- The fallback of the declaration is the number of elements.
    · have hpos : 1 ≤ n.globalValue.elementCount n.outputType := Nat.one_le_iff_ne_zero.2 hc
      rw [if_neg hc] at hfallback
      have hlength : max 1 (n.globalValue.elementCount n.outputType) = length := Except.ok.inj hfallback
      rw [Nat.max_eq_right hpos] at hlength
      exact Or.inl (by rw [if_pos hpos, hlength])

/-! ### Fallbacks as lengths -/

private theorem exists_notDigit_layout (digits : List Char) (e : Int) :
    ∃ c ∈ (Double.layout digits e).toList, c.isDigit = false := by
  unfold Double.layout
  dsimp only
  split
  · refine ⟨'.', ?_, by decide⟩
    split
    · simp
    · split <;> simp
  · refine ⟨'e', ?_, by decide⟩
    unfold Double.exponentText
    dsimp only
    rw [String.toList_append, List.mem_append]
    refine Or.inr ?_
    rw [String.toList_append, List.mem_append]
    refine Or.inl ?_
    split <;> decide

/-- A number in double precision is not written by digits alone. -/
theorem Double.exists_notDigit (x : Double) : ∃ c ∈ x.text.toList, c.isDigit = false := by
  unfold Double.text
  split
  · exact ⟨'n', by decide, by decide⟩
  dsimp only
  split
  · exact ⟨'i', by simp, by decide⟩
  split
  · exact ⟨'.', by simp, by decide⟩
  · obtain ⟨c, hc, hd⟩ := exists_notDigit_layout (stripZeros (Nat.toDigits 10 x.shortest.1).reverse
      x.shortest.2).1 (stripZeros (Nat.toDigits 10 x.shortest.1).reverse x.shortest.2).2
    exact ⟨c, by rw [String.toList_append]; exact List.mem_append_right _ hc, hd⟩

/-- A number is written like a natural number if and only if it is that number as an integer. -/
theorem Number.text_eq_toString_iff {n : Number} {k : Nat} : n.text = toString k ↔ n = .int k := by
  constructor
  · intro h
    cases n with
    | float x =>
      obtain ⟨c, hc, hd⟩ := x.exists_notDigit
      rw [show x.text = toString k from h] at hc
      rw [Text.isDigit_of_mem_toString hc] at hd
      cases hd
    | int z =>
      have htext : toString z = toString k := h
      rcases Int.lt_or_le z 0 with hz | hz
      · rw [Int.toString_eq_repr, Int.repr_eq_if, if_neg (by omega)] at htext
        have hminus : '-' ∈ (toString k).toList := by
          rw [← htext]
          simp
        exact absurd (Text.isDigit_of_mem_toString hminus) (by decide)
      · obtain ⟨m, rfl⟩ := Int.eq_ofNat_of_zero_le hz
        rw [Text.toString_inj (m := m) (k := k) htext]
  · rintro rfl
    rfl

/-- The fallback is written like a length that one end is given if and only if it is a positive integer, and
the end implies no length or just that one. -/
theorem Settles.text_eq_iff {implied : Option Nat} {length : Nat} (h : Settles fallback implied length)
    (hpos : 1 ≤ length) : fallback.text = toString length ↔
      (∃ k : Nat, 1 ≤ k ∧ fallback = .int k) ∧ Alike fallback none implied := by
  rw [Number.text_eq_toString_iff]
  have hcapacity (k : Nat) (hk : 1 ≤ k) : BoundValue.fallbackCapacity (.int k) = .ok k := by
    show Except.ok (max 1 (Int.toNat k)) = _
    rw [Int.toNat_natCast, Nat.max_eq_right hk]
  constructor
  · rintro rfl
    refine ⟨⟨length, hpos, rfl⟩, (Settles.eq_iff (Or.inr ⟨rfl, hcapacity length hpos⟩) h).1 rfl⟩
  · rintro ⟨⟨k, hk, rfl⟩, halike⟩
    rw [(Settles.eq_iff (Or.inr ⟨rfl, hcapacity k hk⟩) h).2 halike]

namespace Shader

variable {scene : Scene} {order : List Node} {p : RenderPass} {blocks : List Block} {ctx : CallContext}
  {n : Node} {port : Port}

/-! ### Lines of a main function -/

/-- The blocks that call a node are among those of all calls. -/
theorem Calls.exists_called {nodes : List Node} (h : Calls ctx nodes blocks) (hn : n ∈ nodes) :
    ∃ emitted called, Called { ctx with emitted } n called ∧ called ⊆ blocks := by
  induction h with
  | nil => cases hn
  | @cons ctx m nodes blocks blocks' hcalled _ ih =>
    rcases List.mem_cons.1 hn with rfl | hn
    · exact ⟨ctx.emitted, blocks, hcalled, List.subset_append_left _ _⟩
    · obtain ⟨emitted, called, hcalled, hsub⟩ := ih hn
      exact ⟨emitted, called, hcalled, List.subset_append_of_subset_right _ hsub⟩

/-- What calls declare for their results stands among their lines. -/
theorem Calls.outputDeclaration_mem {nodes : List Node} (h : Calls ctx nodes blocks) (hn : n ∈ nodes)
    (hp : port ∈ callResults n) : outputDeclaration ctx.scene (n.outputVar port.id) port.type ∈
      blocks.flatMap (Block.lines ctx.scene) := by
  obtain ⟨_, _, hcalled, hsub⟩ := h.exists_called hn
  have hmem {b : Block} (hb : b ∈ blocks) (hnode : b.node = n) (hp : port ∈ b.results) :
      outputDeclaration ctx.scene (n.outputVar port.id) port.type ∈
        blocks.flatMap (Block.lines ctx.scene) := by
    refine List.mem_flatMap.2 ⟨b, hb, ?_⟩
    simp only [Block.lines, List.mem_append, List.mem_map]
    exact Or.inl (Or.inr ⟨port, hp, by rw [hnode]⟩)
  cases hcalled with
  | uniform hk => simp [callResults, hk] at hp
  | proxy hk => exact hmem (hsub List.mem_cons_self) rfl (by simpa [callResults, hk] using hp)
  | call hk hr _ => exact hmem (hsub List.mem_cons_self) rfl (by rwa [hr, ← callResults_eq hk])

/-- The lines of the blocks are lines of the program. -/
theorem Parts.hasLine (h : Parts scene p order blocks) {line : String}
    (hl : line ∈ blocks.flatMap (Block.lines scene)) : Plan.HasLine p.fragment line := by
  obtain ⟨front, functions, value, -, hcode⟩ := h.fragment_eq
  have hmain : "\n".intercalate (mainLines scene blocks value) =
      "\n".intercalate ["void main() \x7b", "  vec2 uv = vUv;"] ++
        ("\n" ++ "\n".intercalate (blocks.flatMap (Block.lines scene)) ++ "\n") ++
        "\n".intercalate ["  fragColor = " ++ value ++ ";", "\x7d"] := by
    rw [mainLines, String.intercalate_append_of_ne_nil (by simp) (by simp),
      String.intercalate_append_of_ne_nil (by simp) (List.ne_nil_of_mem hl)]
    simp only [String.append_assoc]
  rw [Plan.HasLine, hcode, List.append_cons,
    String.intercalate_append_of_ne_nil (by simp) (List.cons_ne_nil _ _), String.intercalate_singleton,
    hmain]
  exact ((Plan.hasLine_intercalate hl).append_left _).append_right _ |>.append_left _

/-! ### Whole arrays -/

/-- The type of what an edge with a given source port takes from a node. -/
def sentType (source : Node) (sourcePort : Option String) : DataType :=
  if source.kind = .globalVar then source.outputType else (source.outputPort sourcePort).type

/-- A call of a standard node passes a whole array of another node, which an edge brings to an input of the
same type. -/
structure PassesArray (scene : Scene) (b : Block) (a : Argument) (e : Edge) (source : Node) : Prop where
  standard : b.node.kind = .standard
  mem : a ∈ b.arguments
  isArray : a.port.type.isArray = true
  into : scene.graph.edgeInto b.node.id (some a.port.id) = some e
  inlined : a.inlined = [e]
  source_eq : scene.graph.node? e.source = some source
  type_eq : sentType source e.sourcePort = a.port.type

/-- The uniform of a global array is passed. The global node declares it with a length, unless another
declaration of its name supplants this one, and the length is that of the parameter if and only if both ends
are alike. -/
def PassesGlobal (scene : Scene) (p : RenderPass) (order : List Node) (a : Argument) (source : Node)
    (length : Nat) (implied : Option Nat) : Prop :=
  a.text = source.globalUniformName ∧ ∃ (c : Declaration) (own : Option Nat) (declared : Nat),
    source.globalDeclaration scene.fallback = .ok c ∧ scene.KeepsOrSupplants order p source c ∧
      c.name = a.text ∧ c.uniform.type = a.port.type ∧ c.length = some declared ∧
      source.impliedLength = .ok own ∧ (declared = length ↔ Alike scene.fallback own implied)

/-- The variable of an output is passed. Its line has the fallback as its length, and this is the length of
the parameter if and only if it is a positive integer and the receiving end implies no other length. -/
def PassesVariable (scene : Scene) (p : RenderPass) (a : Argument) (e : Edge) (source : Node)
    (length : Nat) (implied : Option Nat) : Prop :=
  let port := source.outputPort e.sourcePort
  a.text = source.outputVar port.id ∧
    (port ∈ callResults source → Plan.HasLine p.fragment
      ("  " ++ port.type.element.name ++ " " ++ a.text ++ "[" ++ scene.fallback.text ++ "];")) ∧
    (scene.fallback.text = toString length ↔
      (∃ k : Nat, 1 ≤ k ∧ scene.fallback = .int k) ∧ Alike scene.fallback none implied)

/-- Without a texture, an input is given what an edge brings, if the source was called before. -/
theorem Argument.Chosen.inlined_eq {a : Argument} {e : Edge} {source : Node}
    (h : Chosen ctx n port a) (ht : ctx.texture? n.id port.id = none)
    (he : ctx.scene.graph.edgeInto n.id (some port.id) = some e)
    (hs : ctx.scene.graph.node? e.source = some source) (hm : source.id ∈ ctx.emitted) :
    a.inlined = [e] := by
  cases h with
  | texture ht' => simp [ht] at ht'
  | edge _ he' => rw [Option.some.inj (he'.symm.trans he)]
  | array _ hn => simp [hn] at he
  | own _ hn => exact absurd (hn e he) (edgeExpression?_ne_none hs hm)

/-- A standard node is passed an array from a node that precedes it. -/
theorem Parts.exists_passesArray (h : Parts scene p order blocks) (hn : n ∈ order)
    (hk : n.kind = .standard) (hport : port ∈ n.inputs) (ht : port.type.isArray = true)
    (htexture : p.textures = .empty) {e : Edge} {source : Node}
    (he : scene.graph.edgeInto n.id (some port.id) = some e)
    (hs : scene.graph.node? e.source = some source) (htype : sentType source e.sourcePort = port.type)
    (hbefore : ∀ before after, order = before ++ n :: after → source ∈ before) :
    ∃ b ∈ blocks, b.node = n ∧ ∃ a, a.port = port ∧ PassesArray scene b a e source := by
  obtain ⟨_, _, hcalled, hsub⟩ := h.calls.exists_called hn
  cases hcalled with
  | uniform hk' => simp [hk] at hk'
  | proxy hk' => simp [hk] at hk'
  | call _ _ hgiven =>
    have hb := hsub List.mem_cons_self
    obtain ⟨a, ha, hgiven⟩ := exists_of_forall₂ hgiven.flip hport
    obtain ⟨port', _, before, after, horder, hchosen⟩ := h.chosen _ hb a ha
    obtain rfl : port = port' := hgiven.port_eq.symm.trans hchosen.given.port_eq
    have hm : source.id ∈ (before.map (·.id)).reverse ++ [] := by
      simpa using ⟨source, hbefore _ _ horder, rfl⟩
    have hinlined := hchosen.inlined_eq (by rw [CallContext.texture?, htexture]; rfl) he hs hm
    have hp := hgiven.port_eq
    exact ⟨_, hb, rfl, a, hp, hk, ha, hp ▸ ht, hp ▸ he, hinlined, hs, hp ▸ htype⟩

/-- A whole array is passed under the name of its uniform or its variable. -/
private theorem PassesArray.exists_text {b : Block} {a : Argument} {e : Edge} {source : Node}
    (h : PassesArray scene b a e source) (hchosen : Argument.Chosen ctx b.node port a)
    (hctx : ctx.scene = scene) : source.id ∈ ctx.emitted ∧
      (source.kind = .globalVar ∧ a.text = source.globalUniformName ∨
        source.kind ≠ .globalVar ∧ a.text = source.outputVar (source.outputPort e.sourcePort).id) := by
  subst hctx
  have hinto := h.into
  have hinlined := h.inlined
  have htype := h.type_eq
  cases hchosen with
  | texture => cases hinlined
  | own => cases hinlined
  | array _ hn => simp [hn] at hinto
  | edge _ he hv =>
    obtain rfl := Option.some.inj (he.symm.trans hinto)
    obtain ⟨source', hs, hm, hcases⟩ := Argument.exists_source_of_edge hv
    obtain rfl := Option.some.inj (hs.symm.trans h.source_eq)
    refine ⟨hm, hcases.imp ?_ ?_⟩
    · rintro ⟨hk, rfl⟩
      rw [sentType, if_pos hk] at htype
      exact ⟨hk, by rw [htype, cast_self]⟩
    · rintro ⟨hk, rfl⟩
      rw [sentType, if_neg hk] at htype
      exact ⟨hk, by rw [htype, cast_self]⟩

/-- Where a whole array is passed, what is passed and what receives it have lengths of their own. -/
theorem Parts.exists_lengths (h : Parts scene p order blocks) {b : Block} (hb : b ∈ blocks)
    {a : Argument} {e : Edge} {source : Node} (ha : PassesArray scene b a e source) :
    ∃ length implied, portCapacity a.port b.node.uniforms scene.fallback = .ok length ∧
      BoundValue.impliedLength a.port.type (b.node.uniforms.get? a.port.id) = .ok implied ∧
      (source.kind = .globalVar ∧ PassesGlobal scene p order a source length implied ∨
        source.kind ≠ .globalVar ∧ PassesVariable scene p a e source length implied) := by
  obtain ⟨port, hport, before, after, horder, hchosen⟩ := h.chosen b hb a ha.mem
  obtain rfl : a.port = port := hchosen.given.port_eq
  obtain ⟨hemitted, hcases⟩ := ha.exists_text hchosen rfl
  have hnode : b.node ∈ order := by
    rw [horder]
    exact List.mem_append_right _ List.mem_cons_self
  obtain ⟨length, hlength, -⟩ := h.exists_index (.listed hnode) ha.standard hport ha.isArray
  obtain ⟨implied, himplied, hsettles⟩ := BoundValue.exists_of_capacity hlength
  -- The node that is passed on was called before.
  have hsource : source ∈ order := by
    obtain ⟨m, hm, hid⟩ := List.mem_map.1 (List.mem_reverse.1 (by simpa using hemitted))
    have hm : m ∈ order := by
      rw [horder]
      exact List.mem_append_left _ hm
    rwa [← Graph.eq_of_id_eq (h.mem m hm) (Graph.mem_nodeList_of_node? ha.source_eq) hid]
  refine ⟨length, implied, hlength, himplied, ?_⟩
  have htype := ha.type_eq
  rcases hcases with ⟨hk, htext⟩ | ⟨hk, htext⟩
  · rw [sentType, if_pos hk] at htype
    obtain ⟨c, hc, hkept⟩ := h.declared source (.listed hsource)
      (source.globalDeclaration scene.fallback) (by simp [Node.declarations, hk])
    obtain ⟨own, declared, hown, hs, hname, hctype, hclength⟩ :=
      Node.exists_of_globalDeclaration hc (htype ▸ ha.isArray)
    exact Or.inl ⟨hk, htext, c, own, declared, hc, hkept, hname.trans htext.symm, hctype.trans htype,
      hclength, hown, hs.eq_iff hsettles⟩
  · rw [sentType, if_neg hk] at htype
    refine Or.inr ⟨hk, htext, fun hp => ?_, hsettles.text_eq_iff (BoundValue.capacity_pos hlength)⟩
    have hline := h.hasLine (h.calls.outputDeclaration_mem hsource hp)
    rw [outputDeclaration, if_pos (htype ▸ ha.isArray), ← htext] at hline
    exact hline

end Shader

namespace Compile

variable {scene : Scene} {target : Target} {r : Result} {log : List Journal.Record} {p : RenderPass}

/-- In every pass that is not drawn for a stage, wherever a standard node is passed a whole array of the same
type, the array and the parameter have the same length if and only if both ends are alike: the array of a
global value has the length that the global node implies, the variable of an output that of the fallback,
and the parameter the capacity of its input. -/
theorem passed_lengths_agree_iff (h : compile scene target = (.ok r, log)) (hf : r.failure = none)
    (hp : p ∈ r.passes) :
    Plan.IsStagePass scene p ∨ ∃ order blocks, Shader.Parts scene p order blocks ∧
      ∀ b ∈ blocks, ∀ a e source, Shader.PassesArray scene b a e source → ∃ length implied,
        Shader.portCapacity a.port b.node.uniforms scene.fallback = .ok length ∧
        BoundValue.impliedLength a.port.type (b.node.uniforms.get? a.port.id) = .ok implied ∧
        (source.kind = .globalVar ∧ Shader.PassesGlobal scene p order a source length implied ∨
          source.kind ≠ .globalVar ∧ Shader.PassesVariable scene p a e source length implied) := by
  refine (exists_parts h hf hp).imp_right ?_
  rintro ⟨order, blocks, hparts⟩
  exact ⟨order, blocks, hparts, fun b hb a e source ha => hparts.exists_lengths hb ha⟩

/-- A global array of four elements. -/
def kernelGlobal : Node :=
  { id := "g", kind := .globalVar, outputType := .array .float, globalName := some "u_kernel",
    globalValue := .list [.int 1, .int 2, .int 1, .int 0] }

/-- A node with an array input, with given bound values. -/
def weighted (uniforms : Keyed BoundValue) : Node :=
  { id := "a", inputs := [.ofId "values" (.array .float)], outputs := [.ofId "total" .float], uniforms }

def kernelEdge : Edge :=
  { source := "g", target := "a", targetPort := some "values" }

/-- The global array is passed to the node. -/
def kernel (uniforms : Keyed BoundValue) : Scene where
  graph := .ofLists [kernelGlobal, weighted uniforms] [kernelEdge]
  config := {}

private theorem nodeList_kernel (uniforms : Keyed BoundValue) :
    (kernel uniforms).graph.nodeList = [kernelGlobal, weighted uniforms] := rfl

/-- The pass of the node collects the global array before the node. -/
private theorem order_kernel {uniforms : Keyed BoundValue} {order : List Node}
    {blocks : List Shader.Block} (h : Shader.Parts (kernel uniforms) p order blocks) (hp : p.id = "a") :
    order = [kernelGlobal, weighted uniforms] ∧ p.textures = .empty := by
  refine h.eq_of_key (n := weighted uniforms) ?_ ?_ { order := [kernelGlobal, weighted uniforms] }
    fun _ _ => rfl
  · rw [nodeList_kernel, List.forall_mem_cons, List.forall_mem_singleton]
    exact ⟨rfl, rfl⟩
  · rw [nodeList_kernel, List.forall_mem_cons, List.forall_mem_singleton, hp]
    exact ⟨fun hkey => absurd hkey (by decide +kernel), fun _ => rfl⟩

private theorem exists_passesKernel {uniforms : Keyed BoundValue} {order : List Node}
    {blocks : List Shader.Block} (h : Shader.Parts (kernel uniforms) p order blocks) (hp : p.id = "a") :
    ∃ b ∈ blocks, b.node = weighted uniforms ∧ ∃ a, a.port = .ofId "values" (.array .float) ∧
      Shader.PassesArray (kernel uniforms) b a kernelEdge kernelGlobal := by
  obtain ⟨rfl, htextures⟩ := order_kernel h hp
  refine h.exists_passesArray (List.mem_cons_of_mem _ List.mem_cons_self) rfl List.mem_cons_self rfl
    htextures rfl rfl rfl fun before after horder => ?_
  cases before with
  | nil => exact NodeKind.noConfusion (congrArg Node.kind (List.cons.inj horder).1)
  | cons m before =>
    obtain ⟨rfl, -⟩ := List.cons.inj horder
    exact List.mem_cons_self

/-- Four elements for the input. -/
def fourElements : Keyed BoundValue :=
  .ofList [("values", {
    type := .array .float
    value := .list [.int 0, .int 0, .int 0, .int 0] })]

theorem passed_lengths_agree_iff_four : ∃ r log p order blocks b a c,
    compile (kernel fourElements) { node := some "a" } = (.ok r, log) ∧ r.failure = none ∧
      p ∈ r.passes ∧ Shader.Parts (kernel fourElements) p order blocks ∧ b ∈ blocks ∧
      Shader.PassesArray (kernel fourElements) b a kernelEdge kernelGlobal ∧
      a.text = "u_kernel" ∧ Shader.portCapacity a.port b.node.uniforms (.int 16) = .ok 4 ∧
      kernelGlobal.globalDeclaration (.int 16) = .ok c ∧ c.name = "u_kernel" ∧ c.length = some 4 ∧
      (kernel fourElements).KeepsOrSupplants order p kernelGlobal c := by
  have hrun : succeedsWith (kernel fourElements) { node := some "a" }
      (fun r => r.passes.any (·.id == "a")) = true := by
    decide +kernel
  obtain ⟨r, log, hr, hf, htest⟩ := exists_of_succeedsWith hrun
  obtain ⟨p, hp, hid⟩ := List.any_eq_true.1 htest
  obtain ⟨order, blocks, hparts, hall⟩ := (passed_lengths_agree_iff hr hf hp).resolve_left
    (Plan.not_isStagePass (by decide +kernel))
  obtain ⟨b, hb, hnode, a, hport, ha⟩ := exists_passesKernel hparts (eq_of_beq hid)
  obtain ⟨length, implied, hlength, himplied, hcases⟩ := hall b hb a _ _ ha
  obtain ⟨-, htext, c, own, declared, hc, hkept, hname, -, hdeclared, hown, hiff⟩ :=
    hcases.resolve_right fun h => h.1 rfl
  rw [hport, hnode] at hlength himplied
  obtain rfl : 4 = length := Except.ok.inj hlength
  obtain rfl : some 4 = implied := Except.ok.inj himplied
  obtain rfl : some 4 = own := Except.ok.inj hown
  obtain rfl : declared = 4 := hiff.2 (Or.inl rfl)
  refine ⟨r, log, p, order, blocks, b, a, c, hr, hf, hp, hparts, hb, ha, htext, ?_, hc,
    hname.trans htext, hdeclared, hkept⟩
  rw [hport, hnode]
  exact hlength

/-- Without a bound value, the array of four elements is passed to a parameter with sixteen. -/
theorem four_elements_for_sixteen : ∃ r log p order blocks b a,
    compile (kernel .empty) { node := some "a" } = (.ok r, log) ∧ r.failure = none ∧ p ∈ r.passes ∧
      Shader.Parts (kernel .empty) p order blocks ∧ b ∈ blocks ∧
      Shader.PassesArray (kernel .empty) b a kernelEdge kernelGlobal ∧ a.text = "u_kernel" ∧
      Plan.HasLine p.fragment "uniform float u_kernel[4];" ∧
      Shader.portCapacity a.port b.node.uniforms (.int 16) = .ok 16 := by
  have hrun : succeedsWith (kernel .empty) { node := some "a" }
      (fun r => r.passes.any (·.id == "a")) = true := by
    decide +kernel
  obtain ⟨r, log, hr, hf, htest⟩ := exists_of_succeedsWith hrun
  obtain ⟨p, hp, hid⟩ := List.any_eq_true.1 htest
  obtain ⟨order, blocks, hparts⟩ := (exists_parts hr hf hp).resolve_left
    (Plan.not_isStagePass (by decide +kernel))
  obtain ⟨b, hb, hnode, a, hport, ha⟩ := exists_passesKernel hparts (eq_of_beq hid)
  obtain ⟨_, _, -, -, hcases⟩ := hparts.exists_lengths hb ha
  have htext := (hcases.resolve_right fun h => h.1 rfl).2.1
  have hcapacity : Shader.portCapacity a.port b.node.uniforms (.int 16) = .ok 16 := by
    rw [hport, hnode]
    rfl
  refine ⟨r, log, p, order, blocks, b, a, hr, hf, hp, hparts, hb, ha, htext, ?_, hcapacity⟩
  have hglobal : kernelGlobal ∈ order := by
    rw [(order_kernel hparts (eq_of_beq hid)).1]
    exact List.mem_cons_self
  obtain ⟨c, hc, hkept⟩ := hparts.declared kernelGlobal (.listed hglobal)
    (kernelGlobal.globalDeclaration (.int 16)) List.mem_cons_self
  have hline : (kernelGlobal.globalDeclaration (.int 16)).map (·.line) =
      .ok "uniform float u_kernel[4];" := by
    decide +kernel
  have hname : (kernelGlobal.globalDeclaration (.int 16)).map (·.name) = .ok "u_kernel" := by
    decide +kernel
  rw [hc] at hline hname
  rcases hkept.kept with hkept | ⟨m, hm, e, he, hne, hename, -⟩
  · rw [← Except.ok.inj hline]
    exact hkept.2
  -- No other declaration has the name.
  · have hmem := hm.mem_nodeList hparts.mem
    rw [nodeList_kernel] at hmem
    rcases List.mem_cons.1 hmem with rfl | hmem
    · exact absurd (Except.ok.inj ((List.mem_singleton.1 he).trans hc)) hne
    · rw [List.mem_singleton.1 hmem] at he
      have hnames : ∀ x ∈ (weighted .empty).declarations (.int 16),
          x.map (·.name) ≠ .ok "u_kernel" := by
        decide +kernel
      exact absurd (congrArg Except.ok (hename.trans (Except.ok.inj hname))) (hnames _ he)

end Compile

end RenderGraph
