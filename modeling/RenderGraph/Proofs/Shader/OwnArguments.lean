import RenderGraph.Proofs.Compile.Record
import RenderGraph.Proofs.Shader.Calls

/-!
# Arguments that no edge brings

An input without an edge of its own is given its bound value or the default of its type. The main function
and the bodies of compounds decide this apart. They agree on all types but arrays: the main function
assembles an array from the edges to its elements, and makes the default as long as the capacity of the
input, while the body of a compound knows neither.

## Main definitions

* `Graph.SparesElements`: no edge leads to an element of an input

## Main results

* `Shader.defaultLiteral_length_inj`: a default array tells its length
* `Shader.innerArgument_agrees_iff`: when an input is given the same inside and outside of compounds
-/

namespace RenderGraph

/-- No edge leads to an element of an input, and the ports of all edges to the node can be read. -/
def Graph.SparesElements (g : Graph) (node port : String) : Prop :=
  ∀ e ∈ g.incoming node, ∃ element, e.arrayElement = .ok element ∧
    ∀ index, element ≠ some (port, index)

namespace Shader

/-! ### Edges to elements -/

/-- A loop that collects what some items have collects nothing if no item has anything. -/
private theorem collected_eq_nil_iff {α β : Type} {f : α → Except Fault (Option β)} {l : List α} :
    (do pure ((← l.mapM f).filterMap id) : Except Fault (List β)) = .ok [] ↔
      ∀ a ∈ l, f a = .ok none := by
  induction l with
  | nil => simp [pure, Except.pure, bind, Except.bind]
  | cons a l ih =>
    rw [List.forall_mem_cons, ← ih, List.mapM_cons]
    cases ha : f a with
    | error e => simp [bind, Except.bind]
    | ok first =>
      cases hl : l.mapM f with
      | error e => simp [bind, Except.bind]
      | ok rest => cases first <;> simp [bind, Except.bind, pure, Except.pure]

variable {ctx : CallContext} {n : Node} {port : Port}

theorem elementEdges_eq_nil_iff : elementEdges ctx n port = .ok [] ↔
    ctx.scene.graph.SparesElements n.id port.id := by
  unfold elementEdges Graph.SparesElements
  rw [collected_eq_nil_iff]
  refine forall₂_congr fun e _ => ?_
  cases he : e.arrayElement with
  | error f => simp [bind, Except.bind]
  | ok element =>
    rcases element with _ | ⟨base, index⟩
    · simp [bind, Except.bind, pure, Except.pure]
    · simp [bind, Except.bind, pure, Except.pure, Prod.ext_iff]

/-! ### Defaults -/

/-- The default of an array begins with its type and its length. -/
private theorem exists_toList_defaultLiteral (config : Config) (e : ArrayElement)
    (length : Option Nat) : ∃ rest, (defaultLiteral config (.array e) length).toList =
      (e.type.name ++ "[").toList ++
        (Nat.toDigits 10 (max 1 (length.getD defaultLength)) ++ ']' :: rest) := by
  let elements := List.replicate (max 1 (length.getD defaultLength)) (elementZero e)
  refine ⟨("(" ++ ", ".intercalate elements ++ ")").toList, ?_⟩
  simp only [defaultLiteral, defaultLiteralNamed, call, Nat.toString_eq_ofList_toDigits,
    String.toList_append, String.toList_ofList, List.append_assoc]
  rfl

/-- A default array tells its length. -/
theorem defaultLiteral_length_inj {config : Config} {t : DataType} {l l' : Option Nat}
    (ht : t.isArray = true) (h : defaultLiteral config t l = defaultLiteral config t l') :
    max 1 (l.getD defaultLength) = max 1 (l'.getD defaultLength) := by
  cases t with
  | array e =>
    obtain ⟨rest, hl⟩ := exists_toList_defaultLiteral config e l
    obtain ⟨rest', hl'⟩ := exists_toList_defaultLiteral config e l'
    rw [h, hl'] at hl
    have hdigits (k : Nat) : ∀ c ∈ Nat.toDigits 10 k, c.isDigit = true :=
      fun c hc => Nat.isDigit_of_mem_toDigits (by decide) (by decide) hc
    have hopens (r : List Char) : RenderGraph.Opens (']' :: r) := by
      intro c hc
      cases hc
      rfl
    obtain ⟨heq, -⟩ := append_inj_of_digits (hdigits _) (hdigits _) (hopens _) (hopens _)
      (List.append_cancel_left hl)
    rw [← Nat.ofDigitChars_ten_toDigits (n := max 1 (l.getD defaultLength)), ← heq,
      Nat.ofDigitChars_ten_toDigits]
  | _ => cases ht

/-- The value that is bound to an array input is passed only if it has the input's type. -/
theorem isSome_boundArgument?_iff (ha : port.type.isArray = true) :
    (boundArgument? n port).isSome ↔ ∃ b, n.uniforms.get? port.id = some b ∧ b.type = port.type := by
  unfold boundArgument?
  cases n.uniforms.get? port.id with
  | none => simp
  | some b =>
    by_cases ht : b.type = port.type
    · simp [ht]
    · simp [ht, ha]

/-! ### Both ways -/

/-- An input that nothing feeds is given its bound value or its default, and nothing is written. -/
theorem run_argument_of_free (ht : ctx.texture? n.id port.id = none)
    (hn : ctx.scene.graph.edgeInto n.id (some port.id) = none)
    (he : port.type.isArray = true → elementEdges ctx n port = .ok []) (s : CallState) :
    (argument ctx n port).run s = (ownArgument ctx n port, s) := by
  have hplain : plainArgument ctx n port none = ownArgument ctx n port := rfl
  unfold argument
  rw [ht]
  dsimp only
  rw [hn, hplain]
  cases ha : port.type.isArray with
  | false => cases ownArgument ctx n port <;> rfl
  | true =>
    rw [he ha]
    cases ownArgument ctx n port <;> rfl

/-- Of an input without an edge of its own, the body of a compound and the main function make the same, with
no further lines, if and only if it is no array, or no edge leads to its elements and it has a bound value of
its type or the default length for its capacity. -/
theorem innerArgument_agrees_iff (ht : ctx.texture? n.id port.id = none)
    (hn : ctx.scene.graph.edgeInto n.id (some port.id) = none) (scope : String) (s : CallState) :
    (∃ text, innerArgument ctx.scene scope n port = .ok text ∧
        (argument ctx n port).run s = (.ok text, s)) ↔
      (port.type.isArray = true → ctx.scene.graph.SparesElements n.id port.id ∧
        ((∃ b, n.uniforms.get? port.id = some b ∧ b.type = port.type) ∨
          portCapacity port n.uniforms ctx.scene.fallback = .ok defaultLength)) := by
  have hinner : innerArgument ctx.scene scope n port =
      .ok ((boundArgument? n port).getD (defaultLiteral ctx.scene.config port.type)) := by
    unfold innerArgument
    rw [hn]
    rfl
  constructor
  · rintro ⟨text, htext, hrun⟩ ha
    rw [hinner, Except.ok.injEq] at htext
    obtain ⟨a, hchosen, rfl, hlines⟩ := (leads_argument s).of_run_ok hrun
    have hlines : a.lines = [] := List.self_eq_append_right.1 hlines
    cases hchosen with
    | texture h => simp [ht] at h
    | edge _ h _ => simp [hn] at h
    | array => simp [arrayOpening] at hlines
    | own _ _ he hv =>
      refine ⟨elementEdges_eq_nil_iff.1 (he hn ha), ?_⟩
      rw [← isSome_boundArgument?_iff ha]
      cases hb : boundArgument? n port with
      | some value => exact Or.inl rfl
      | none =>
        -- Both give the default, so that its length is the same.
        rw [ownArgument, hb] at hv
        dsimp only [defaultArgument] at hv
        rw [if_pos ha] at hv
        obtain ⟨length, hlength, hv⟩ := Fault.bind_eq_ok_iff.1 hv
        have hpos := BoundValue.capacity_pos hlength
        rw [hb] at htext
        have hsame := defaultLiteral_length_inj ha ((Except.ok.inj hv).trans htext.symm)
        refine Or.inr ?_
        rw [portCapacity, hlength]
        simp only [Option.getD_some, Option.getD_none, defaultLength] at hsame ⊢
        rw [Nat.max_eq_right hpos] at hsame
        exact congrArg Except.ok hsame
  · intro h
    have hfree (ha : port.type.isArray = true) : elementEdges ctx n port = .ok [] :=
      elementEdges_eq_nil_iff.2 (h ha).1
    refine ⟨_, hinner, ?_⟩
    rw [run_argument_of_free ht hn hfree]
    unfold ownArgument
    cases hb : boundArgument? n port with
    | some value => rfl
    | none =>
      dsimp only [defaultArgument]
      split
      · next ha =>
        have hcapacity := (h ha).2.resolve_left fun hbound => by
          have hsome := (isSome_boundArgument?_iff ha).2 hbound
          simp [hb] at hsome
        rw [portCapacity] at hcapacity
        rw [hcapacity]
        cases ht : port.type <;> rfl
      · rfl

/-- A node inside a compound with two arrays, of which one has a bound value. -/
def boundInside : Node :=
  { id := "n", scope := some "c", inputs := [.ofId "x" (.array .float), .ofId "y" (.array .float)],
    uniforms := .ofList [("x", { type := .array .float, value := .list [.int 1, .int 2] })] }

/-- The node, the compound around it, and a node that feeds an element of the second array. -/
def arraysInside : Scene where
  graph := .ofLists
    [{ id := "c", kind := .compound }, boundInside, { id := "m", scope := some "c" }]
    [{ source := "m", target := "n", targetPort := some "y__0" }]
  config := { defaultArrayLength := .int 4 }

theorem innerArgument_agrees_iff_bound :
    let ctx : CallContext := { scene := arraysInside }
    let x : Port := .ofId "x" (.array .float)
    ctx.texture? boundInside.id x.id = none ∧
      ctx.scene.graph.edgeInto boundInside.id (some x.id) = none ∧
      ∃ text, innerArgument ctx.scene "c" boundInside x = .ok text ∧
        (argument ctx boundInside x).run {} = (.ok text, {}) := by
  intro ctx x
  have ht : ctx.texture? boundInside.id x.id = none := rfl
  have hn : ctx.scene.graph.edgeInto boundInside.id (some x.id) = none := by decide +kernel
  refine ⟨ht, hn, (innerArgument_agrees_iff ht hn "c" {}).2 fun _ => ?_⟩
  exact ⟨elementEdges_eq_nil_iff.1 rfl, Or.inl ⟨_, rfl, rfl⟩⟩

/-- An array without a bound value and without any edge has four elements in a main function, as the
configuration asks for, and sixteen inside a compound. -/
theorem inner_default_longer :
    let config : Config := { defaultArrayLength := .int 4 }
    let n : Node := { id := "n", scope := some "c", inputs := [.ofId "x" (.array .float)] }
    let ctx : CallContext :=
      { scene := { graph := .ofLists [{ id := "c", kind := .compound }, n] [], config } }
    let x : Port := .ofId "x" (.array .float)
    ctx.texture? n.id x.id = none ∧ ctx.scene.graph.edgeInto n.id (some x.id) = none ∧
      innerArgument ctx.scene "c" n x = .ok (defaultLiteral config x.type (some 16)) ∧
      (argument ctx n x).run {} = (.ok (defaultLiteral config x.type (some 4)), {}) ∧
      defaultLiteral config x.type (some 16) ≠ defaultLiteral config x.type (some 4) := by
  intro config n ctx x
  refine ⟨rfl, by decide +kernel, ?_, rfl, fun h => ?_⟩
  · decide +kernel
  · have hlength := defaultLiteral_length_inj rfl h
    simp at hlength

end Shader

end RenderGraph
