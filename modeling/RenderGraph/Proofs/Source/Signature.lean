import RenderGraph.Proofs.Outcome
import RenderGraph.Source.StageReference

/-!
# Declared parameters and the ports of a body

The parameters of an entry function stand in an order, and inputs and outputs may alternate in it. The
interface of a body keeps the inputs and the outputs apart, and drops inputs that carry textures of
other stages. The order can be read back from it only if the inputs stand first and none is dropped.

## Main definitions

* `Source.Signature`: the parameters of the default overload of a body
* `Source.listed`: inputs, then outputs
* `Source.Regular`: parameters whose order the interface keeps

## Main results

* `Source.Signature.interface_eq`: the ports of a body
* `Source.Signature.listed_eq_iff`: when inputs and outputs stand in the order of the parameters
-/

namespace RenderGraph.Source

/-- The tokens of a body without comments are read off its characters. -/
theorem tokenize_stripComments (code : String) :
    tokenize (stripComments code) = tokensFrom 1 (stripChars code.toList) :=
  congrArg (tokensFrom 1) String.toList_ofList

/-! ### Overloads and their parameters -/

/-- The parameters of the entry functions among some tokens, each as its words. -/
def entryGroups : List Token → List (List (List String))
  | [] => []
  | t :: ts =>
    match entry? (t :: ts) with
    | some parameters => parameterGroups parameters :: entryGroups ts
    | none => entryGroups ts

/-- The inputs among some ports. -/
def inputsOf (ports : List (Bool × Port)) : List Port :=
  (ports.filter (!·.1)).map (·.2)

/-- The outputs among some ports. -/
def outputsOf (ports : List (Bool × Port)) : List Port :=
  (ports.filter (·.1)).map (·.2)

/-- The ports that some parameters declare, in order. -/
def portsOf (parameters : List (List String)) : List (Bool × Port) :=
  parameters.filterMap parameter?

/-- An overload has the ports that its parameters declare. -/
structure Overload.Declares (o : Overload) (parameters : List (List String)) : Prop where
  inputs_eq : o.inputs = inputsOf (portsOf parameters)
  outputs_eq : o.outputs = outputsOf (portsOf parameters)

/-- The index of an overload leads to its parameters. -/
theorem exists_declares_of_overloadsFrom {directive : Option String} {index : Nat} {tokens : List Token}
    {os : List Overload} (h : overloadsFrom directive index tokens = .ok os) {o : Overload}
    (ho : o ∈ os) :
    ∃ parameters, index ≤ o.index ∧ (entryGroups tokens)[o.index - index]? = some parameters ∧
      o.Declares parameters := by
  induction tokens generalizing directive index os with
  | nil =>
    cases h
    cases ho
  | cons t ts ih =>
    unfold overloadsFrom at h
    unfold entryGroups
    dsimp only at h
    cases he : entry? (t :: ts) with
    | none =>
      rw [he] at h
      exact ih h ho
    | some tokens =>
      rw [he] at h
      obtain ⟨first, hfirst, h⟩ := Fault.bind_eq_ok_iff.1 h
      obtain ⟨others, hothers, h⟩ := Fault.bind_eq_ok_iff.1 h
      cases h
      rcases List.mem_cons.1 ho with rfl | ho
      · obtain ⟨_, -, hfirst⟩ := Fault.bind_eq_ok_iff.1 hfirst
        cases hfirst
        exact ⟨parameterGroups tokens, Nat.le_refl _, by simp, rfl, rfl⟩
      · obtain ⟨parameters, hle, hget, hdeclares⟩ := ih hothers ho
        refine ⟨parameters, by omega, ?_, hdeclares⟩
        rw [show o.index - index = o.index - (index + 1) + 1 by omega, List.getElem?_cons_succ]
        exact hget

theorem mem_of_defaultOverload? {os : List Overload} {best : Overload}
    (h : defaultOverload? os = some best) : best ∈ os := by
  have hfold (os : List Overload) (o : Overload) :
      os.foldl (fun best o => if o.before best then o else best) o ∈ o :: os := by
    induction os generalizing o with
    | nil => exact List.mem_cons_self
    | cons p os ih =>
      rw [List.foldl_cons]
      split
      · exact List.mem_cons_of_mem _ (ih p)
      · rcases List.mem_cons.1 (ih o) with heq | hmem
        · exact List.mem_cons.2 (Or.inl heq)
        · exact List.mem_cons_of_mem _ (List.mem_cons_of_mem _ hmem)
  cases os with
  | nil => cases h
  | cons o os => exact Option.some.inj h ▸ hfold os o

/-! ### Signatures -/

/-- The default overload of a body takes the coordinate first, and some parameters behind it. -/
def Signature (code : String) (parameters : List (List String)) : Prop :=
  ∃ os best first, overloads code = .ok os ∧ defaultOverload? os = some best ∧
    (entryGroups (tokenize (stripComments code)))[best.index]? = some (first :: parameters) ∧
    ["vec2", "uv"] <:+ first

/-- The coordinate is no port. -/
theorem parameter?_coordinate {parts : List String} (h : ["vec2", "uv"] <:+ parts) :
    parameter? parts = none := by
  obtain ⟨front, rfl⟩ := h
  have hbrackets : nameBeforeBrackets? (front ++ ["vec2", "uv"]) = none := by
    simp [nameBeforeBrackets?]
  unfold parameter?
  split
  · rfl
  · rfl
  · simp [hbrackets]

/-- The textures that a body may take as parameters, though they are no ports: its feedback buffer and
the stages that it refers to. -/
def reserved (code : String) : List String :=
  previousFrame :: (stageReferences code).map (·.uniform)

variable {code : String} {parameters : List (List String)}

/-- The ports of a body are the inputs among its parameters, but for the reserved ones, and the
outputs. -/
theorem Signature.interface_eq {io : Interface} (h : Signature code parameters)
    (hio : interface code = .ok io) :
    io.inputs = (inputsOf (portsOf parameters)).filter (·.id ∉ reserved code) ∧
      io.outputs = outputsOf (portsOf parameters) := by
  obtain ⟨os, best, first, hos, hbest, hparameters, hfirst⟩ := h
  unfold interface at hio
  rw [hos] at hio
  obtain ⟨_, hos', hio⟩ := Fault.bind_eq_ok_iff.1 hio
  cases hos'
  rw [hbest] at hio
  cases hio
  obtain ⟨all, -, hget, hdeclares⟩ :=
    exists_declares_of_overloadsFrom hos (mem_of_defaultOverload? hbest)
  rw [Nat.sub_zero, hparameters, Option.some.injEq] at hget
  subst hget
  have hports : portsOf (first :: parameters) = portsOf parameters :=
    List.filterMap_cons_none (parameter?_coordinate hfirst)
  dsimp only
  rw [hdeclares.inputs_eq, hdeclares.outputs_eq, hports]
  exact ⟨rfl, rfl⟩

/-! ### Inputs and outputs in order -/

/-- Inputs, then outputs. -/
def listed (inputs outputs : List Port) : List (Bool × Port) :=
  inputs.map (false, ·) ++ outputs.map (true, ·)

/-- Behind an output there are outputs only. -/
def InputsFirst (ports : List (Bool × Port)) : Prop :=
  ports.Pairwise fun p q => p.1 = true → q.1 = true

instance (ports : List (Bool × Port)) : Decidable (InputsFirst ports) :=
  inferInstanceAs (Decidable (ports.Pairwise _))

variable {ports : List (Bool × Port)} {inputs outputs : List Port}

@[simp]
theorem inputsOf_listed : inputsOf (listed inputs outputs) = inputs := by
  simp [inputsOf, listed, List.filter_map, Function.comp_def]

@[simp]
theorem outputsOf_listed : outputsOf (listed inputs outputs) = outputs := by
  simp [outputsOf, listed, List.filter_map, Function.comp_def]

theorem inputsFirst_listed : InputsFirst (listed inputs outputs) := by
  simp [InputsFirst, listed, List.pairwise_append, List.pairwise_map, List.pairwise_of_forall]

/-- Ports of which the inputs stand first are the inputs, then the outputs. -/
theorem InputsFirst.listed_eq (h : InputsFirst ports) :
    listed (inputsOf ports) (outputsOf ports) = ports := by
  induction ports with
  | nil => rfl
  | cons p ps ih =>
    obtain ⟨hp, hps⟩ := List.pairwise_cons.1 h
    obtain ⟨isOutput, port⟩ := p
    cases isOutput with
    | false => exact congrArg ((false, port) :: ·) (ih hps)
    | true =>
      -- Nothing but outputs follows.
      have hinputs : inputsOf ps = [] := by
        rw [inputsOf, List.map_eq_nil_iff, List.filter_eq_nil_iff]
        intro q hq
        simp [hp q hq rfl]
      have hrest := ih hps
      rw [hinputs] at hrest
      have hhead : inputsOf ((true, port) :: ps) = [] := hinputs
      rw [hhead]
      exact congrArg ((true, port) :: ·) hrest

theorem listed_eq_iff :
    listed inputs outputs = ports ↔
      InputsFirst ports ∧ inputsOf ports = inputs ∧ outputsOf ports = outputs := by
  constructor
  · rintro rfl
    exact ⟨inputsFirst_listed, inputsOf_listed, outputsOf_listed⟩
  · rintro ⟨hfirst, rfl, rfl⟩
    exact hfirst.listed_eq

/-- The parameters of a body behind the coordinate are ports of its interface, the inputs first. -/
structure Regular (code : String) (parameters : List (List String)) : Prop where
  declared : ∀ p ∈ parameters, (parameter? p).isSome
  inputsFirst : InputsFirst (portsOf parameters)
  unreserved : ∀ p ∈ inputsOf (portsOf parameters), p.id ∉ reserved code

/-- Some ports are those that the parameters declare, one for each parameter. -/
theorem map_some_eq_iff :
    ports.map some = parameters.map parameter? ↔
      (∀ p ∈ parameters, (parameter? p).isSome) ∧ ports = portsOf parameters := by
  constructor
  · intro h
    refine ⟨fun p hp => ?_, ?_⟩
    · obtain ⟨port, -, hport⟩ := List.mem_map.1 (h ▸ List.mem_map_of_mem hp)
      exact hport ▸ rfl
    · calc ports = (ports.map some).filterMap id := by simp
        _ = portsOf parameters := by rw [h, List.filterMap_map, Function.id_comp]; rfl
  · rintro ⟨hdeclared, rfl⟩
    induction parameters with
    | nil => rfl
    | cons p ps ih =>
      obtain ⟨port, hport⟩ := Option.isSome_iff_exists.1 (hdeclared p List.mem_cons_self)
      have hcons : portsOf (p :: ps) = port :: portsOf ps := List.filterMap_cons_some hport
      rw [hcons, List.map_cons, List.map_cons, hport,
        ih fun q hq => hdeclared q (List.mem_cons_of_mem _ hq)]

/-- The inputs of a body and some outputs stand in the order of its parameters if these are regular and
declare the outputs. -/
theorem Signature.listed_eq_iff {io : Interface} (h : Signature code parameters)
    (hio : interface code = .ok io) :
    (listed io.inputs outputs).map some = parameters.map parameter? ↔
      Regular code parameters ∧ outputsOf (portsOf parameters) = outputs := by
  have hinputs : inputsOf (portsOf parameters) = io.inputs ↔
      ∀ p ∈ inputsOf (portsOf parameters), p.id ∉ reserved code := by
    rw [(h.interface_eq hio).1, eq_comm, List.filter_eq_self]
    simp only [decide_eq_true_eq]
  rw [map_some_eq_iff, Source.listed_eq_iff, hinputs]
  constructor
  · rintro ⟨hdeclared, hfirst, hunreserved, houtputs⟩
    exact ⟨⟨hdeclared, hfirst, hunreserved⟩, houtputs⟩
  · rintro ⟨hregular, houtputs⟩
    exact ⟨hregular.declared, hregular.inputsFirst, hregular.unreserved, houtputs⟩

end RenderGraph.Source
