import RenderGraph.Proofs.Shader.Contribution

/-!
# The declarations of a program

The nodes of a program, and the nodes inside the scopes of its compounds, are its *members*. Each member
declares the uniforms of its bound values and selected indices, of its global value or of its proxy
outputs, and the declarations follow one another in the order of the members. Of several declarations of
one name the first one is kept, with its line, and the others are dropped without notice. So what stands
under a name is said by the list of declarations alone.

## Main definitions

* `Declaration`, `Declaration.line`: a name, its uniform and the line that declares it
* `Node.declarations`, `Node.stageDeclarations`: what a node declares
* `Node.Declares`: how a node comes to declare it
* `Scene.Brings`, `Scene.members`: the nodes that some nodes bring into a program
* `Declarations.addAll`: declarations one after the other

## Main results

* `Scene.mem_members_iff`: the members of a program are the nodes that are brought into it
* `Shader.foldlM_declareNode_eq`, `Shader.declareStages_eq`: declaring as adding lists of declarations
* `Declarations.get?_foldl_add`, `Declarations.line_mem_foldl_add`: the first declaration of a name is kept
-/

namespace RenderGraph

/-- A uniform that is to be declared, with the length of its line if it is an array. -/
structure Declaration where
  name : String
  uniform : Uniform
  length : Option Nat := none

/-- The line of a declaration. -/
def Declaration.line (c : Declaration) : String :=
  declarationLine c.name c.uniform.type c.length

/-! ### What nodes declare -/

/-- The declaration of a bound value. -/
def BoundValue.declaration (fallback : Number) (name : String) (b : BoundValue) :
    Except Fault Declaration := do
  let length ← declaredLength b.type (some b) b.value fallback
  let value ← pack b.type b.value length
  pure { name, uniform := { type := b.type, value }, length }

/-- A declaration bears the name that it is made for. -/
theorem BoundValue.name_of_declaration {fallback : Number} {name : String} {b : BoundValue}
    {c : Declaration} (h : b.declaration fallback name = .ok c) : c.name = name := by
  obtain ⟨_, -, h⟩ := Fault.bind_eq_ok_iff.1 h
  obtain ⟨_, -, h⟩ := Fault.bind_eq_ok_iff.1 h
  cases h
  rfl

namespace Node

variable (fallback : Number) (n : Node)

/-- The declaration of a global value. -/
def globalDeclaration : Except Fault Declaration := do
  let length ← BoundValue.declaredLength n.outputType (n.uniforms.get? "value") n.globalValue fallback
  let value ← pack n.outputType (n.globalDefault length) length
  pure { name := n.globalUniformName, uniform := { type := n.outputType, value }, length }

/-- The declaration of the selected index of an input. -/
def indexDeclaration (port : Port) : Except Fault Declaration :=
  (BoundValue.selectedIndex port.type (n.uniforms.get? port.id) fallback).map fun (i : Nat) =>
    { name := n.uniformName port.id ++ "_index", uniform := { type := .int, value := .int i } }

/-- The declaration of an output of an input proxy; its line has no length, whatever its type. -/
def proxyDeclaration (port : Port) : Except Fault Declaration :=
  (pack port.type (port.type.defaultValue defaultLength) none).map fun value =>
    { name := n.uniformName port.id, uniform := { type := port.type, value } }

/-- The declarations of the inputs of a node: bound values, then selected indices. -/
def inputDeclarations : List (Except Fault Declaration) :=
  n.inputs.filterMap (fun port =>
    (n.uniforms.get? port.id).map fun b => b.declaration fallback (n.uniformName port.id)) ++
  (n.inputs.filter (·.type.isArray)).map (n.indexDeclaration fallback)

/-- What a node itself declares in a program that calls it. -/
def declarations : List (Except Fault Declaration) :=
  match n.kind with
  | .standard | .compound => n.inputDeclarations fallback
  | .globalVar => [n.globalDeclaration fallback]
  | .graphInput => if n.scope.isSome then [] else n.outputs.map n.proxyDeclaration
  | .graphOutput | .multiStage => []

/-- The ways in which a node makes a declaration of its own. -/
inductive Declares (c : Declaration) : Prop
  | bound {port : Port} {b : BoundValue} (hk : n.kind = .standard ∨ n.kind = .compound)
      (hp : port ∈ n.inputs) (hb : n.uniforms.get? port.id = some b)
      (h : b.declaration fallback (n.uniformName port.id) = .ok c) : Declares c
  | index {port : Port} (hk : n.kind = .standard ∨ n.kind = .compound) (hp : port ∈ n.inputs)
      (ht : port.type.isArray = true) (h : n.indexDeclaration fallback port = .ok c) : Declares c
  | global (hk : n.kind = .globalVar) (h : n.globalDeclaration fallback = .ok c) : Declares c
  | proxy {port : Port} (hk : n.kind = .graphInput) (hs : n.scope = none) (hp : port ∈ n.outputs)
      (h : n.proxyDeclaration port = .ok c) : Declares c

variable {fallback n}

theorem declares_of_mem {c : Declaration} (h : .ok c ∈ n.declarations fallback) :
    n.Declares fallback c := by
  have hinputs (hk : n.kind = .standard ∨ n.kind = .compound)
      (h : .ok c ∈ n.inputDeclarations fallback) : n.Declares fallback c := by
    rcases List.mem_append.1 h with hbound | hindex
    · obtain ⟨port, hp, hport⟩ := List.mem_filterMap.1 hbound
      obtain ⟨b, hb, hdeclared⟩ := Option.map_eq_some_iff.1 hport
      exact .bound hk hp hb hdeclared
    · obtain ⟨port, hport, hdeclared⟩ := List.mem_map.1 hindex
      obtain ⟨hp, ht⟩ := List.mem_filter.1 hport
      exact .index hk hp ht hdeclared
  unfold declarations at h
  split at h
  · next hk => exact hinputs (Or.inl hk) h
  · next hk => exact hinputs (Or.inr hk) h
  · next hk => exact .global hk (List.mem_singleton.1 h).symm
  · next hk =>
    split at h
    · cases h
    · next hs =>
      obtain ⟨port, hp, hdeclared⟩ := List.mem_map.1 h
      exact .proxy hk (by simpa using hs) hp hdeclared
  · cases h
  · cases h

variable (fallback n)

/-- What a node declares in the programs of its stages. -/
def stageDeclarations : List (Except Fault Declaration) :=
  (Shader.stageBindings n).map fun b => b.2.declaration fallback (n.uniformName b.1)

end Node

namespace Scene

variable (scene : Scene)

/-- Some nodes bring a node into a program: it is one of them, or it stands inside the scope of a compound
that they bring. -/
inductive Brings (nodes : List Node) : Node → Prop
  | listed {n : Node} (h : n ∈ nodes) : Brings nodes n
  | inner {c n : Node} (h : Brings nodes c) (hk : c.kind = .compound)
      (hn : n ∈ scene.graph.children (some c.id)) : Brings nodes n

/-- A node and the nodes inside its scope, at any depth. `fuel` bounds the depth of scopes, and `stack`
holds the compounds around the node. -/
def membersWithin : Nat → List String → Node → List Node
  | 0, _, _ => []
  | fuel + 1, stack, n =>
    n :: if n.kind = .compound ∧ n.id ∉ stack then
      (scene.graph.children (some n.id)).flatMap (membersWithin fuel (stack ++ [n.id]))
    else []

/-- The nodes whose uniforms some nodes bring into a program: themselves, and the nodes inside the scopes
of compounds. -/
def members (nodes : List Node) : List Node :=
  nodes.flatMap (scene.membersWithin (scene.graph.size + 1) [])

/-- The declarations of a program with some nodes. -/
def declarations (nodes : List Node) : List (Except Fault Declaration) :=
  (scene.members nodes).flatMap (Node.declarations scene.fallback)

variable {scene} {nodes : List Node} {n : Node}

theorem Brings.mem_nodeList (h : scene.Brings nodes n) (hg : ∀ n ∈ nodes, n ∈ scene.graph.nodeList) :
    n ∈ scene.graph.nodeList := by
  cases h with
  | listed h => exact hg n h
  | inner _ _ hn => exact List.mem_of_mem_filter hn

private theorem brings_of_mem_membersWithin {fuel : Nat} {stack : List String} {r : Node}
    (hr : scene.Brings nodes r) (hn : n ∈ scene.membersWithin fuel stack r) : scene.Brings nodes n := by
  induction fuel generalizing stack r with
  | zero => cases hn
  | succ fuel ih =>
    rcases List.mem_cons.1 hn with rfl | hn
    · exact hr
    · split at hn
      · next hk =>
        obtain ⟨m, hm, hn⟩ := List.mem_flatMap.1 hn
        exact ih (hr.inner hk.1 hm) hn
      · cases hn

/-- The members of a node are complete: what stands inside the scope of a compound among them is among
them too. The scopes around a node are distinct, so that they are fewer than the fuel; and a compound
that is found inside its own scope has been taken in where it was found first. -/
private theorem membersWithin_complete {all : List Node} {fuel : Nat} {stack : List String} {r c : Node}
    (hr : r ∈ scene.graph.nodeList) (hnodup : stack.Nodup) (hsub : stack ⊆ scene.graph.nodes.keys)
    (hfuel : scene.graph.size < fuel + stack.length)
    (hstack : ∀ id ∈ stack, ∀ m ∈ scene.graph.children (some id), m ∈ all)
    (hall : scene.membersWithin fuel stack r ⊆ all) (hc : c ∈ scene.membersWithin fuel stack r)
    (hk : c.kind = .compound) (hn : n ∈ scene.graph.children (some c.id)) : n ∈ all := by
  induction fuel generalizing stack r with
  | zero => cases hc
  | succ fuel ih =>
    have hmembers : scene.membersWithin (fuel + 1) stack r =
        r :: if r.kind = .compound ∧ r.id ∉ stack then
          (scene.graph.children (some r.id)).flatMap (scene.membersWithin fuel (stack ++ [r.id]))
        else [] := rfl
    by_cases hopen : r.kind = .compound ∧ r.id ∉ stack
    · rw [hmembers, if_pos hopen] at hall hc
      have hinner {m : Node} (hm : m ∈ scene.graph.children (some r.id)) :
          scene.membersWithin fuel (stack ++ [r.id]) m ⊆ all := fun k hmem =>
        hall (List.mem_cons_of_mem _ (List.mem_flatMap.2 ⟨m, hm, hmem⟩))
      have hnodup' : (stack ++ [r.id]).Nodup := by simpa using hnodup.concat hopen.2
      have hsub' : stack ++ [r.id] ⊆ scene.graph.nodes.keys :=
        List.append_subset.2 ⟨hsub, by simpa using Graph.id_mem_keys hr⟩
      have hlength : (stack ++ [r.id]).length = stack.length + 1 := List.length_append
      have hroot {m : Node} (hm : m ∈ scene.graph.children (some r.id)) : m ∈ all := by
        have hle := (List.subperm_of_subset hnodup' hsub').length_le
        rw [Keyed.length_keys, hlength] at hle
        obtain ⟨k, rfl⟩ : ∃ k, fuel = k + 1 := Nat.exists_eq_succ_of_ne_zero fun hzero => by
          unfold Graph.size at hfuel
          omega
        exact hinner hm List.mem_cons_self
      rcases List.mem_cons.1 hc with rfl | hc
      · exact hroot hn
      · obtain ⟨m, hm, hc⟩ := List.mem_flatMap.1 hc
        refine ih (List.mem_of_mem_filter hm) hnodup' hsub' (by rw [hlength]; omega) ?_ (hinner hm) hc
        intro id hid
        rcases List.mem_append.1 hid with hid | hid
        · exact hstack id hid
        · exact List.mem_singleton.1 hid ▸ fun k => hroot
    · rw [hmembers, if_neg hopen] at hc
      obtain rfl := List.mem_singleton.1 hc
      exact hstack c.id (not_not.1 fun h => hopen ⟨hk, h⟩) n hn

/-- The members of a program are the nodes that are brought into it. -/
theorem mem_members_iff (hg : ∀ n ∈ nodes, n ∈ scene.graph.nodeList) :
    n ∈ scene.members nodes ↔ scene.Brings nodes n := by
  constructor
  · intro h
    obtain ⟨r, hr, h⟩ := List.mem_flatMap.1 h
    exact brings_of_mem_membersWithin (.listed hr) h
  · intro h
    induction h with
    | @listed m h => exact List.mem_flatMap.2 ⟨m, h, List.mem_cons_self⟩
    | inner _ hk hn ih =>
      obtain ⟨r, hr, hc⟩ := List.mem_flatMap.1 ih
      exact membersWithin_complete (hg r hr) List.nodup_nil (List.nil_subset _) (by simp) (by simp)
        (fun m hm => List.mem_flatMap.2 ⟨r, hr, hm⟩) hc hk hn

end Scene

/-! ### Adding declarations -/

namespace Declarations

variable {d d' : Declarations} {cs : List Declaration} {name : String} {c : Declaration}

/-- One more declaration. -/
def add (d : Declarations) (c : Declaration) : Declarations :=
  d.declare c.name c.uniform.type c.uniform.value c.length

/-- Declarations are added one after the other, up to the first that fails. -/
def addAll (xs : List (Except Fault Declaration)) (d : Declarations) : Except Fault Declarations :=
  xs.foldlM (fun d x => x.map d.add) d

@[simp]
theorem addAll_cons (x : Except Fault Declaration) (xs : List (Except Fault Declaration))
    (d : Declarations) : addAll (x :: xs) d = x.map d.add >>= addAll xs :=
  List.foldlM_cons ..

@[simp]
theorem addAll_append (xs ys : List (Except Fault Declaration)) (d : Declarations) :
    addAll (xs ++ ys) d = addAll xs d >>= addAll ys :=
  List.foldlM_append ..

/-- A loop that adds declarations adds all of them. -/
theorem addAll_flatMap {α : Type} (f : α → List (Except Fault Declaration)) (l : List α)
    (d : Declarations) : addAll (l.flatMap f) d = l.foldlM (fun d a => addAll (f a) d) d := by
  induction l generalizing d with
  | nil => rfl
  | cons a l ih =>
    rw [List.flatMap_cons, addAll_append, List.foldlM_cons]
    exact bind_congr ih

/-- Declarations that have been added are what was to be declared, one after the other. -/
theorem exists_of_addAll {xs : List (Except Fault Declaration)} (h : addAll xs d = .ok d') :
    ∃ cs : List Declaration, xs = cs.map .ok ∧ d' = cs.foldl add d := by
  induction xs generalizing d with
  | nil => exact ⟨[], rfl, (Except.ok.inj h).symm⟩
  | cons x xs ih =>
    rw [addAll_cons] at h
    obtain ⟨e, he, h⟩ := Fault.bind_eq_ok_iff.1 h
    cases x with
    | error f => cases he
    | ok c =>
      cases he
      obtain ⟨cs, rfl, rfl⟩ := ih h
      exact ⟨c :: cs, rfl, rfl⟩

theorem get?_add (d : Declarations) (c : Declaration) (name : String) :
    (d.add c).uniforms.get? name =
      (d.uniforms.get? name).or (if c.name = name then some c.uniform else none) := by
  unfold add declare
  rw [Keyed.contains_eq_isSome]
  by_cases hname : c.name = name
  · subst hname
    cases hg : d.uniforms.get? c.name <;> simp [hg, Keyed.get?_insert]
  · have hne : name ≠ c.name := fun h => hname h.symm
    rw [if_neg hname, Option.or_none]
    split
    · rfl
    · rw [Keyed.get?_insert, if_neg hne]

/-- Under a name stands what was declared first. -/
theorem get?_foldl_add (cs : List Declaration) (d : Declarations) (name : String) :
    (cs.foldl add d).uniforms.get? name =
      (d.uniforms.get? name).or ((cs.find? (·.name == name)).map (·.uniform)) := by
  induction cs generalizing d with
  | nil => exact (Option.or_none).symm
  | cons c cs ih =>
    rw [List.foldl_cons, ih, get?_add, Option.or_assoc, List.find?_cons]
    by_cases hname : c.name = name
    · simp [hname]
    · rw [if_neg hname, beq_false_of_ne hname, Option.none_or]

theorem lines_prefix_foldl_add (cs : List Declaration) (d : Declarations) :
    d.lines <+: (cs.foldl add d).lines := by
  induction cs generalizing d with
  | nil => exact List.prefix_refl _
  | cons c cs ih =>
    refine List.IsPrefix.trans ?_ (ih (d.add c))
    unfold add declare
    split
    · exact List.prefix_refl _
    · exact List.prefix_append _ _

/-- The line of the first declaration of a name has been written. -/
theorem line_mem_foldl_add (hd : d.uniforms.get? name = none)
    (hc : cs.find? (·.name == name) = some c) : c.line ∈ (cs.foldl add d).lines := by
  induction cs generalizing d with
  | nil => cases hc
  | cons e cs ih =>
    rw [List.foldl_cons]
    rw [List.find?_cons] at hc
    by_cases hname : e.name = name
    · obtain rfl : e = c := by simpa [hname] using hc
      refine (lines_prefix_foldl_add cs (d.add e)).subset ?_
      have hfree : d.uniforms.contains e.name = false := by
        rw [Keyed.contains_eq_isSome, hname, hd]
        rfl
      rw [add, declare, hfree]
      exact List.mem_append_right _ List.mem_cons_self
    · rw [beq_false_of_ne hname] at hc
      refine ih ?_ hc
      rw [get?_add, hd, if_neg hname]
      rfl

/-- Declarations of distinct names are all kept, in order. -/
theorem lines_foldl_add (hd : ∀ c ∈ cs, d.uniforms.get? c.name = none)
    (hcs : (cs.map (·.name)).Nodup) : (cs.foldl add d).lines = d.lines ++ cs.map (·.line) := by
  induction cs generalizing d with
  | nil => exact (List.append_nil _).symm
  | cons c cs ih =>
    rw [List.map_cons, List.nodup_cons] at hcs
    have hfree : d.uniforms.contains c.name = false := by
      rw [Keyed.contains_eq_isSome, hd c List.mem_cons_self]
      rfl
    have hline : (d.add c).lines = d.lines ++ [c.line] := by
      rw [add, declare, hfree]
      rfl
    rw [List.foldl_cons, ih (fun e he => ?_) hcs.2, hline, List.map_cons, List.append_assoc]
    · rfl
    · rw [get?_add, hd e (List.mem_cons_of_mem c he), if_neg fun hname => ?_]
      · rfl
      · exact hcs.1 (hname ▸ List.mem_map_of_mem he)

end Declarations

/-! ### Declaring -/

namespace Shader

open Declarations (addAll add)

variable (scene : Scene) (n : Node) (d : Declarations)

theorem declareBound_eq (name : String) (b : BoundValue) :
    declareBound scene name b d = (b.declaration scene.fallback name).map d.add := by
  unfold declareBound BoundValue.declaration
  cases BoundValue.declaredLength b.type (some b) b.value scene.fallback with
  | error f => rfl
  | ok length =>
    show (pack b.type b.value length >>= _) = Except.map d.add (pack b.type b.value length >>= _)
    cases pack b.type b.value length <;> rfl

theorem declareGlobal_eq :
    declareGlobal scene n d = (n.globalDeclaration scene.fallback).map d.add := by
  unfold declareGlobal Node.globalDeclaration
  dsimp only
  cases BoundValue.declaredLength n.outputType (n.uniforms.get? "value") n.globalValue
    scene.fallback with
  | error f => rfl
  | ok length =>
    show (pack n.outputType (n.globalDefault length) length >>= _) =
      Except.map d.add (pack n.outputType (n.globalDefault length) length >>= _)
    cases pack n.outputType (n.globalDefault length) length <;> rfl

/-- A loop that adds one declaration for some of its items. -/
private theorem foldlM_eq_addAll {α : Type} {f : Declarations → α → Except Fault Declarations}
    {x : α → Option (Except Fault Declaration)}
    (hsome : ∀ d a y, x a = some y → f d a = y.map d.add)
    (hnone : ∀ d a, x a = none → f d a = .ok d) (l : List α) (d : Declarations) :
    l.foldlM f d = addAll (l.filterMap x) d := by
  induction l generalizing d with
  | nil => rfl
  | cons a l ih =>
    rw [List.foldlM_cons, List.filterMap_cons]
    cases hx : x a with
    | none =>
      rw [hnone d a hx]
      exact ih d
    | some y =>
      rw [hsome d a y hx]
      exact bind_congr ih

theorem declareInputs_eq :
    declareInputs scene n d = addAll (n.inputDeclarations scene.fallback) d := by
  have hbound : declareBoundInputs scene n d = addAll (n.inputs.filterMap fun port =>
      (n.uniforms.get? port.id).map
        fun b => b.declaration scene.fallback (n.uniformName port.id)) d := by
    refine foldlM_eq_addAll (fun d port y hy => ?_) (fun d port hnone => ?_) n.inputs d
    · obtain ⟨b, hb, rfl⟩ := Option.map_eq_some_iff.1 hy
      simp only [hb]
      exact declareBound_eq scene d _ b
    · simp only [Option.map_eq_none_iff.1 hnone]
      rfl
  have hindices (d : Declarations) : declareIndices scene n d =
      addAll ((n.inputs.filter (·.type.isArray)).map (n.indexDeclaration scene.fallback)) d := by
    rw [← List.filterMap_eq_map, List.filterMap_filter]
    refine foldlM_eq_addAll (fun d port y hy => ?_) (fun d port hnone => ?_) n.inputs d
    · by_cases ht : port.type.isArray = true
      · rw [if_pos ht] at hy ⊢
        obtain rfl := Option.some.inj hy
        unfold Node.indexDeclaration
        cases BoundValue.selectedIndex port.type (n.uniforms.get? port.id) scene.fallback <;> rfl
      · rw [if_neg ht] at hy
        cases hy
    · by_cases ht : port.type.isArray = true
      · rw [if_pos ht] at hnone
        cases hnone
      · rw [if_neg ht]
        rfl
  rw [declareInputs, Node.inputDeclarations, Declarations.addAll_append, hbound]
  exact bind_congr hindices

theorem declareProxy_eq (hs : n.scope.isSome = false) :
    declareProxy n d = addAll (n.outputs.map n.proxyDeclaration) d := by
  rw [declareProxy, hs, if_neg Bool.false_ne_true, ← List.filterMap_eq_map]
  refine foldlM_eq_addAll (fun d port y hy => ?_) (fun d port hnone => ?_) n.outputs d
  · obtain rfl := Option.some.inj hy
    unfold Node.proxyDeclaration
    cases pack port.type (port.type.defaultValue defaultLength) none <;> rfl
  · cases hnone

theorem declareStages_eq :
    declareStages scene n d = addAll (n.stageDeclarations scene.fallback) d := by
  rw [Node.stageDeclarations, ← List.filterMap_eq_map]
  refine foldlM_eq_addAll (fun d b y hy => ?_) (fun d b hnone => ?_) (stageBindings n) d
  · obtain rfl := Option.some.inj hy
    exact declareBound_eq scene d _ b.2
  · cases hnone

/-- A node with nothing inside its scope makes its own declarations. -/
theorem declareWithin_of_ne (hk : n.kind ≠ .compound) (fuel : Nat) (stack : List String) :
    declareWithin scene (fuel + 1) stack n d = addAll (n.declarations scene.fallback) d := by
  cases hkind : n.kind with
  | compound => exact absurd hkind hk
  | globalVar =>
    simp only [declareWithin, Node.declarations, hkind, declareGlobal_eq, Declarations.addAll_cons]
    exact (bind_pure _).symm
  | graphInput =>
    simp only [declareWithin, Node.declarations, hkind]
    by_cases hs : n.scope.isSome = true
    · rw [declareProxy, if_pos hs, if_pos hs]
      rfl
    · rw [if_neg hs]
      exact declareProxy_eq n d (by simpa using hs)
  | graphOutput | multiStage =>
    simp only [declareWithin, Node.declarations, hkind]
    rfl
  | standard =>
    simp only [declareWithin, Node.declarations, hkind]
    exact declareInputs_eq scene n d

/-- A node declares what its members declare. -/
theorem declareWithin_eq (fuel : Nat) (stack : List String) :
    declareWithin scene fuel stack n d =
      addAll ((scene.membersWithin fuel stack n).flatMap (Node.declarations scene.fallback)) d := by
  induction fuel generalizing stack n d with
  | zero => rfl
  | succ fuel ih =>
    by_cases hk : n.kind = .compound
    · have hown : n.declarations scene.fallback = n.inputDeclarations scene.fallback := by
        simp only [Node.declarations, hk]
      rw [Scene.membersWithin, List.flatMap_cons, Declarations.addAll_append, hown, ← declareInputs_eq]
      simp only [declareWithin, hk, true_and]
      refine bind_congr fun d' => ?_
      by_cases hstack : n.id ∈ stack
      · rw [if_pos hstack, if_neg (not_not.2 hstack)]
        rfl
      · rw [if_neg hstack, if_pos hstack, List.flatMap_assoc, Declarations.addAll_flatMap]
        congr 1
        funext e inner
        exact ih inner e _
    · rw [declareWithin_of_ne scene n d hk, Scene.membersWithin, if_neg fun h => hk h.1,
        List.flatMap_singleton]

/-- The nodes of a program declare what their members declare. -/
theorem foldlM_declareNode_eq (nodes : List Node) :
    nodes.foldlM (fun d n => declareNode scene n d) d = addAll (scene.declarations nodes) d := by
  rw [Scene.declarations, Scene.members, List.flatMap_assoc, Declarations.addAll_flatMap]
  congr 1
  funext e n
  exact declareWithin_eq scene n e _ _

end Shader

end RenderGraph
