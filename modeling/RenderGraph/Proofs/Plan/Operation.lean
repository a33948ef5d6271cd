import RenderGraph.Plan.Passes
import RenderGraph.Proofs.Outcome
import RenderGraph.Proofs.Text.Searching

/-!
# What the operations of a plan do

Each operation of a plan changes its state in one way. The lemmas say how it ends, so that nothing
else has to open its definition.

## Main definitions

* `Plan.State.ids`: the ids of the passes planned so far
* `Plan.State.add`: the state with some more passes
* `Plan.IsIteration`: what an iteration reads
* `Plan.IsTurn`: how an iteration is made of its template

## Main results

* `Plan.ends_whileActive`, `Plan.ends_sampler`, `Plan.ends_addPasses`
* `Plan.get?_bindings`: samplers are bound to their owners
* `Plan.ends_iterations`: the iterations of a stage
-/

namespace RenderGraph.Plan

/-- The ids of the passes planned so far. -/
def State.ids (s : State) : List String :=
  s.passes.map (·.id)

/-- The state with some more passes, the last of which can be found under a key. -/
def State.add (s : State) (passes : List RenderPass) (key last : String) : State :=
  { s with
    passes := s.passes ++ passes,
    generated := (passes.foldl (fun m p => m.insertNew p.id p.id) s.generated).insert key last }

variable {α : Type} {s t : State} {E : Fault → State → Prop}

/-! ### Warnings and keys -/

@[simp]
theorem ends_log (r : Journal.Record) {Q : Unit → State → Prop} :
    Ends (log r) Q E s ↔ Q () { s with journal := s.journal ++ [r] } :=
  Iff.rfl

@[simp]
theorem ends_warn (message : String) {Q : Unit → State → Prop} :
    Ends (warn message) Q E s ↔
      Q () { s with warnings := s.warnings ++ [message], journal := s.journal ++ [.warn message] } :=
  Iff.rfl

@[simp]
theorem ends_breakCycle (key : String) {Q : Unit → State → Prop} :
    Ends (breakCycle key) Q E s ↔
      Q () { s with
        warnings := s.warnings ++ [cycleWarning key],
        journal := s.journal ++ [.warn (cycleWarning key)],
        cycleBreaks := s.cycleBreaks + 1 } :=
  Iff.rfl

/-- A computation runs while a key is active. -/
theorem run_whileActive (key : String) (act : PlanM α) (s : State) :
    (whileActive key act).run s =
      ((act.run { s with active := s.active ++ [key] }).1,
        { (act.run { s with active := s.active ++ [key] }).2 with
          active := (act.run { s with active := s.active ++ [key] }).2.active.erase key }) :=
  rfl

/-- A key is active while a computation runs, however it ends. -/
theorem ends_whileActive (key : String) (act : PlanM α) {Q : α → State → Prop} :
    Ends (whileActive key act) Q E s ↔
      Ends act (fun a t => Q a { t with active := t.active.erase key })
        (fun f t => E f { t with active := t.active.erase key })
        { s with active := s.active ++ [key] } := by
  unfold Ends
  rw [run_whileActive]
  rcases act.run { s with active := s.active ++ [key] } with ⟨_ | _, t⟩ <;> rfl

/-! ### Samplers and passes -/

@[simp]
theorem ends_sampler (config : Config) (pass : String) {Q : String → State → Prop} :
    Ends (sampler config pass) Q E s ↔
      if pass = "" then Q config.emptyTexture s
      else Q (Shader.samplerName pass)
        { s with owners := s.owners.insertNew (Shader.samplerName pass) pass } := by
  unfold sampler
  by_cases h : pass = "" <;> simp [h]

@[simp]
theorem ends_bindings (samplers : List String) {Q : Keyed String → State → Prop} :
    Ends (bindings samplers) Q E s ↔
      Q (.ofList (samplers.filterMap fun u => (s.owners.get? u).map fun pass => (u, pass))) s :=
  Iff.rfl

/-- A binding goes to the owner of its sampler. -/
theorem get?_of_get?_bindings {samplers : List String} {owners : Keyed String} {u q : String}
    (h : (Keyed.ofList (samplers.filterMap fun u =>
      (owners.get? u).map fun pass => (u, pass))).get? u = some q) : owners.get? u = some q := by
  obtain ⟨v, -, hv⟩ := List.mem_filterMap.1 (Keyed.mem_of_get?_ofList h)
  obtain ⟨pass, hp, he⟩ := Option.map_eq_some_iff.1 hv
  cases he
  exact hp

/-- A sampler that has an owner is bound to it. -/
theorem get?_bindings {samplers : List String} {owners : Keyed String} {u q : String}
    (hu : u ∈ samplers) (h : owners.get? u = some q) :
    (Keyed.ofList (samplers.filterMap fun u =>
      (owners.get? u).map fun pass => (u, pass))).get? u = some q := by
  apply Keyed.get?_insertAll_of_forall
  · exact List.mem_filterMap.2 ⟨u, hu, by rw [h]; rfl⟩
  · intro e he hk
    obtain ⟨v, -, hv⟩ := List.mem_filterMap.1 he
    obtain ⟨pass, hp, rfl⟩ := Option.map_eq_some_iff.1 hv
    subst hk
    exact Option.some.inj (hp.symm.trans h)

@[simp]
theorem ends_addPasses (passes : List RenderPass) (key last : String) {Q : Unit → State → Prop} :
    Ends (addPasses passes key last) Q E s ↔ Q () (s.add passes key last) := by
  have hadd : ∀ (passes : List RenderPass) (s : State), (passes.forM addPass).run s =
      (.ok (), { s with
        passes := s.passes ++ passes,
        generated := passes.foldl (fun m p => m.insertNew p.id p.id) s.generated }) := by
    intro passes
    induction passes with
    | nil =>
      intro s
      rw [List.append_nil]
      rfl
    | cons p passes ih =>
      intro s
      have h := ih { s with passes := s.passes ++ [p], generated := s.generated.insertNew p.id p.id }
      rw [List.append_assoc] at h
      exact h
  unfold addPasses
  rw [ends_bind]
  unfold Ends
  rw [hadd]
  rfl

theorem ids_add (s : State) (passes : List RenderPass) (key last : String) :
    (s.add passes key last).ids = s.ids ++ passes.map (·.id) :=
  List.map_append

/-! ### Iterations -/

/-- A pass is an iteration of a stage: beside what the stage reads, it may read the iteration before
it. -/
structure IsIteration (template : RenderPass) (loop : Loop) (i : Nat) (p : RenderPass) : Prop where
  id_eq : p.id = loop.iterationId i
  get?_bindings : ∀ {u q : String}, p.bindings.get? u = some q →
    template.bindings.get? u = some q ∨ 0 < i ∧ q = loop.previousId i

/-- Some owners were added: each is an iteration of the loop and owns its own sampler. -/
structure AddsOwners (loop : Loop) (s t : State) : Prop where
  eq : t = { s with owners := t.owners }
  old : ∀ {u q : String}, s.owners.get? u = some q → t.owners.get? u = some q
  new : ∀ {u q : String}, t.owners.get? u = some q → s.owners.get? u = some q ∨
    u = Shader.samplerName q ∧ q ≠ "" ∧ ∃ i < loop.count.toNat, q = loop.iterationId i

/-- A sampler for an iteration adds at most one owner. -/
theorem AddsOwners.insertNew {loop : Loop} {s t : State} {i : Nat} {q : String}
    (h : AddsOwners loop s t) (hi : i < loop.count.toNat) (hq : q = loop.iterationId i)
    (hne : q ≠ "") :
    AddsOwners loop s { t with owners := t.owners.insertNew (Shader.samplerName q) q } where
  eq := by
    rw [h.eq]
  old := by
    intro u p hp
    rw [Keyed.get?_insertNew]
    split
    · next hu => rw [← hu, h.old hp]; rfl
    · exact h.old hp
  new := by
    intro u p hp
    rw [Keyed.get?_insertNew] at hp
    split at hp
    · next hu =>
      subst hu
      cases ho : t.owners.get? (Shader.samplerName q) with
      | some r => exact h.new (ho.trans (by rwa [ho] at hp))
      | none =>
        obtain rfl : q = p := by simpa [ho] using hp
        exact Or.inr ⟨rfl, hne, i, hi, hq⟩
    · exact h.new hp

private theorem isIdentChar_of_mem_intercalate {parts : List String}
    (h : ∀ p ∈ parts, ∀ c ∈ p.toList, Text.isIdentChar c = true) :
    ∀ c ∈ ("_".intercalate parts).toList, Text.isIdentChar c = true := by
  induction parts with
  | nil => simp
  | cons p parts ih =>
    cases parts with
    | nil => simpa using h
    | cons q parts =>
      have hp := h p List.mem_cons_self
      have hrest := ih fun r hr => h r (List.mem_cons_of_mem p hr)
      have hbar : ∀ c ∈ "_".toList, Text.isIdentChar c = true := List.all_eq_true.1 (by decide)
      rw [String.intercalate_cons_cons, String.toList_append, String.toList_append]
      exact List.forall_mem_append.2 ⟨List.forall_mem_append.2 ⟨hp, hbar⟩, hrest⟩

/-- The name of a sampler is made of letters, digits and underscores. -/
theorem isIdentChar_of_mem_samplerName {pass : String} :
    ∀ c ∈ (Shader.samplerName pass).toList, Text.isIdentChar c = true := by
  have hjoined : ∀ c ∈ ("_".intercalate ((Shader.alphanumericRuns pass.toList).map String.ofList)).toList,
      Text.isIdentChar c = true := by
    refine isIdentChar_of_mem_intercalate fun part hpart c hmem => ?_
    obtain ⟨run, hrun, rfl⟩ := List.mem_map.1 hpart
    rw [String.toList_ofList] at hmem
    have hmap := Text.mem_of_mem_split (List.mem_filter.1 hrun).1 hmem
    obtain ⟨d, -, hd⟩ := List.mem_map.1 hmap
    split at hd
    · next halpha =>
      subst hd
      exact Bool.or_eq_true_iff.2 (Or.inl halpha)
    · subst hd
      decide
  have hclean : ∀ c ∈ (Shader.sanitize pass).toList, Text.isIdentChar c = true := by
    unfold Shader.sanitize
    dsimp only
    split
    · exact List.all_eq_true.1 (by decide)
    · split
      · rw [String.toList_append]
        exact List.forall_mem_append.2 ⟨List.all_eq_true.1 (by decide), hjoined⟩
      · exact hjoined
  rw [Shader.samplerName, String.toList_append, String.toList_append]
  exact List.forall_mem_append.2
    ⟨List.forall_mem_append.2 ⟨List.all_eq_true.1 (by decide), hclean⟩, List.all_eq_true.1 (by decide)⟩

/-- So it holds no backslash, and may stand in a template. -/
theorem notMem_samplerName (pass : String) : '\\' ∉ (Shader.samplerName pass).toList := by
  intro h
  exact absurd (isIdentChar_of_mem_samplerName _ h) (by decide)

/-- A program that declares a texture, if need be behind an anchor. -/
def withSampler (sampler anchor code : String) : String :=
  if Text.occurs (Text.literal (Shader.samplerLine sampler)) code.toList then code
  else putBehind anchor (Shader.samplerLine sampler) code

/-- First the previous pass is defined, and then its texture is declared. -/
theorem rebindPrevious_eq_ok_iff {code sampler anchor c : String} :
    rebindPrevious code sampler anchor = .ok c ↔ ∃ defined,
      (if Text.occurs previousDefine code.toList then
        Text.substitute previousDefine (defineLine sampler) code
      else pure (putBehind anchor (defineLine sampler) code)) = .ok defined ∧
        withSampler sampler anchor defined = c := by
  have hrest (defined : String) :
      (if Text.occurs (Text.literal (Shader.samplerLine sampler)) defined.toList then pure defined
        else pure (putBehind anchor (Shader.samplerLine sampler) defined) : Except Fault String) =
        .ok c ↔ withSampler sampler anchor defined = c := by
    unfold withSampler
    split <;> exact ⟨Except.ok.inj, congrArg Except.ok⟩
  unfold rebindPrevious
  dsimp only
  split
  · rw [Fault.bind_eq_ok_iff]
    simp only [hrest]
  · rw [Fault.bind_eq_ok_iff]
    simp only [hrest]

/-- A program can be given another previous pass. -/
theorem exists_rebindPrevious (code anchor : String) {sampler : String}
    (h : '\\' ∉ sampler.toList) : ∃ c, rebindPrevious code sampler anchor = .ok c := by
  have ht : '\\' ∉ (defineLine sampler).toList := by
    simpa [defineLine, previousPass, Source.StageReference.uniform] using h
  refine ⟨_, rebindPrevious_eq_ok_iff.2 ⟨if Text.occurs previousDefine code.toList then
    String.ofList (Text.replaceAll previousDefine (fun _ _ => (defineLine sampler).toList) code.toList)
    else putBehind anchor (defineLine sampler) code, ?_, rfl⟩⟩
  split
  · exact Text.substitute_of_notMem _ code ht
  · rfl

variable {template : RenderPass} {loop : Loop}

theorem Loop.lastId_eq (hc : 1 ≤ loop.count) :
    loop.lastId = loop.iterationId (loop.count.toNat - 1 : Nat) := by
  rw [lastId]
  congr 1
  omega

theorem stageKey_ne (node : Node) (stage : Stage) : stageKey node stage ≠ "" := by
  simp [stageKey, String.append_eq_empty_iff]

theorem iterationId_ne (hb : loop.base ≠ "") (i : Int) : loop.iterationId i ≠ "" := by
  unfold Loop.iterationId
  split
  · exact hb
  · simp [String.append_eq_empty_iff, hb]

/-- The first iteration of a stage is drawn by its template, and the others by the template with another
previous pass. -/
def IsTurn (config : Config) (template : RenderPass) (loop : Loop) (i : Nat) (p : RenderPass) : Prop :=
  if i = 0 then p = firstIteration template loop i
  else laterIteration config template loop i (Shader.samplerName (loop.previousId i)) = .ok p

namespace IsTurn

variable {config : Config} {i : Nat} {p : RenderPass}

theorem eq_firstIteration (h : IsTurn config template loop 0 p) : p = firstIteration template loop 0 :=
  h

/-- A later iteration differs from its template in what it reads as the previous pass. -/
theorem exists_eq (h : IsTurn config template loop i p) (hi : 0 < i) : ∃ fragment,
    rebindPrevious template.fragment (Shader.samplerName (loop.previousId i)) (Shader.cubeAnchor config) =
        .ok fragment ∧
      p = { firstIteration template loop i with
        fragment,
        textures := template.textures.insert previousPass (Shader.samplerName (loop.previousId i)),
        bindings := template.bindings.insert (Shader.samplerName (loop.previousId i)) (loop.previousId i),
        uniforms := (iterationUniforms loop i template.uniforms).insert previousPass
          { type := .sampler2D, value := .text (Shader.samplerName (loop.previousId i)) } } := by
  rw [IsTurn, if_neg (Nat.pos_iff_ne_zero.1 hi)] at h
  obtain ⟨fragment, hf, hp⟩ := Fault.bind_eq_ok_iff.1 h
  exact ⟨fragment, hf, (Except.ok.inj hp).symm⟩

theorem isIteration (h : IsTurn config template loop i p) : IsIteration template loop i p := by
  rcases Nat.eq_zero_or_pos i with rfl | hi
  · obtain rfl := h.eq_firstIteration
    exact ⟨rfl, Or.inl⟩
  · obtain ⟨fragment, -, rfl⟩ := h.exists_eq hi
    refine ⟨rfl, fun hu => ?_⟩
    rw [Keyed.get?_insert] at hu
    split at hu
    · exact Or.inr ⟨hi, (Option.some.inj hu).symm⟩
    · exact Or.inl hu

end IsTurn

theorem ends_iteration (config : Config) (hb : loop.base ≠ "") {i : Nat}
    (hi : i < loop.count.toNat) (h : AddsOwners loop s t) :
    Ends (iteration config (sampler config) template loop i)
      (fun p u => IsTurn config template loop i p ∧ AddsOwners loop s u) (fun _ _ => False) t := by
  unfold iteration
  by_cases h0 : i = 0
  · rw [if_pos h0, ends_pure, IsTurn, if_pos h0]
    exact ⟨rfl, h⟩
  · have hid : loop.previousId i = loop.iterationId (i - 1 : Nat) := by
      rw [Loop.previousId]
      congr 1
      omega
    have hne : loop.previousId i ≠ "" := iterationId_ne hb _
    obtain ⟨fragment, hf⟩ := exists_rebindPrevious (firstIteration template loop i).fragment
      (Shader.cubeAnchor config) (notMem_samplerName (loop.previousId i))
    have hlater : laterIteration config template loop i (Shader.samplerName (loop.previousId i)) =
        .ok _ :=
      Fault.bind_eq_ok_iff.2 ⟨fragment, hf, rfl⟩
    rw [if_neg h0, ends_bind, ends_sampler, if_neg hne, ends_lift, hlater, yields_ok, IsTurn, if_neg h0]
    exact ⟨hlater, h.insertNew (by omega) hid hne⟩

/-- The iterations of a stage, in order; only samplers that read them are made on the way. -/
theorem ends_iterations_turns (scene : Scene) (template : RenderPass) (hb : loop.base ≠ "") :
    Ends (iterations scene template loop)
      (fun ps t => List.Forall₂ (IsTurn scene.config template loop) (List.range loop.count.toNat) ps ∧
        AddsOwners loop s t) (fun _ _ => False) s := by
  apply Ends.mapM (I := fun done ps t =>
    List.Forall₂ (IsTurn scene.config template loop) done ps ∧ AddsOwners loop s t)
  · intro done i ps t hi ⟨hps, ht⟩
    refine (ends_iteration scene.config hb (List.mem_range.1 hi) ht).mono ?_ fun _ _ => id
    intro p u ⟨hp, hu⟩
    exact ⟨List.rel_append hps (.cons hp .nil), hu⟩
  · exact ⟨.nil, rfl, id, Or.inl⟩

theorem ends_iterations (scene : Scene) (template : RenderPass) (hb : loop.base ≠ "") :
    Ends (iterations scene template loop)
      (fun ps t => List.Forall₂ (IsIteration template loop) (List.range loop.count.toNat) ps ∧
        AddsOwners loop s t) (fun _ _ => False) s :=
  (ends_iterations_turns scene template hb).mono
    (fun _ _ h => ⟨h.1.imp fun _ _ hp => hp.isIteration, h.2⟩) fun _ _ => id

end RenderGraph.Plan
