import RenderGraph.Proofs.Plan.PassIds

/-!
# What a plan leaves behind

A request may fail at any depth: a node may be missing, a body may have a fault. What was done by then
stays done, and the plan may be asked again. However a request ends, the keys that were being planned
before are being planned still, and no others; passes and warnings have been appended only; and each key
that was built to completion on the way was not found before, is found from then on, and hence is never
built again. `Account` says this of two states, and `Orderly` of a computation that leads from the one to
the other.

## Main definitions

* `Plan.Account`: what may be said of the way from one state to another
* `Plan.Orderly`: a computation leaves an account, however it ends
* `Plan.State.after`: the state in which requests leave a plan

## Main results

* `Plan.Account.attempt`, `Plan.Account.complete`: a key is planned, in vain or to completion
* `Plan.orderly_planWithin`: a plan leaves an account
* `Plan.account_of_requests`: what holds after any requests
-/

namespace RenderGraph.Plan

theorem State.Quiet.refl (s : State) : s.Quiet s :=
  ⟨rfl, rfl, rfl, List.prefix_refl _⟩

/-- On the way from one state to another some keys were built to completion, and nothing else was left
behind. -/
structure Account (s : State) (keys : List String) (t : State) : Prop where
  active_eq : t.active = s.active
  passes : s.passes <+: t.passes
  warnings : s.warnings <+: t.warnings
  /-- What was found is found still. -/
  found : ∀ key, (s.generated.get? key).isSome = true → (t.generated.get? key).isSome = true
  /-- What was built was neither found nor being planned, and is found now. -/
  built : ∀ key ∈ keys, s.generated.get? key = none ∧ key ∉ s.active ∧
    (t.generated.get? key).isSome = true
  /-- Each building that is completed adds its key to the ids of first passes. -/
  firstIds_eq : t.firstIds = s.firstIds ++ keys
  nodup : keys.Nodup

namespace Account

variable {s t u : State} {keys keys' : List String} {key : String}

theorem of_quiet (h : s.Quiet t) : Account s [] t where
  active_eq := h.active_eq
  passes := by rw [h.passes_eq]
  warnings := h.warnings
  found key := by
    rw [h.generated_eq]
    exact id
  built := by simp
  firstIds_eq := by rw [State.firstIds, h.passes_eq, List.append_nil, State.firstIds]
  nodup := .nil

theorem trans (h : Account s keys t) (h' : Account t keys' u) : Account s (keys ++ keys') u where
  active_eq := h'.active_eq.trans h.active_eq
  passes := h.passes.trans h'.passes
  warnings := h.warnings.trans h'.warnings
  found key hs := h'.found key (h.found key hs)
  built key hk := by
    rcases List.mem_append.1 hk with hk | hk
    · obtain ⟨hnone, hinactive, hsome⟩ := h.built key hk
      exact ⟨hnone, hinactive, h'.found key hsome⟩
    · obtain ⟨hnone, hinactive, hsome⟩ := h'.built key hk
      refine ⟨Option.not_isSome_iff_eq_none.1 fun hs => ?_, h.active_eq ▸ hinactive, hsome⟩
      have hfound := h.found key hs
      rw [hnone] at hfound
      cases hfound
  firstIds_eq := by rw [h'.firstIds_eq, h.firstIds_eq, List.append_assoc]
  nodup := by
    refine List.nodup_append.2 ⟨h.nodup, h'.nodup, ?_⟩
    rintro key hk key' hk' rfl
    have hsome := (h.built key hk).2.2
    rw [(h'.built key hk').1] at hsome
    cases hsome

/-- A key is planned, in vain. -/
theorem attempt (ha : key ∉ s.active)
    (h : Account { s with active := s.active ++ [key] } keys t) :
    Account s keys { t with active := t.active.erase key } where
  active_eq := erase_active ha h.active_eq
  passes := h.passes
  warnings := h.warnings
  found := h.found
  built key' hk := by
    obtain ⟨hnone, hinactive, hsome⟩ := h.built key' hk
    exact ⟨hnone, fun hmem => hinactive (List.mem_append_left _ hmem), hsome⟩
  firstIds_eq := h.firstIds_eq
  nodup := h.nodup

/-- A key is planned to completion. -/
theorem complete {l : Loop} {passes : List RenderPass} (hg : s.generated.get? key = none)
    (ha : key ∉ s.active) (h : Account { s with active := s.active ++ [key] } keys t)
    (hl : l.base = key ∧ 1 ≤ l.count)
    (hp : List.Forall₂ (IsPassOf l) (List.range l.count.toNat) passes) :
    Account s (keys ++ [key])
      ({ t with active := t.active.erase key }.add passes key l.lastId) := by
  obtain ⟨rfl, hcount⟩ := hl
  have hattempt := h.attempt ha
  have hnew : l.base ∉ keys := fun hmem =>
    (h.built _ hmem).2.1 (List.mem_append_right _ List.mem_cons_self)
  exact {
    active_eq := hattempt.active_eq
    passes := hattempt.passes.trans (List.prefix_append _ _)
    warnings := hattempt.warnings
    found := fun key hs => isSome_get?_add (Or.inr (hattempt.found key hs))
    built := by
      intro key hk
      rcases List.mem_append.1 hk with hk | hk
      · obtain ⟨hnone, hinactive, hsome⟩ := hattempt.built key hk
        exact ⟨hnone, hinactive, isSome_get?_add (Or.inr hsome)⟩
      · obtain rfl := List.mem_singleton.1 hk
        exact ⟨hg, ha, isSome_get?_add (Or.inl rfl)⟩
    firstIds_eq := by
      rw [(ids_add_iterations _ _ _ hcount hp).1, ← List.append_assoc, ← hattempt.firstIds_eq]
    nodup := by
      have hnodup := h.nodup.concat hnew
      rwa [List.concat_eq_append] at hnodup }

end Account

/-! ### Orderly computations -/

/-- However the computation ends, it leaves an account. -/
def Orderly {α : Type} (x : PlanM α) : Prop :=
  ∀ s, ∃ keys, Account s keys (x.run s).2

namespace Orderly

variable {α β : Type}

theorem of_quiet {x : PlanM α} (h : ∀ s : State, s.Quiet (x.run s).2) : Orderly x :=
  fun s => ⟨[], .of_quiet (h s)⟩

theorem pure (a : α) : Orderly (Pure.pure a) :=
  of_quiet .refl

theorem lift (x : Except Fault α) : Orderly (liftM x : PlanM α) := by
  cases x <;> exact of_quiet .refl

theorem bind {x : PlanM α} {f : α → PlanM β} (hx : Orderly x) (hf : ∀ a, Orderly (f a)) :
    Orderly (x >>= f) := by
  intro s
  obtain ⟨keys, h⟩ := hx s
  rw [run_bind]
  rcases hr : x.run s with ⟨a | a, t⟩
  · rw [hr] at h
    exact ⟨keys, h⟩
  · rw [hr] at h
    obtain ⟨keys', h'⟩ := hf a t
    exact ⟨keys ++ keys', h.trans h'⟩

theorem foldlM {f : β → α → PlanM β} {l : List α} (h : ∀ b, ∀ a ∈ l, Orderly (f b a)) (b : β) :
    Orderly (l.foldlM f b) := by
  induction l generalizing b with
  | nil => exact .pure b
  | cons a l ih =>
    rw [List.foldlM_cons]
    exact (h b a List.mem_cons_self).bind (ih fun b a ha => h b a (List.mem_cons_of_mem _ ha))

theorem forM {f : α → PlanM PUnit} {l : List α} (h : ∀ a, Orderly (f a)) : Orderly (l.forM f) := by
  induction l with
  | nil => exact .pure _
  | cons a l ih =>
    show Orderly (f a >>= fun _ => l.forM f)
    exact (h a).bind fun _ => ih

theorem mapM {f : α → PlanM β} {l : List α} (h : ∀ a, Orderly (f a)) : Orderly (l.mapM f) := by
  induction l with
  | nil =>
    rw [List.mapM_nil]
    exact .pure _
  | cons a l ih =>
    rw [List.mapM_cons]
    exact (h a).bind fun b => ih.bind fun bs => .pure _

end Orderly

/-! ### Parts of a plan -/

section Parts

variable {scene : Scene} {plan : Request → PlanM String} {node : Node}

theorem orderly_warn (message : String) : Orderly (warn message) :=
  .of_quiet fun _ => ⟨rfl, rfl, rfl, List.prefix_append _ _⟩

theorem orderly_breakCycle (key : String) : Orderly (breakCycle key) :=
  .of_quiet fun _ => ⟨rfl, rfl, rfl, List.prefix_append _ _⟩

theorem orderly_sampler (config : Config) (pass : String) : Orderly (sampler config pass) := by
  unfold sampler
  split
  · exact .pure _
  · exact .of_quiet fun _ => ⟨rfl, rfl, rfl, List.prefix_refl _⟩

/-- The texture of an answer. -/
theorem orderly_texture (hplan : ∀ r, Orderly (plan r)) (r : Request) {α : Type} (f : String → α) :
    Orderly (do
        let pass ← plan r
        let name ← sampler scene.config pass
        Pure.pure (f name)) :=
  (hplan r).bind fun pass => (orderly_sampler _ pass).bind fun _ => .pure _

private theorem orderly_visit (hplan : ∀ r, Orderly (plan r)) (fuel : Nat) (stack : List String)
    (id : String) (sub : Subgraph) :
    Orderly (visit scene.graph (host scene plan) fuel stack id sub) := by
  induction fuel generalizing stack id sub with
  | zero => exact .of_quiet .refl
  | succ fuel ih =>
    unfold visit
    split
    · exact .pure _
    · split
      · exact (orderly_warn _).bind fun _ => .pure _
      · refine (Orderly.lift _).bind fun node => ?_
        refine (Orderly.foldlM (fun sub e _ => ?_) sub).bind fun _ => .pure _
        unfold follow
        refine (Orderly.lift _).bind fun source => ?_
        split
        · refine (Orderly.lift _).bind fun feeds => ?_
          split
          · exact ih _ _ _
          · exact .pure _
        · split
          · refine Orderly.bind ?_ fun _ => .pure _
            exact (hplan _).bind fun pass => orderly_sampler _ pass
          · exact ih _ _ _

private theorem orderly_writeFragment (subgraph : Subgraph) (port : Port) :
    Orderly (writeFragment scene subgraph node port) :=
  (Orderly.forM orderly_warn).bind fun _ => .lift _

theorem orderly_buildPass (hplan : ∀ r, Orderly (plan r)) (port : Option String) (key : String) :
    Orderly (buildPass scene plan node port key) := by
  refine (orderly_visit hplan _ _ _ _).bind fun subgraph => ?_
  refine Orderly.bind (.of_quiet fun _ => ⟨rfl, rfl, rfl, List.prefix_refl _⟩) fun _ => ?_
  refine (orderly_writeFragment subgraph _).bind fun program => ?_
  exact Orderly.bind (.of_quiet .refl) fun _ => .pure _

private theorem orderly_referenceTextures (hplan : ∀ r, Orderly (plan r))
    (references : List Source.StageReference) :
    Orderly (referenceTextures scene plan node references) := by
  refine Orderly.foldlM (fun textures r _ => ?_) _
  split
  · split
    · exact orderly_texture hplan _ _
    · exact (orderly_warn _).bind fun _ => .pure _
  · exact orderly_texture hplan _ _
  · exact .pure _

private theorem orderly_inputTextures (hplan : ∀ r, Orderly (plan r)) (textures : Keyed String) :
    Orderly (inputTextures scene plan node textures) := by
  refine Orderly.foldlM (fun textures e _ => ?_) _
  split
  · exact .pure _
  · exact .pure _
  · exact (Orderly.lift _).bind fun _ => orderly_texture hplan _ _

private theorem orderly_previousTexture (previous : String) (firstInput : Option String)
    (isRead : Bool) : Orderly (previousTexture scene node previous firstInput isRead) := by
  unfold previousTexture
  split
  · exact (orderly_sampler _ _).bind fun _ => .pure _
  · split <;> exact .pure _

theorem orderly_buildStage (hplan : ∀ r, Orderly (plan r)) (stage : Stage) (key previous : String) :
    Orderly (buildStage scene plan node stage key previous) := by
  unfold buildStage
  refine (Orderly.lift _).bind fun io => ?_
  refine (orderly_referenceTextures hplan _).bind fun textures => ?_
  refine (orderly_inputTextures hplan textures).bind fun textures => ?_
  refine (orderly_previousTexture _ _ _).bind fun texture => ?_
  refine (Orderly.lift _).bind fun body => (Orderly.lift _).bind fun count => ?_
  refine (Orderly.forM fun w => .of_quiet fun _ => ⟨rfl, rfl, rfl, List.prefix_refl _⟩).bind
    fun _ => ?_
  refine (Orderly.lift _).bind fun program => ?_
  exact Orderly.bind (.of_quiet .refl) fun _ => .pure _

private theorem orderly_iterations (template : RenderPass) (loop : Loop) :
    Orderly (iterations scene template loop) := by
  refine Orderly.mapM fun index => ?_
  unfold iteration
  split
  · exact .pure _
  · exact (orderly_sampler _ _).bind fun _ => .lift _

/-! ### Requests -/

/-- The answer for a key is looked up; a key that is neither found nor being planned is planned. -/
private theorem orderly_of_build {key : String} {x : PlanM String}
    (h : ∀ s, s.generated.get? key = none → key ∉ s.active →
      ∃ keys, Account s keys (x.run s).2) :
    Orderly (do
        let state ← get
        match state.generated.get? key with
        | some pass => Pure.pure pass
        | none =>
          if key ∈ state.active then
            breakCycle key
            Pure.pure key
          else x) := by
  intro s
  have hget : (get : PlanM State).run s = (.ok s, s) := rfl
  rw [run_bind, hget]
  dsimp only
  cases hg : s.generated.get? key with
  | some pass => exact Orderly.pure pass s
  | none =>
    dsimp only
    by_cases ha : key ∈ s.active
    · rw [if_pos ha]
      exact (orderly_breakCycle key).bind (fun _ => .pure key) s
    · rw [if_neg ha]
      exact h s hg ha

private theorem run_addPasses (s : State) (passes : List RenderPass) (key last : String) :
    (addPasses passes key last).run s = (.ok (), s.add passes key last) := by
  have hadds : Ends (addPasses passes key last) (fun _ t => t = s.add passes key last)
      (fun _ _ => False) s :=
    (ends_addPasses passes key last).2 rfl
  rcases hr : (addPasses passes key last).run s with ⟨f | _, t⟩
  · exact (hadds.of_run_error hr).elim
  · rw [hadds.of_run_ok hr]

theorem orderly_planOutput (hplan : ∀ r, Orderly (plan r)) (port : Option String) :
    Orderly (planOutput scene plan node port) := by
  refine orderly_of_build fun s hg ha => ?_
  have hbuild : Orderly (buildPass scene plan node port (passKey node port)) :=
    orderly_buildPass hplan port _
  obtain ⟨keys, h⟩ := hbuild { s with active := s.active ++ [passKey node port] }
  rw [run_bind, run_whileActive]
  rcases hr : (buildPass scene plan node port (passKey node port)).run
    { s with active := s.active ++ [passKey node port] } with ⟨f | p, t⟩
  · rw [hr] at h
    exact ⟨keys, h.attempt ha⟩
  · rw [hr] at h
    have hb : Built scene plan "" _ (.output node port) _ [p] t := .output hr
    dsimp only
    rw [run_bind, run_addPasses]
    exact ⟨_, h.complete hg ha (Item.loop_eq_ok hb.loop_eq) hb.iterations⟩

/-- A stage is planned while its key is active. -/
private theorem exists_account_planStage (hplan : ∀ r, Orderly (plan r)) {stage : Stage}
    (previous : String) {s : State} (hg : s.generated.get? (stageKey node stage) = none)
    (ha : stageKey node stage ∉ s.active) :
    ∃ keys, Account s keys ((whileActive (stageKey node stage)
      (planStage scene plan node stage (stageKey node stage) previous)).run s).2 := by
  rw [run_whileActive]
  unfold planStage
  have hbuild : Orderly (buildStage scene plan node stage (stageKey node stage) previous) :=
    orderly_buildStage hplan stage _ previous
  obtain ⟨keys, h⟩ := hbuild { s with active := s.active ++ [stageKey node stage] }
  rw [run_bind]
  rcases hr : (buildStage scene plan node stage (stageKey node stage) previous).run
    { s with active := s.active ++ [stageKey node stage] } with ⟨f | ⟨template, l⟩, t⟩
  · rw [hr] at h
    exact ⟨keys, h.attempt ha⟩
  · rw [hr] at h
    have hiterations : Orderly (iterations scene template l) := orderly_iterations template l
    obtain ⟨keys', h'⟩ := hiterations t
    dsimp only
    rw [run_bind]
    rcases hi : (iterations scene template l).run t with ⟨f | passes, u⟩
    · rw [hi] at h'
      exact ⟨keys ++ keys', (h.trans h').attempt ha⟩
    · rw [hi] at h'
      have hb := Built.stage hr hi
      dsimp only
      rw [run_bind, run_addPasses]
      exact ⟨_, (h.trans h').complete hg ha (Item.loop_eq_ok hb.loop_eq) hb.iterations⟩

theorem orderly_planStages (hplan : ∀ r, Orderly (plan r)) (stage : Option String) :
    Orderly (planStages scene plan node stage) := by
  have hrounds : Orderly ((requestedStages node stage).foldlM (fun last stage => do
      let key := stageKey node stage
      let state ← get
      match state.generated.get? key with
      | some pass => pure pass
      | none =>
        if key ∈ state.active then
          breakCycle key
          pure key
        else whileActive key (planStage scene plan node stage key last)) "") :=
    .foldlM (fun last _ _ => orderly_of_build fun _ hg ha =>
      exists_account_planStage hplan last hg ha) ""
  unfold planStages
  dsimp only
  split
  · exact (orderly_warn _).bind fun _ => hrounds
  · exact hrounds

end Parts

/-- A plan leaves an account, however a request ends. -/
theorem orderly_planWithin (scene : Scene) (n : Nat) (r : Request) :
    Orderly (planWithin scene n r) := by
  induction n generalizing r with
  | zero => exact .of_quiet .refl
  | succ n ih =>
    unfold planWithin
    refine (Orderly.lift _).bind fun node => ?_
    split
    · exact orderly_planStages ih r.stage
    · exact orderly_planOutput ih r.port

/-! ### Any requests -/

/-- The state in which requests leave a plan, one after the other, whether they succeed or fail. -/
def State.after (scene : Scene) (rs : List Request) : State :=
  rs.foldl (fun s r => ((plan scene r).run s).2) {}

theorem State.after_concat (scene : Scene) (rs : List Request) (r : Request) :
    State.after scene (rs ++ [r]) = ((plan scene r).run (State.after scene rs)).2 :=
  List.foldl_concat ..

/-- All that was built since the beginning, by requests that succeeded and by others. -/
theorem exists_account_after (scene : Scene) (rs : List Request) :
    ∃ keys, Account {} keys (State.after scene rs) := by
  induction rs using List.reverseRecOn with
  | nil => exact ⟨[], .of_quiet (.refl {})⟩
  | append_singleton rs r ih =>
    obtain ⟨keys, h⟩ := ih
    obtain ⟨keys', h'⟩ := orderly_planWithin scene _ r (State.after scene rs)
    exact ⟨keys ++ keys', State.after_concat scene rs r ▸ h.trans h'⟩

/-- However a request ends, and however those before it ended, no key is left being planned, passes and
warnings have been appended only, and no key was built to completion twice, by this request or by all
together. The same holds of the requests that are made on the way, of which the keys that were being
planned before are being planned still. -/
theorem account_of_requests (scene : Scene) (rs : List Request) (r : Request) :
    (∀ n r s, ∃ keys, Account s keys ((planWithin scene n r).run s).2) ∧
    (State.after scene rs).active = [] ∧
    (State.after scene (rs ++ [r])).active = [] ∧
    (State.after scene rs).passes <+: (State.after scene (rs ++ [r])).passes ∧
    (State.after scene rs).warnings <+: (State.after scene (rs ++ [r])).warnings ∧
    (State.after scene (rs ++ [r])).firstIds.Nodup := by
  obtain ⟨keys, h⟩ := exists_account_after scene rs
  obtain ⟨keys', h'⟩ := orderly_planWithin scene _ r (State.after scene rs)
  have hall := h.trans h'
  rw [State.after_concat]
  refine ⟨orderly_planWithin scene, h.active_eq, hall.active_eq, h'.passes, h'.warnings, ?_⟩
  rw [plan, hall.firstIds_eq]
  exact hall.nodup

end RenderGraph.Plan
