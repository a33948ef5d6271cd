import RenderGraph.Proofs.Plan.Reach

/-!
# The pass before a stage

The stages of a node are planned in order, and each of them is given the answer for the one before it,
which its program reads as the previous pass. A stage that is asked for by name is planned alone, and is
given nothing; when its turn comes in order, it is found and stays as it is. So the first pass of a stage
reads the last pass of the stage before it, or the first one if that was still being planned, or else the
stage was asked for by name.

## Main definitions

* `Plan.ReadsPrevious`: a pass reads a texture as the previous pass
* `Plan.DrawnAfter`: a pass is the first one of a stage that was built after a given pass
* `Plan.IsGiven`: what a stage is given as the pass before it
* `Plan.Successive`: what holds of the first passes of a stage at any time

## Main results

* `Plan.DrawnAfter.readsPrevious`, `Plan.DrawnAfter.readsPrevious_empty`: what such a pass reads
* `Plan.Rounds.exists_drawnAfter`: a stage that is not needed for those before it
* `Plan.successive_planWithin`: what a plan gives to a stage
-/

namespace RenderGraph.Plan

open Source (StageReference stageReferences)

/-! ### What a stage reads -/

/-- A line stands in a program. -/
def Mentions (code line : String) : Prop :=
  ∃ front back, code = front ++ line ++ back

namespace Mentions

variable {code line : String}

theorem append_left (h : Mentions code line) (front : String) : Mentions (front ++ code) line := by
  obtain ⟨front', back, rfl⟩ := h
  exact ⟨front ++ front', back, by simp only [String.append_assoc]⟩

theorem append_right (h : Mentions code line) (back : String) : Mentions (code ++ back) line := by
  obtain ⟨front, back', rfl⟩ := h
  exact ⟨front, back' ++ back, by simp only [String.append_assoc]⟩

theorem join {lines : List String} (h : line ∈ lines) : Mentions (String.join lines) line := by
  obtain ⟨before, after, rfl⟩ := List.append_of_mem h
  refine ⟨String.join before, String.join after, ?_⟩
  rw [String.join_append, String.join_cons, String.append_assoc]

end Mentions

/-- A pass reads a texture as the previous pass, and its program defines the name so. -/
structure ReadsPrevious (p : RenderPass) (u : String) : Prop where
  texture_eq : p.textures.get? previousPass = some u
  defined : Mentions p.fragment (defineLine u ++ "\n")

variable {scene : Scene} {plan : Request → PlanM String} {node : Node} {stage : Stage}
  {key previous u : String} {s t : State}

/-- The program of a stage defines the previous pass as the texture that stands for it. -/
theorem yields_stageProgram_define {body : String} {io : Source.Interface} {textures : Keyed String}
    {isLoop hasFeedback : Bool} (h : textures.get? previousPass = some u) :
    Yields (stageProgram scene node body io textures isLoop hasFeedback)
      (fun program => Mentions program.1 (defineLine u ++ "\n")) fun _ => True := by
  have hmem : (previousPass, u) ∈ definedReferences io.references textures := by
    refine List.mem_filterMap.2 ⟨previousPass, List.mem_append_right _ List.mem_cons_self, ?_⟩
    rw [h]
    rfl
  have hjoin := Mentions.join
    (List.mem_map_of_mem (f := fun r : String × String => "#define " ++ r.1 ++ " " ++ r.2 ++ "\n") hmem)
  unfold stageProgram
  dsimp only
  rw [yields_bind, yields_iff]
  refine ⟨fun d _ => ?_, fun _ _ => trivial⟩
  -- The lines that follow the definitions, and the main function.
  have hprogram (front uniforms lines code main : String) := hjoin.append_left front
    |>.append_right uniforms |>.append_right lines |>.append_right "\n" |>.append_right code
    |>.append_right "\n" |>.append_right main
  split
  · exact hprogram ..
  · rw [yields_bind, yields_iff]
    exact ⟨fun arguments _ => hprogram .., fun _ _ => trivial⟩

theorem leads_inputTextures_firstInput (h : scene.graph.incoming node.id = [])
    (textures : Keyed String) :
    Leads (inputTextures scene plan node textures) (fun t _ => t.firstInput = none) s := by
  unfold inputTextures
  rw [h, List.foldlM_nil, Leads, ends_pure]

/-- The first pass of a stage reads the texture that is taken as the previous pass. -/
theorem leads_buildStage_previous (hu : u ≠ "")
    (h : ∀ firstInput isRead t, (scene.graph.incoming node.id = [] → firstInput = none) →
      (.previous ∈ stageReferences stage.text → isRead = true) →
      Leads (previousTexture scene node previous firstInput isRead) (fun name _ => name = some u) t) :
    Leads (buildStage scene plan node stage key previous) (fun r _ => ReadsPrevious r.1 u) s := by
  unfold buildStage
  rw [Leads, ends_bind, ends_lift, yields_iff]
  refine ⟨fun io hio => ?_, fun _ _ => trivial⟩
  have hisRead : .previous ∈ stageReferences stage.text → io.references.any (· = .previous) = true := by
    rw [references_eq hio]
    simp
  refine Leads.bind fun references s => ?_
  have hinput : Leads (inputTextures scene plan node references)
      (fun textures _ => scene.graph.incoming node.id = [] → textures.firstInput = none) s := by
    by_cases hnone : scene.graph.incoming node.id = []
    · exact (leads_inputTextures_firstInput hnone _).mono (fun _ _ h _ => h) fun _ _ => id
    · exact ends_iff.2 ⟨fun _ _ _ h => absurd h hnone, fun _ _ _ => trivial⟩
  rw [Leads, ends_bind]
  refine hinput.mono (fun textures s hfirst => ?_) fun _ _ => id
  rw [ends_bind]
  refine (h textures.firstInput _ s hfirst hisRead).mono ?_ fun _ _ => id
  rintro _ s rfl
  refine Leads.bind fun body s => Leads.bind fun count s => Leads.bind fun _ s => ?_
  split
  · next hnone => cases hnone
  · next hempty => exact absurd (Option.some.inj hempty) hu
  · next name _ hname =>
    obtain rfl := Option.some.inj hname
    have hget : (textures.all.insert previousPass u).get? previousPass = some u := by
      rw [Keyed.get?_insert, if_pos rfl]
    rw [Leads, ends_bind, ends_lift]
    refine (yields_stageProgram_define hget).mono (fun program hdefine => ?_) fun _ => id
    exact Leads.bind fun _ _ => ⟨hget, hdefine⟩

/-- A pass is the first one of a stage that was built after a given pass. -/
def DrawnAfter (scene : Scene) (node : Node) (stage : Stage) (previous : String) (p : RenderPass) :
    Prop :=
  ∃ n template l s t, (buildStage scene (planWithin scene n) node stage (stageKey node stage)
    previous).run s = (.ok (template, l), t) ∧ p = firstIteration template l 0

/-- Nothing feeds a texture to a node. -/
def IsUnfed (g : Graph) (node : Node) : Prop :=
  g.incoming node.id = [] ∧ ∀ port ∈ node.inputs, port.type ≠ .sampler2D

namespace DrawnAfter

variable {p : RenderPass}

/-- A stage that was given a pass reads it as the previous one. -/
theorem readsPrevious (h : DrawnAfter scene node stage previous p) (hp : previous ≠ "") :
    ReadsPrevious p (Shader.samplerName previous) := by
  obtain ⟨n, template, l, s, t, hr, rfl⟩ := h
  have hname : Shader.samplerName previous ≠ "" := by
    simp [Shader.samplerName]
  have hreads : Leads (buildStage scene (planWithin scene n) node stage (stageKey node stage) previous)
      (fun r _ => ReadsPrevious r.1 (Shader.samplerName previous)) s := by
    refine leads_buildStage_previous hname fun firstInput isRead t _ _ => ?_
    unfold previousTexture
    rw [if_pos (by simpa using hp), Leads, ends_bind, ends_sampler, if_neg (by simpa using hp)]
    rfl
  exact ⟨(hreads.of_run_ok hr).1, (hreads.of_run_ok hr).2⟩

/-- A stage that was given none, of a node to which no texture is fed, reads the empty texture. -/
theorem readsPrevious_empty (h : DrawnAfter scene node stage "" p) (hf : IsUnfed scene.graph node)
    (hread : .previous ∈ stageReferences stage.text) (he : scene.config.emptyTexture ≠ "") :
    ReadsPrevious p scene.config.emptyTexture := by
  obtain ⟨n, template, l, s, t, hr, rfl⟩ := h
  have hbound : node.inputs.find? (fun p =>
      p.type = .sampler2D && (node.uniforms.get? p.id).any (·.type = .sampler2D)) = none :=
    List.find?_eq_none.2 fun port hport => by simp [hf.2 port hport]
  have hreads : Leads (buildStage scene (planWithin scene n) node stage (stageKey node stage) "")
      (fun r _ => ReadsPrevious r.1 scene.config.emptyTexture) s := by
    refine leads_buildStage_previous he fun firstInput isRead t hfirst hisRead => ?_
    unfold previousTexture
    rw [hfirst hf.1, hisRead hread, hbound]
    rfl
  exact ⟨(hreads.of_run_ok hr).1, (hreads.of_run_ok hr).2⟩

end DrawnAfter

/-! ### What a stage is given -/

/-- What a stage is given as the pass before it, if `a` is the stage before it: the last pass of that
stage, or the first one while that is being planned, or none if the stage is asked for by name. -/
inductive IsGiven (node : Node) (a : Stage) (named : Prop) (warnings : List String) : String → Prop
  | last {l : Loop} (hl : (Item.stage node a).loop = .ok l) : IsGiven node a named warnings l.lastId
  | active (hw : cycleWarning (stageKey node a) ∈ warnings) :
      IsGiven node a named warnings (stageKey node a)
  | alone (h : named) : IsGiven node a named warnings ""

variable {a b : Stage} {named : Prop} {i : Item} {is : List Item} {q : String} {n : Nat}

theorem IsGiven.mono {warnings warnings' : List String} (h : IsGiven node a named warnings q)
    (hw : warnings ⊆ warnings') : IsGiven node a named warnings' q := by
  cases h with
  | last hl => exact .last hl
  | active hc => exact .active (hw hc)
  | alone h => exact .alone h

/-- What was given stays so. -/
theorem invariant_isGiven (scene : Scene) (node : Node) (a : Stage) (named : Prop) (q : String) :
    Invariant scene fun s => IsGiven node a named s.warnings q where
  quiet hs hq := hs.mono hq.warnings.subset
  enter hs _ _ := hs
  add ht _ _ _ _ _ := ht

/-- An item that is not being planned is answered with its last pass. -/
theorem Obtains.eq_lastId (h : Obtains scene plan i previous s q t) (hi : i.In scene.graph)
    (hs : Settled scene.graph s) (ha : i.key ∉ s.active) : ∃ l, i.loop = .ok l ∧ q = l.lastId := by
  cases h with
  | found hg => exact hs i hi q hg
  | cycle _ hactive => exact absurd hactive ha
  | built _ _ hb => exact ⟨_, hb.loop_eq, rfl⟩

/-- A stage is answered with what is given to the next one. -/
theorem Obtains.isGiven (h : Obtains scene plan (.stage node a) previous s q t)
    (ha : (Item.stage node a).In scene.graph) (hs : Settled scene.graph s) :
    IsGiven node a named t.warnings q := by
  cases h with
  | cycle => exact .active (List.mem_append_right _ List.mem_cons_self)
  | found hg =>
    obtain ⟨l, hl, rfl⟩ := hs _ ha q hg
    exact .last hl
  | built _ _ hb => exact .last hb.loop_eq

/-- What is found under keys is settled, and the first passes of a stage were drawn after what it was
given. -/
structure Successive (scene : Scene) (node : Node) (a b : Stage) (named : Prop) (s : State) : Prop where
  settled : Settled scene.graph s
  drawn : ∀ p ∈ s.passes, p.id = stageKey node b →
    ∃ previous, IsGiven node a named s.warnings previous ∧ DrawnAfter scene node b previous p

theorem successive_initial (scene : Scene) (node : Node) (a b : Stage) (named : Prop) :
    Successive scene node a b named {} :=
  ⟨settled_initial _, fun _ hp => absurd hp List.not_mem_nil⟩

theorem Successive.quiet (h : Successive scene node a b named s) (hq : s.Quiet t) :
    Successive scene node a b named t where
  settled i hi q := by
    rw [hq.generated_eq]
    exact h.settled i hi q
  drawn p hp hid := by
    rw [hq.passes_eq] at hp
    obtain ⟨previous, hgiven, hdrawn⟩ := h.drawn p hp hid
    exact ⟨previous, hgiven.mono hq.warnings.subset, hdrawn⟩

/-! ### Who asks for a stage -/

/-- A stage of a node is asked for by name. -/
def IsNamed (node : Node) (b : Stage) : Prop :=
  ∃ c ∈ node.stages, .named b.id ∈ stageReferences c.text

/-- Names apart, a stage that is not the first one is asked for only by name. -/
theorem Item.Wants.isNamed (hst : StagesApart scene.graph) {before after : List Stage}
    (hb : (Item.stage node b).In scene.graph) (hstages : node.stages = before ++ a :: b :: after)
    (hi : i.In scene.graph) {r : Request} (h : i.Wants scene.graph r) (hn : r.node = node.id)
    (hstage : r.stage = some b.id) : IsNamed node b := by
  cases i with
  | output n port =>
    obtain ⟨_, _, -, -, -, rfl⟩ := h
    cases hstage
  | stage n c =>
    obtain ⟨hmem, -, hc⟩ := hi
    rcases mem_stageRequests h with ⟨reference, href, hsome⟩ | ⟨-, hnone⟩
    · cases reference with
      | named id =>
        simp only [referenceRequest?] at hsome
        split at hsome
        · cases hsome
          obtain rfl := Graph.eq_of_id_eq hmem hb.node_mem hn
          obtain rfl := Option.some.inj hstage
          exact ⟨c, hc, href⟩
        · cases hsome
      | first =>
        cases hsome
        obtain rfl := Graph.eq_of_id_eq hmem hb.node_mem hn
        have hhead : ((n.stages.map (·.id)).headD "") ≠ b.id := by
          have hnodup := hst n hmem
          rw [hstages] at hnodup ⊢
          cases before <;> simp_all
        exact absurd (Option.some.inj hstage) hhead
      | previous => cases hsome
    · rw [hnone] at hstage
      cases hstage

/-! ### Stages in order -/

section Names

variable (hnames : NamesApart scene.graph)

include hnames

/-- Names apart, the only pass of an item that has the key of a stage as its id is the first pass of that
stage. -/
theorem Built.drawnAfter {l : Loop} {passes : List RenderPass}
    (h : Built scene (planWithin scene n) previous s i l passes t) (hi : i.In scene.graph)
    (hb : (Item.stage node b).In scene.graph) {p : RenderPass} (hp : p ∈ passes)
    (hid : p.id = stageKey node b) :
    i.key = stageKey node b ∧ DrawnAfter scene node b previous p := by
  have hkey : i.key = stageKey node b := by
    by_contra hne
    refine Item.key_notMem_ids hnames.repeats hi hb h.loop_eq h.iterations (fun he => hne he.symm) ?_
    exact List.mem_map.2 ⟨p, hp, hid⟩
  obtain rfl := Item.eq_stage_of_key_eq hnames.keys hnames.stages hi hb hkey
  obtain ⟨template, u, hrun, hpasses⟩ := h.exists_template
  obtain ⟨k, hk, hpk, hfirst⟩ := exists_of_forall₂ hpasses hp
  rcases Nat.eq_zero_or_pos k with rfl | hpos
  · exact ⟨rfl, n, template, l, s, u, hrun, hfirst rfl⟩
  · refine absurd hb.key_mem (hnames.repeats node hb.node_mem node hb.node_mem _ ?_)
    have hrepeat := hi.iterationId_mem h.loop_eq hpos (List.mem_range.1 hk)
    rwa [← hpk.id_eq, hid] at hrepeat

variable (hb : (Item.stage node b).In scene.graph)

include hb in
/-- Names apart, a stage that is neither planned nor being planned is built after what it is given. -/
theorem Obtains.exists_drawnAfter
    (h : Obtains scene (planWithin scene n) (.stage node b) previous s q t)
    (hhas : ¬ s.Has (stageKey node b)) (hactive : stageKey node b ∉ s.active) :
    ∃ p ∈ t.passes, p.id = stageKey node b ∧ DrawnAfter scene node b previous p := by
  cases h with
  | found hg => exact absurd (Option.isSome_iff_exists.2 ⟨q, hg⟩) hhas
  | cycle _ ha => exact absurd ha hactive
  | @built l passes t hg ha hbuilt =>
    obtain ⟨hbase, hcount⟩ := Item.loop_eq_ok hbuilt.loop_eq
    obtain ⟨p, later, hpasses, hid, -⟩ := exists_of_iterations hcount hbuilt.iterations
    have hp : p ∈ passes := hpasses ▸ List.mem_cons_self
    exact ⟨p, List.mem_append_right _ hp, hid.trans hbase,
      (hbuilt.drawnAfter hnames hb hb hp (hid.trans hbase)).2⟩

variable {before after : List Stage} (hstages : node.stages = before ++ a :: b :: after)

include hb hstages in
/-- Names apart, a stage that is not needed for those before it is built when its turn comes, after the
last pass of the stage before it. -/
theorem Rounds.exists_drawnAfter
    (h : Rounds scene (planWithin scene n) (node.stages.map (.stage node)) "" {} q t)
    (hneeded : ¬ NeededFor scene.graph ((before ++ [a]).map (.stage node)) (stageKey node b)) :
    ∃ p ∈ t.passes, p.id = stageKey node b ∧
      ∃ l, (Item.stage node a).loop = .ok l ∧ DrawnAfter scene node b l.lastId p := by
  have hin : ∀ i ∈ node.stages.map (Item.stage node), i.In scene.graph := fun _ => hb.of_mem_stages
  rw [hstages, List.append_cons, List.map_append, List.map_cons] at h hin
  obtain ⟨q₁, s₁, hfirst, hrest⟩ := h.exists_of_append
  have hfirsts := fun i hi => hin i (List.mem_append_left _ hi)
  rw [List.map_append, List.map_singleton] at hneeded hfirst hfirsts
  obtain ⟨q₀, s₀, hbefore, hlast⟩ := hfirst.exists_of_append
  have hbefores := fun i hi => hfirsts i (List.mem_append_left _ hi)
  cases hlast with
  | cons hoa hnil =>
    cases hnil
    cases hrest with
    | cons hob hafter =>
      have hI := invariant_settled hnames
      obtain ⟨l, hl, rfl⟩ := hoa.eq_lastId (hfirsts _ (by simp))
        (hI.rounds hI.planWithin hbefores hbefore (settled_initial _)).1
        (by rw [active_rounds hbefores hbefore]; exact List.not_mem_nil)
      obtain ⟨p, hp, hid, hdrawn⟩ := hob.exists_drawnAfter hnames hb
        (fun hhas => hneeded ((hfirst.has_iff hnames hfirsts hb).1 hhas))
        (by rw [active_rounds hfirsts hfirst]; exact List.not_mem_nil)
      have hkept := invariant_mem_passes scene p
      exact ⟨p, (hkept.rounds hkept.planWithin (fun i hi => hin i (by simp [hi])) hafter hp).1, hid, l, hl,
        hdrawn⟩

variable (hnamed : IsNamed node b → named)

section Answers

-- What is to be shown of a plan is known of the plan with less fuel.
variable (hplan : ∀ {r : Request} {s t : State} {q : String},
  (planWithin scene n r).run s = (.ok q, t) → (r.node = node.id → r.stage = some b.id → named) →
    Successive scene node a b named s → Successive scene node a b named t)

include hb hstages hnamed hplan

/-- Names apart, an answer keeps the stages in succession if the stage is given what it should be. -/
theorem Obtains.successive (hi : i.In scene.graph)
    (h : Obtains scene (planWithin scene n) i previous s q t)
    (hgiven : i.key = stageKey node b → IsGiven node a named s.warnings previous)
    (hs : Successive scene node a b named s) : Successive scene node a b named t := by
  have hI := invariant_settled hnames
  have hsettled := hI.obtains hI.planWithin hi h hs.settled
  cases h with
  | found => exact hs
  | cycle => exact hs.quiet ⟨rfl, rfl, rfl, List.prefix_append _ _⟩
  | @built l passes t hg ha hbuilt =>
    obtain ⟨rs, hcourse, hrs⟩ := hbuilt.course
    have hwants {r : Request} (hm : r ∈ rs) (hn : r.node = node.id) (hstage : r.stage = some b.id) :
        named :=
      hnamed (Item.Wants.isNamed hnames.stages hb hstages hi ((hrs r).1 hm) hn hstage)
    have ht := hcourse.preserves (I := fun t => Successive scene node a b named t ∧
        (i.key = stageKey node b → IsGiven node a named t.warnings previous))
      ⟨⟨hs.settled, hs.drawn⟩, hgiven⟩
      (fun h hq => ⟨h.1.quiet hq, fun he => (h.2 he).mono hq.warnings.subset⟩)
      (fun r hm t u q h hrun => ⟨hplan hrun (hwants hm) h.1, fun he =>
        ((invariant_isGiven scene node a named previous).planWithin hrun (h.2 he)).1⟩)
    refine ⟨hsettled.1, fun p hp hid => ?_⟩
    rcases List.mem_append.1 hp with hp | hp
    · exact ht.1.drawn p hp hid
    · obtain ⟨hkey, hdrawn⟩ := hbuilt.drawnAfter hnames hi hb hp hid
      exact ⟨previous, ht.2 hkey, hdrawn⟩

/-- So do answers to other items. -/
theorem Rounds.successive (hi : ∀ i ∈ is, i.In scene.graph)
    (h : Rounds scene (planWithin scene n) is previous s q t)
    (hkeys : stageKey node b ∉ is.map Item.key) (hs : Successive scene node a b named s) :
    Successive scene node a b named t := by
  refine h.preserves (fun i hm _ _ _ _ ho => ?_) hs
  refine ho.successive hnames hb hstages hnamed hplan (hi i hm) fun hkey => absurd ?_ hkeys
  exact List.mem_map.2 ⟨i, hm, hkey⟩

/-- All stages of a node are given the answers for the stages before them. -/
theorem Rounds.successive_stages
    (h : Rounds scene (planWithin scene n) (node.stages.map (.stage node)) previous s q t)
    (hs : Successive scene node a b named s) : Successive scene node a b named t := by
  have hin : ∀ i ∈ node.stages.map (Item.stage node), i.In scene.graph := fun _ => hb.of_mem_stages
  have hkeys : ((node.stages.map (Item.stage node)).map Item.key).Nodup := by
    rw [List.map_map]
    exact nodup_stageKeys hnames.stages hb.1
  rw [hstages, List.map_append, List.map_cons, List.map_cons] at h hin hkeys
  rw [List.map_append, List.map_cons, List.map_cons, List.nodup_append, List.nodup_cons,
    List.nodup_cons] at hkeys
  obtain ⟨-, ⟨hafter, hlater, -⟩, hbefore⟩ := hkeys
  have ha : (Item.stage node a).In scene.graph := hin _ (by simp)
  obtain ⟨q₁, s₁, hfirst, hrest⟩ := h.exists_of_append
  cases hrest with
  | @cons _ _ _ _ _ _ s₂ _ hoa hrest =>
    cases hrest with
    | @cons _ _ _ _ _ _ s₃ _ hob hlast =>
      have hs₁ := hfirst.successive hnames hb hstages hnamed hplan
        (fun i hi => hin i (List.mem_append_left _ hi))
        (fun hmem => hbefore _ hmem _ (List.mem_cons_of_mem _ List.mem_cons_self) rfl) hs
      have hs₂ := hoa.successive hnames hb hstages hnamed hplan ha
        (fun hkey => absurd (List.mem_cons.2 (Or.inl hkey)) hafter) hs₁
      have hs₃ := hob.successive hnames hb hstages hnamed hplan hb
        (fun _ => hoa.isGiven ha hs₁.settled) hs₂
      exact hlast.successive hnames hb hstages hnamed hplan
        (fun i hi => hin i (by simp [hi])) hlater hs₃

end Answers

include hb hstages hnamed

/-- Names apart, a plan gives to a stage what it should be given. -/
theorem successive_planWithin {r : Request} (h : (planWithin scene n r).run s = (.ok q, t))
    (hrequest : r.node = node.id → r.stage = some b.id → named)
    (hs : Successive scene node a b named s) : Successive scene node a b named t := by
  suffices hall : (r.node = node.id → r.stage = some b.id → named) →
      Successive scene node a b named s → Successive scene node a b named t from hall hrequest hs
  refine planWithin_induct (P := fun r s _ t => (r.node = node.id → r.stage = some b.id → named) →
    Successive scene node a b named s → Successive scene node a b named t) ?_ h
  intro n r s t q ih h hrequest hs
  cases h with
  | missing => exact hs.quiet ⟨rfl, rfl, rfl, List.prefix_append _ _⟩
  | answered h =>
    have hin : ∀ i ∈ r.items scene.graph, i.In scene.graph :=
      fun i hi => (Request.in_of_mem_items hi).1
    by_cases hmem : Item.stage node b ∈ r.items scene.graph
    · obtain ⟨hasked, hitems⟩ := Request.items_eq_of_stage_mem hmem
      have hnode : node.id = r.node := (Request.in_of_mem_items hmem).2
      rw [hitems] at h
      rcases requestedStages_of_mem (hnames.stages node hb.1) hasked with hall | ⟨hone, hsingle⟩
      · rw [hall] at h
        exact h.successive_stages hnames hb hstages hnamed ih hs
      · rw [hsingle] at h
        cases h with
        | cons ho hnil =>
          cases hnil
          exact ho.successive hnames hb hstages hnamed ih hb
            (fun _ => .alone (hrequest hnode.symm hone)) hs
    · refine h.successive hnames hb hstages hnamed ih hin (fun hkey => hmem ?_) hs
      obtain ⟨i, hi, hkey⟩ := List.mem_map.1 hkey
      exact Item.eq_stage_of_key_eq hnames.keys hnames.stages (hin i hi) hb hkey ▸ hi

end Names

end RenderGraph.Plan
