import RenderGraph.Proofs.Plan.PassIds

/-!
# What a plan reaches

Names apart, a plan enters a key exactly if it is needed, directly or through others, for one that was
asked for. It enters no other keys, since whatever is asked for on the way is needed. It leaves none out,
since an item is entered when all its requests have been answered, each of them by an entry or by a key
that is being planned, which is entered later. The last pass of a plan belongs to the last item that was
built.

## Main definitions

* `Plan.State.Has`, `Plan.State.Holds`: a key has been entered, or else is being planned
* `Plan.EntersWithin`: the entries that were made lie in a set of keys
* `Plan.State.Covered`: whatever an entry needs is entered or being planned
* `Plan.NeededFor`: a key is needed, directly or through others

## Main results

* `Plan.entersWithin_planWithin`, `Plan.covered_planWithin`: what a plan enters
* `Plan.Rounds.has_iff`: what is entered is what is needed
* `Plan.Rounds.getLast_cases`: the last pass of a plan
-/

namespace RenderGraph.Plan

open Relation (ReflTransGen)

/-- Something is found under a key. -/
def State.Has (s : State) (key : String) : Prop :=
  (s.generated.get? key).isSome = true

/-- A key has been entered or is being planned. -/
def State.Holds (s : State) (key : String) : Prop :=
  s.Has key ∨ key ∈ s.active

variable {scene : Scene} {plan : Request → PlanM String} {s t : State} {i : Item} {is : List Item}
  {previous q : String} {l : Loop} {passes : List RenderPass}

/-! ### Entries -/

theorem State.Quiet.has_iff {key : String} (h : s.Quiet t) : t.Has key ↔ s.Has key := by
  rw [State.Has, h.generated_eq, State.Has]

theorem State.Quiet.holds_iff {key : String} (h : s.Quiet t) : t.Holds key ↔ s.Holds key := by
  rw [State.Holds, h.has_iff, h.active_eq, State.Holds]

/-- What has been entered or is being planned stays so. -/
theorem invariant_holds (scene : Scene) (key : String) : Invariant scene (·.Holds key) where
  quiet hs hq := hq.holds_iff.2 hs
  enter hs _ _ := hs.imp_right (List.mem_append_left _)
  add {t i l passes rest} ht ha _ _ _ _ := by
    rcases ht with ht | ht
    · exact Or.inl (isSome_get?_add (Or.inr ht))
    · rw [ha, List.mem_append, List.mem_singleton] at ht
      exact ht.symm.imp_left fun he => isSome_get?_add (Or.inl he)

/-- Names apart, an item enters its own key and no other key of an item. -/
theorem has_add_iff (hr : RepeatsApart scene.graph) (hi : i.In scene.graph) (hl : i.loop = .ok l)
    (hp : List.Forall₂ (IsPassOf l) (List.range l.count.toNat) passes) {j : Item}
    (hj : j.In scene.graph) (rest : List String) :
    (State.add { t with active := rest } passes i.key l.lastId).Has j.key ↔
      j.key = i.key ∨ t.Has j.key := by
  refine ⟨fun h => ?_, isSome_get?_add⟩
  by_cases hne : j.key = i.key
  · exact Or.inl hne
  · rw [State.Has, get?_add_of_notMem hne (Item.key_notMem_ids hr hi hj hl hp hne)] at h
    exact Or.inr h

/-! ### Only what is needed -/

/-- The entries that were made lie in a set of keys. -/
def EntersWithin (g : Graph) (K : String → Prop) (s t : State) : Prop :=
  ∀ j : Item, j.In g → t.Has j.key → s.Has j.key ∨ K j.key

theorem EntersWithin.trans {g : Graph} {K : String → Prop} {u : State}
    (h : EntersWithin g K s t) (h' : EntersWithin g K t u) : EntersWithin g K s u :=
  fun j hj hu => (h' j hj hu).elim (h j hj) Or.inr

section Within

variable {K : String → Prop}

/-- Names apart, an item is answered by entries in a set of keys that holds its own key and whatever
those in it need. -/
theorem Obtains.entersWithin (hr : RepeatsApart scene.graph)
    (hK : ∀ {key key' : String}, K key → Needs scene.graph key key' → K key')
    (hplan : ∀ {r : Request} {s t : State} {q : String}, (plan r).run s = (.ok q, t) →
      (∀ j ∈ r.items scene.graph, K j.key) → EntersWithin scene.graph K s t)
    (hi : i.In scene.graph) (hkey : K i.key) (h : Obtains scene plan i previous s q t) :
    EntersWithin scene.graph K s t := by
  cases h with
  | found => exact fun j _ => Or.inl
  | cycle => exact fun j _ => Or.inl
  | @built l passes t hg ha hb =>
    obtain ⟨rs, hcourse, hrs⟩ := hb.course
    have ht : EntersWithin scene.graph K s t := by
      refine hcourse.preserves (I := EntersWithin scene.graph K s) (fun j _ => Or.inl)
        (fun h hq j hj hu => h j hj ?_) (fun r hm t u q h hrun => h.trans (hplan hrun ?_))
      · rwa [State.Has, ← hq.generated_eq]
      · exact fun j hj => hK hkey ⟨i, hi, rfl, r, (hrs r).1 hm, j, hj, rfl⟩
    intro j hj hu
    rcases (has_add_iff hr hi hb.loop_eq hb.iterations hj _).1 hu with he | hu
    · exact Or.inr (he ▸ hkey)
    · exact ht j hj hu

theorem entersWithin_rounds (hr : RepeatsApart scene.graph)
    (hK : ∀ {key key' : String}, K key → Needs scene.graph key key' → K key')
    (hplan : ∀ {r : Request} {s t : State} {q : String}, (plan r).run s = (.ok q, t) →
      (∀ j ∈ r.items scene.graph, K j.key) → EntersWithin scene.graph K s t)
    (hi : ∀ i ∈ is, i.In scene.graph ∧ K i.key) (h : Rounds scene plan is previous s q t) :
    EntersWithin scene.graph K s t :=
  h.preserves (I := EntersWithin scene.graph K s)
    (fun i hm _ _ _ _ ho hs => hs.trans (ho.entersWithin hr hK hplan (hi i hm).1 (hi i hm).2))
    fun _ _ => Or.inl

/-- Names apart, a plan enters only what is needed for what was asked for. -/
theorem entersWithin_planWithin (hr : RepeatsApart scene.graph)
    (hK : ∀ {key key' : String}, K key → Needs scene.graph key key' → K key') {n : Nat} {r : Request}
    (h : (planWithin scene n r).run s = (.ok q, t)) (hi : ∀ j ∈ r.items scene.graph, K j.key) :
    EntersWithin scene.graph K s t := by
  suffices hall : (∀ j ∈ r.items scene.graph, K j.key) → EntersWithin scene.graph K s t from hall hi
  refine planWithin_induct (P := fun r s _ t => (∀ j ∈ r.items scene.graph, K j.key) →
    EntersWithin scene.graph K s t) ?_ h
  intro n r s t q ih h hi
  cases h with
  | answered h =>
    exact entersWithin_rounds hr hK ih
      (fun i hm => ⟨(Request.in_of_mem_items hm).1, hi i hm⟩) h
  | missing => exact fun j _ => Or.inl

end Within

/-! ### All that is needed -/

/-- Whatever an entry needs is entered or being planned. -/
def State.Covered (g : Graph) (s : State) : Prop :=
  ∀ i : Item, i.In g → s.Has i.key → ∀ r, i.Wants g r → ∀ j ∈ r.items g, s.Holds j.key

theorem State.Covered.quiet {g : Graph} (h : s.Covered g) (hq : s.Quiet t) : t.Covered g :=
  fun i hi hhas r hw j hj => hq.holds_iff.2 (h i hi (hq.has_iff.1 hhas) r hw j hj)

/-- When all that an item wants has been answered, its entry is covered. -/
theorem State.Covered.add (hnames : NamesApart scene.graph) (h : t.Covered scene.graph)
    {rest : List String} (ha : t.active = rest ++ [i.key]) (hn : i.key ∉ rest)
    (hi : i.In scene.graph) (hl : i.loop = .ok l)
    (hp : List.Forall₂ (IsPassOf l) (List.range l.count.toNat) passes)
    (hw : ∀ r, i.Wants scene.graph r → ∀ j ∈ r.items scene.graph, t.Holds j.key) :
    (State.add { t with active := rest } passes i.key l.lastId).Covered scene.graph := by
  intro j hj hhas r hwants j' hj'
  refine (invariant_holds scene j'.key).add ?_ ha hn hi hl hp
  rcases (has_add_iff hnames.repeats hi hl hp hj rest).1 hhas with he | hhas
  · rw [(Item.eq_of_key_eq hnames.keys hnames.stages hj hi he).1] at hwants
    exact hw r hwants j' hj'
  · exact h j hj hhas r hwants j' hj'

section Covered

variable {n : Nat}

/-- Names apart, the answer to an item leaves all entries covered. -/
theorem Obtains.covered (hnames : NamesApart scene.graph)
    (hplan : ∀ {r : Request} {s t : State} {q : String}, (planWithin scene n r).run s = (.ok q, t) →
      s.Covered scene.graph →
        t.Covered scene.graph ∧ ∀ j ∈ r.items scene.graph, t.Holds j.key)
    (hi : i.In scene.graph) (h : Obtains scene (planWithin scene n) i previous s q t)
    (hs : s.Covered scene.graph) : t.Covered scene.graph ∧ t.Holds i.key := by
  cases h with
  | found hg => exact ⟨hs, Or.inl (by rw [State.Has, hg]; rfl)⟩
  | cycle _ ha => exact ⟨hs, Or.inr ha⟩
  | @built l passes t hg ha hb =>
    obtain ⟨rs, hcourse, hrs⟩ := hb.course
    have hstart : State.Covered scene.graph { s with active := s.active ++ [i.key] } :=
      fun j hj hhas r hw j' hj' => (hs j hj hhas r hw j' hj').imp_right (List.mem_append_left _)
    obtain ⟨hcovered, hactive, hanswered⟩ := hcourse.induct (J := fun done t =>
        t.Covered scene.graph ∧ t.active = s.active ++ [i.key] ∧
          ∀ r ∈ done, ∀ j ∈ r.items scene.graph, t.Holds j.key)
      ⟨hstart, rfl, by simp⟩
      (fun h hq => ⟨h.1.quiet hq, hq.active_eq.trans h.2.1, fun r hr j hj =>
        hq.holds_iff.2 (h.2.2 r hr j hj)⟩)
      (fun r _ done t u q h hrun => by
        obtain ⟨hcovered, hanswer⟩ := hplan hrun h.1
        refine ⟨hcovered, (active_planWithin hrun).trans h.2.1, fun r' hr' j hj => ?_⟩
        rcases List.mem_append.1 hr' with hr' | hr'
        · exact ((invariant_holds scene j.key).planWithin hrun (h.2.2 r' hr' j hj)).1
        · obtain rfl := List.mem_singleton.1 hr'
          exact hanswer j hj)
    rw [erase_active ha hactive]
    refine ⟨hcovered.add hnames hactive ha hi hb.loop_eq hb.iterations fun r hw => ?_, Or.inl ?_⟩
    · exact hanswered r ((hrs r).2 hw)
    · exact isSome_get?_add (Or.inl rfl)

/-- Names apart, rounds leave all entries covered and all keys entered that are not being planned. -/
theorem covered_rounds (hnames : NamesApart scene.graph)
    (hplan : ∀ {r : Request} {s t : State} {q : String}, (planWithin scene n r).run s = (.ok q, t) →
      s.Covered scene.graph →
        t.Covered scene.graph ∧ ∀ j ∈ r.items scene.graph, t.Holds j.key)
    (hi : ∀ i ∈ is, i.In scene.graph) (h : Rounds scene (planWithin scene n) is previous s q t)
    (hs : s.Covered scene.graph) : t.Covered scene.graph ∧ ∀ i ∈ is, t.Holds i.key := by
  induction h with
  | nil => exact ⟨hs, by simp⟩
  | @cons i is _ q _ s t u ho h ih =>
    obtain ⟨ht, hholds⟩ := ho.covered hnames hplan (hi i List.mem_cons_self) hs
    obtain ⟨hu, hrest⟩ := ih (fun j hj => hi j (List.mem_cons_of_mem i hj)) ht
    refine ⟨hu, fun j hj => ?_⟩
    rcases List.mem_cons.1 hj with rfl | hj
    · have hI := invariant_holds scene j.key
      exact (hI.rounds hI.planWithin (fun j' hj' => hi j' (List.mem_cons_of_mem _ hj')) h hholds).1
    · exact hrest j hj

/-- Names apart, a plan leaves all entries covered. -/
theorem covered_planWithin (hnames : NamesApart scene.graph) {r : Request}
    (h : (planWithin scene n r).run s = (.ok q, t)) (hs : s.Covered scene.graph) :
    t.Covered scene.graph ∧ ∀ j ∈ r.items scene.graph, t.Holds j.key := by
  suffices hall : s.Covered scene.graph →
      t.Covered scene.graph ∧ ∀ j ∈ r.items scene.graph, t.Holds j.key from hall hs
  refine planWithin_induct (P := fun r s _ t => s.Covered scene.graph →
    t.Covered scene.graph ∧ ∀ j ∈ r.items scene.graph, t.Holds j.key) ?_ h
  intro n r s t q ih h hs
  cases h with
  | answered h =>
    exact covered_rounds hnames ih (fun i hi => (Request.in_of_mem_items hi).1) h hs
  | missing hi =>
    refine ⟨hs.quiet ⟨rfl, rfl, rfl, List.prefix_append _ _⟩, ?_⟩
    rw [hi]
    simp

end Covered

/-! ### What rounds reach -/

/-- A key is needed, directly or through others, for one of some items. -/
def NeededFor (g : Graph) (is : List Item) (key : String) : Prop :=
  ∃ i ∈ is, ReflTransGen (Needs g) i.key key

/-- Names apart, an item that asks for nothing needs no other. -/
theorem Item.In.eq_key_of_needs {g : Graph} (hi : i.In g) (hnames : NamesApart g)
    (hw : ∀ r, ¬ i.Wants g r) {key : String} (h : ReflTransGen (Needs g) i.key key) : key = i.key := by
  rcases ReflTransGen.cases_head h with rfl | ⟨key', ⟨j, hj, hkey, r, hwants, -⟩, -⟩
  · rfl
  · rw [(Item.eq_of_key_eq hnames.keys hnames.stages hj hi hkey).1] at hwants
    exact absurd hwants (hw r)

/-- Names apart, rounds from the start enter exactly what is needed for their items. -/
theorem Rounds.has_iff {n : Nat} (hnames : NamesApart scene.graph) (hi : ∀ i ∈ is, i.In scene.graph)
    (h : Rounds scene (planWithin scene n) is previous {} q t) {j : Item} (hj : j.In scene.graph) :
    t.Has j.key ↔ NeededFor scene.graph is j.key := by
  constructor
  · have hclosed {key key' : String} (hkey : NeededFor scene.graph is key)
        (hstep : Needs scene.graph key key') : NeededFor scene.graph is key' := by
      obtain ⟨i, hm, hreach⟩ := hkey
      exact ⟨i, hm, hreach.tail hstep⟩
    have hwithin : EntersWithin scene.graph (NeededFor scene.graph is) {} t :=
      entersWithin_rounds hnames.repeats hclosed (entersWithin_planWithin hnames.repeats hclosed)
        (fun i hm => ⟨hi i hm, i, hm, .refl⟩) h
    intro hhas
    exact (hwithin j hj hhas).resolve_left fun hstart => by cases hstart
  · rintro ⟨i, hm, hreach⟩
    have hstart : State.Covered scene.graph {} := fun _ _ hhas => by cases hhas
    obtain ⟨hcovered, hholds⟩ := covered_rounds hnames (covered_planWithin hnames) hi h hstart
    -- Nothing is being planned any more, so that whatever is held has been entered.
    have hhas {key : String} (hkey : t.Holds key) : t.Has key := by
      refine hkey.resolve_right ?_
      rw [active_rounds hi h]
      exact List.not_mem_nil
    generalize j.key = key at hreach
    induction hreach with
    | refl => exact hhas (hholds i hm)
    | tail _ hstep ih =>
      obtain ⟨i', hi', rfl, r, hw, j', hj', rfl⟩ := hstep
      exact hhas (hcovered i' hi' ih r hw j' hj')

/-! ### The last pass -/

/-- The last pass of an item is its last iteration. -/
theorem getLast?_iterations (hc : 1 ≤ l.count)
    (hp : List.Forall₂ (IsPassOf l) (List.range l.count.toNat) passes) :
    (passes.map (·.id)).getLast? = some l.lastId := by
  obtain ⟨n, hn⟩ : ∃ n, l.count.toNat = n + 1 := ⟨l.count.toNat - 1, by omega⟩
  have hlast : l.lastId = l.iterationId n := by
    rw [Loop.lastId]
    congr 1
    omega
  rw [map_id_eq hp, hn, List.range_succ, List.map_append, List.map_singleton, List.getLast?_concat,
    hlast]

/-- An item that is planned or being planned adds no pass; any other is answered with its last iteration,
which is the last pass. -/
theorem Obtains.getLast_cases (h : Obtains scene plan i previous s q t) :
    (s.Holds i.key ∧ t.passes = s.passes) ∨
      ∃ l, i.loop = .ok l ∧ q = l.lastId ∧ t.ids.getLast? = some l.lastId := by
  cases h with
  | found hg => exact Or.inl ⟨Or.inl (by rw [State.Has, hg]; rfl), rfl⟩
  | cycle _ ha => exact Or.inl ⟨Or.inr ha, rfl⟩
  | @built l passes t hg ha hb =>
    have hlast := getLast?_iterations (Item.loop_eq_ok hb.loop_eq).2 hb.iterations
    refine Or.inr ⟨l, hb.loop_eq, rfl, ?_⟩
    rw [ids_add, List.getLast?_append, hlast]
    rfl

/-- The last pass after rounds that added passes is the last iteration of one of the items. -/
theorem Rounds.getLast_cases (h : Rounds scene plan is previous s q t) :
    t.passes = s.passes ∨ ∃ i ∈ is, ∃ l, i.loop = .ok l ∧ t.ids.getLast? = some l.lastId := by
  induction h with
  | nil => exact Or.inl rfl
  | @cons i is _ _ _ s t u ho h ih =>
    rcases ih with hsame | ⟨j, hj, hlast⟩
    · rcases ho.getLast_cases with ⟨-, hsame'⟩ | ⟨l, hl, -, hlast⟩
      · exact Or.inl (hsame.trans hsame')
      · refine Or.inr ⟨i, List.mem_cons_self, l, hl, ?_⟩
        rw [State.ids, hsame]
        exact hlast
    · exact Or.inr ⟨j, List.mem_cons_of_mem i hj, hlast⟩

/-- Rounds for two lists of items, one after the other. -/
theorem Rounds.exists_of_append {js : List Item} (h : Rounds scene plan (is ++ js) previous s q t) :
    ∃ q' u, Rounds scene plan is previous s q' u ∧ Rounds scene plan js q' u q t := by
  induction is generalizing previous s with
  | nil => exact ⟨previous, s, .nil, h⟩
  | cons i is ih =>
    cases h with
    | cons ho h =>
      obtain ⟨q', u, hfirst, hrest⟩ := ih h
      exact ⟨q', u, .cons ho hfirst, hrest⟩

/-- Names apart, items with one last pass have one key. -/
theorem Item.key_eq_of_lastId_eq {g : Graph} (hr : RepeatsApart g) {j : Item} {l' : Loop}
    (hi : i.In g) (hj : j.In g) (hl : i.loop = .ok l) (hl' : j.loop = .ok l')
    (h : l.lastId = l'.lastId) : i.key = j.key := by
  obtain ⟨hbase, hcount⟩ := Item.loop_eq_ok hl
  obtain ⟨hbase', hcount'⟩ := Item.loop_eq_ok hl'
  obtain ⟨n, hn⟩ : ∃ n : Nat, l.count - 1 = n := ⟨(l.count - 1).toNat, by omega⟩
  obtain ⟨n', hn'⟩ : ∃ n : Nat, l'.count - 1 = n := ⟨(l'.count - 1).toNat, by omega⟩
  rw [Loop.lastId, Loop.lastId, hn, hn'] at h
  rw [← hbase, ← hbase']
  -- A last pass that repeats its item has an id that is no key.
  rcases Nat.eq_zero_or_pos n with rfl | hpos <;> rcases Nat.eq_zero_or_pos n' with rfl | hpos'
  · rwa [Loop.iterationId_zero, Loop.iterationId_zero] at h
  · refine absurd ?_ (hr j.node hj.node_mem i.node hi.node_mem _
      (hj.iterationId_mem hl' hpos' (by omega)))
    rw [← h, Loop.iterationId_zero, hbase]
    exact hi.key_mem
  · refine absurd ?_ (hr i.node hi.node_mem j.node hj.node_mem _
      (hi.iterationId_mem hl hpos (by omega)))
    rw [h, Loop.iterationId_zero, hbase']
    exact hj.key_mem
  · exact (Loop.iterationId_inj hpos hpos' h).1

end RenderGraph.Plan
