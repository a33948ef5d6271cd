import RenderGraph.Proofs.Compile.Record
import RenderGraph.Proofs.Plan.Responses

/-!
# The ids of passes

The pass of an output or of the first iteration of a stage has its key as id; it is planned once, since a
key is looked up before it is planned. The ids of later iterations are made of the key and a number, which
tell them apart; but they are no keys and are never looked up before, so that they may coincide with
keys. Where they do not, what is found under a key is the last pass of its item.

## Main definitions

* `RenderPass.isRepeat`: the pass is a later iteration of a stage
* `Plan.State.firstIds`, `Plan.State.laterIds`: the ids of the other passes, and of these
* `Plan.IdsApart`: what holds of the ids at any time
* `Plan.Settled`: what is found under keys

## Main results

* `Plan.Loop.iterationId_inj`: the ids of later iterations tell their loop and number
* `Plan.invariant_idsApart`, `Plan.invariant_mem_ids`, `Plan.invariant_settled`: what a plan keeps
* `Plan.IdsApart.nodup_ids`: names apart, all ids are distinct
-/

namespace RenderGraph

/-- The pass is a later iteration of a stage. -/
def RenderPass.isRepeat (p : RenderPass) : Bool :=
  p.loopIndex.any (0 < ·)

namespace Plan

/-! ### Iterations -/

/-- The ids of later iterations tell their loop and number. -/
theorem Loop.iterationId_inj {l l' : Loop} {k k' : Nat} (hk : 0 < k) (hk' : 0 < k')
    (h : l.iterationId k = l'.iterationId k') : l.base = l'.base ∧ k = k' := by
  have hid {l : Loop} {k : Nat} (hk : 0 < k) :
      (l.iterationId k).toList.reverse =
        (Nat.toDigits 10 k).reverse ++ ("_loop".toList.reverse ++ l.base.toList.reverse) := by
    have hne : (k : Int) ≠ 0 := by omega
    have hdigits : (toString (k : Int)).toList = Nat.toDigits 10 k := Text.toList_toString k
    rw [iterationId, if_neg hne, String.toList_append, String.toList_append, hdigits,
      List.reverse_append, List.reverse_append]
  have hall (n : Nat) : ∀ c ∈ (Nat.toDigits 10 n).reverse, c.isDigit = true :=
    fun c hc => Nat.isDigit_of_mem_toDigits (by decide) (by decide) (List.mem_reverse.1 hc)
  have hopens (rest : List Char) : Opens ("_loop".toList.reverse ++ rest) := by
    intro c hc
    cases hc
    rfl
  have heq : (l.iterationId k).toList.reverse = (l'.iterationId k').toList.reverse := by rw [h]
  rw [hid hk, hid hk'] at heq
  obtain ⟨hnum, hrest⟩ := append_inj_of_digits (hall k) (hall k') (hopens _) (hopens _) heq
  have hbase : l.base.toList = l'.base.toList :=
    List.reverse_injective (List.append_cancel_left hrest)
  have hnum' : Nat.toDigits 10 k = Nat.toDigits 10 k' := List.reverse_injective hnum
  refine ⟨String.toList_inj.1 hbase, ?_⟩
  rw [← Nat.ofDigitChars_ten_toDigits (n := k), hnum', Nat.ofDigitChars_ten_toDigits]

@[simp]
theorem Loop.iterationId_zero (l : Loop) : l.iterationId (0 : Nat) = l.base :=
  if_pos rfl

/-- The iterations of a loop have ids of their own. -/
theorem Loop.injective_iterationId (l : Loop) : Function.Injective fun k : Nat => l.iterationId k := by
  have hne {k : Nat} (hk : 0 < k) : l.iterationId k ≠ l.base := by
    intro h
    have hpos : (k : Int) ≠ 0 := by omega
    rw [iterationId, if_neg hpos] at h
    have hlength := congrArg (·.toList.length) h
    simp at hlength
  intro k k' h
  dsimp only at h
  rcases Nat.eq_zero_or_pos k with rfl | hk <;> rcases Nat.eq_zero_or_pos k' with rfl | hk'
  · rfl
  · exact absurd h.symm (l.iterationId_zero ▸ hne hk')
  · exact absurd h (l.iterationId_zero ▸ hne hk)
  · exact (Loop.iterationId_inj hk hk' h).2

variable {l : Loop} {passes : List RenderPass}

theorem IsPassOf.isRepeat_eq {k : Nat} {p : RenderPass} (h : IsPassOf l k p)
    (hk : k < l.count.toNat) : p.isRepeat = decide (0 < k) := by
  rw [RenderPass.isRepeat, h.loopIndex_eq]
  cases hl : l.isLoop with
  | true => rfl
  | false =>
    have hcount : ¬ 1 < l.count := of_decide_eq_false hl
    have h0 : k = 0 := by omega
    subst h0
    rfl

/-- The passes of a loop: the first one, and those that repeat it. -/
theorem exists_of_iterations (hc : 1 ≤ l.count)
    (h : List.Forall₂ (IsPassOf l) (List.range l.count.toNat) passes) :
    ∃ first later, passes = first :: later ∧ first.id = l.base ∧ first.isRepeat = false ∧
      (∀ p ∈ later, p.isRepeat = true) ∧
      later.map (·.id) = (List.range (l.count.toNat - 1)).map fun k => l.iterationId (k + 1 : Nat) := by
  obtain ⟨n, hn⟩ : ∃ n, l.count.toNat = n + 1 := ⟨l.count.toNat - 1, by omega⟩
  rw [hn, List.range_succ_eq_map] at h
  cases h with
  | @cons _ first _ later hfirst hlater =>
    have hids := map_id_eq hlater
    rw [List.forall₂_map_left_iff] at hlater
    refine ⟨first, later, rfl, ?_, ?_, ?_, ?_⟩
    · rw [hfirst.id_eq, Loop.iterationId_zero]
    · rw [hfirst.isRepeat_eq (by omega)]
      rfl
    · intro p hp
      obtain ⟨k, hk, hpk⟩ := exists_of_forall₂ hlater hp
      have hlt : k + 1 < l.count.toNat := by
        have := List.mem_range.1 hk
        omega
      rw [hpk.isRepeat_eq hlt]
      simp
    · rw [hids, hn, Nat.add_sub_cancel, List.map_map]
      rfl

/-! ### First and later passes -/

/-- The ids of the passes that repeat no stage. -/
def State.firstIds (s : State) : List String :=
  (s.passes.filter (!·.isRepeat)).map (·.id)

/-- The ids of the passes that repeat a stage. -/
def State.laterIds (s : State) : List String :=
  (s.passes.filter (·.isRepeat)).map (·.id)

/-- The ids are told apart if the first and the later ones are, and none is both. -/
theorem nodup_ids_iff {s : State} (hf : s.firstIds.Nodup) (hl : s.laterIds.Nodup) :
    s.ids.Nodup ↔ ∀ p ∈ s.passes, ∀ p' ∈ s.passes, p.isRepeat = true → p'.isRepeat = false →
      p.id ≠ p'.id := by
  have hperm : (s.laterIds ++ s.firstIds).Perm s.ids := by
    unfold State.laterIds State.firstIds State.ids
    rw [← List.map_append]
    exact (List.filter_append_perm _ _).map _
  rw [← hperm.nodup_iff, List.nodup_append]
  constructor
  · rintro ⟨-, -, h⟩ p hp p' hp' hr hr'
    exact h p.id (List.mem_map_of_mem (List.mem_filter.2 ⟨hp, hr⟩)) p'.id
      (List.mem_map_of_mem (List.mem_filter.2 ⟨hp', by simp [hr']⟩))
  · intro h
    refine ⟨hl, hf, fun id hid id' hid' => ?_⟩
    obtain ⟨p, hp, rfl⟩ := List.mem_map.1 hid
    obtain ⟨p', hp', rfl⟩ := List.mem_map.1 hid'
    rw [List.mem_filter] at hp hp'
    exact h p hp.1 p' hp'.1 hp.2 (by simpa using hp'.2)

/-- An item adds its key to the first ids, and its repeated ids to the later ones. -/
theorem ids_add_iterations (s : State) (key last : String) (hc : 1 ≤ l.count)
    (h : List.Forall₂ (IsPassOf l) (List.range l.count.toNat) passes) :
    (s.add passes key last).firstIds = s.firstIds ++ [l.base] ∧
      (s.add passes key last).laterIds =
        s.laterIds ++ (List.range (l.count.toNat - 1)).map fun k => l.iterationId (k + 1 : Nat) := by
  obtain ⟨first, later, rfl, hid, hfirst, hlater, hids⟩ := exists_of_iterations hc h
  have hnone : later.filter (!·.isRepeat) = [] := by
    rw [List.filter_eq_nil_iff]
    intro p hp
    simp [hlater p hp]
  unfold State.firstIds State.laterIds State.add
  rw [List.filter_append, List.filter_append, List.map_append, List.map_append,
    List.filter_cons_of_pos (by simp [hfirst]), List.filter_cons_of_neg (by simp [hfirst]), hnone,
    List.filter_eq_self.2 hlater, hids, List.map_singleton, hid]
  exact ⟨rfl, rfl⟩

private theorem get?_foldl_of_some {m : Keyed String} {k q : String} (h : m.get? k = some q) :
    (passes.foldl (fun m p => m.insertNew p.id p.id) m).get? k = some q := by
  induction passes generalizing m with
  | nil => exact h
  | cons p passes ih =>
    refine ih ?_
    rw [Keyed.get?_insertNew]
    split
    · next hk =>
      subst hk
      rw [h]
      rfl
    · exact h

private theorem get?_foldl_of_notMem {m : Keyed String} {k : String} (h : k ∉ passes.map (·.id)) :
    (passes.foldl (fun m p => m.insertNew p.id p.id) m).get? k = m.get? k := by
  induction passes generalizing m with
  | nil => rfl
  | cons p passes ih =>
    rw [List.map_cons, List.mem_cons, not_or] at h
    rw [List.foldl_cons, ih h.2, Keyed.get?_insertNew, if_neg h.1]

theorem isSome_get?_add {s : State} {key last k : String}
    (h : k = key ∨ (s.generated.get? k).isSome = true) :
    ((s.add passes key last).generated.get? k).isSome = true := by
  rw [State.add, Keyed.get?_insert]
  split
  · rfl
  · next hne =>
    obtain ⟨q, hq⟩ := Option.isSome_iff_exists.1 (h.resolve_left hne)
    rw [get?_foldl_of_some hq]
    rfl

/-- What is found under other keys stays the same, unless they are ids of the new passes. -/
theorem get?_add_of_notMem {s : State} {key last k : String} (hne : k ≠ key)
    (h : k ∉ passes.map (·.id)) :
    (s.add passes key last).generated.get? k = s.generated.get? k := by
  rw [State.add, Keyed.get?_insert, if_neg hne, get?_foldl_of_notMem h]

theorem get?_add_self (s : State) (key last : String) :
    (s.add passes key last).generated.get? key = some last := by
  rw [State.add, Keyed.get?_insert, if_pos rfl]

variable {scene : Scene} {n : Nat} {r : Request} {q : String} {s t : State}

/-- What holds of the ids of passes at any time. -/
structure IdsApart (g : Graph) (s : State) : Prop where
  firsts : s.firstIds.Nodup
  laters : s.laterIds.Nodup
  /-- First ids are keys that are found and not being planned. -/
  first : ∀ id ∈ s.firstIds, (s.generated.get? id).isSome = true ∧ id ∉ s.active ∧
    ∃ i : Item, i.In g ∧ i.key = id
  /-- Later ids are made of first ids and numbers. -/
  later : ∀ id ∈ s.laterIds, ∃ (i : Item) (l : Loop) (k : Nat), i.In g ∧ i.loop = .ok l ∧
    l.base ∈ s.firstIds ∧ 0 < k ∧ k < l.count.toNat ∧ id = l.iterationId k

theorem IdsApart.add {g : Graph} {i : Item} {rest : List String} (h : IdsApart g t)
    (ha : t.active = rest ++ [i.key]) (hn : i.key ∉ rest) (hi : i.In g) (hl : i.loop = .ok l)
    (hp : List.Forall₂ (IsPassOf l) (List.range l.count.toNat) passes) :
    IdsApart g ({ t with active := rest }.add passes i.key l.lastId) := by
  obtain ⟨hbase, hcount⟩ := Item.loop_eq_ok hl
  obtain ⟨hfirst, hlater⟩ := ids_add_iterations { t with active := rest } i.key l.lastId hcount hp
  have hnew : l.base ∉ t.firstIds := by
    intro hmem
    refine (h.first _ hmem).2.1 ?_
    rw [ha, hbase]
    exact List.mem_append_right _ List.mem_cons_self
  refine ⟨?_, ?_, ?_, ?_⟩
  · have hnodup := h.firsts.concat hnew
    rw [List.concat_eq_append] at hnodup
    exact hfirst ▸ hnodup
  · rw [hlater]
    refine List.nodup_append.2 ⟨h.laters, List.nodup_range.map fun k k' hk => ?_, ?_⟩
    · exact Nat.succ.inj (Loop.iterationId_inj k.succ_pos k'.succ_pos hk).2
    · rintro id hid id' hid' rfl
      obtain ⟨j, l', k, -, -, hmem, hk, -, rfl⟩ := h.later id hid
      obtain ⟨k', -, hk'⟩ := List.mem_map.1 hid'
      rw [(Loop.iterationId_inj k'.succ_pos hk hk').1] at hnew
      exact hnew hmem
  · intro id hid
    rw [hfirst] at hid
    rcases List.mem_append.1 hid with hid | hid
    · obtain ⟨hsome, hinactive, hitem⟩ := h.first id hid
      refine ⟨isSome_get?_add (Or.inr hsome), fun hmem => hinactive ?_, hitem⟩
      rw [ha]
      exact List.mem_append_left _ hmem
    · obtain rfl := List.mem_singleton.1 hid
      exact ⟨isSome_get?_add (Or.inl hbase), hbase ▸ hn, i, hi, hbase.symm⟩
  · intro id hid
    rw [hlater] at hid
    rw [hfirst]
    rcases List.mem_append.1 hid with hid | hid
    · obtain ⟨j, l', k, hj, hl', hmem, hk⟩ := h.later id hid
      exact ⟨j, l', k, hj, hl', List.mem_append_left _ hmem, hk⟩
    · obtain ⟨k, hk, rfl⟩ := List.mem_map.1 hid
      have hlt := List.mem_range.1 hk
      exact ⟨i, l, k + 1, hi, hl, List.mem_append_right _ List.mem_cons_self, k.succ_pos, by omega, rfl⟩

theorem idsApart_initial (g : Graph) : IdsApart g {} :=
  ⟨.nil, .nil, by simp [State.firstIds], by simp [State.laterIds]⟩

/-- A plan keeps the ids apart. -/
theorem invariant_idsApart (scene : Scene) : Invariant scene (IdsApart scene.graph) where
  quiet {s t} hs hq := by
    have hfirst : t.firstIds = s.firstIds := by rw [State.firstIds, hq.passes_eq, State.firstIds]
    have hlater : t.laterIds = s.laterIds := by rw [State.laterIds, hq.passes_eq, State.laterIds]
    refine ⟨hfirst ▸ hs.firsts, hlater ▸ hs.laters, ?_, ?_⟩
    · rw [hfirst, hq.generated_eq, hq.active_eq]
      exact hs.first
    · rw [hfirst, hlater]
      exact hs.later
  enter {s key} hs hg _ := by
    refine ⟨hs.firsts, hs.laters, fun id hid => ?_, hs.later⟩
    obtain ⟨hsome, hinactive, hitem⟩ := hs.first id hid
    refine ⟨hsome, fun hmem => ?_, hitem⟩
    rcases List.mem_append.1 hmem with hmem | hmem
    · exact hinactive hmem
    · rw [List.mem_singleton.1 hmem, hg] at hsome
      cases hsome
  add ht ha hn hi hl hp := ht.add ha hn hi hl hp

/-- Names apart, the ids of all passes are distinct. -/
theorem IdsApart.nodup_ids {g : Graph} (h : IdsApart g s) (hr : RepeatsApart g) : s.ids.Nodup := by
  rw [nodup_ids_iff h.firsts h.laters]
  intro p hp p' hp' hrep hrep' heq
  have hlater : p.id ∈ s.laterIds := List.mem_map_of_mem (List.mem_filter.2 ⟨hp, hrep⟩)
  have hfirst : p'.id ∈ s.firstIds :=
    List.mem_map_of_mem (List.mem_filter.2 ⟨hp', by simp [hrep']⟩)
  obtain ⟨i, l, k, hi, hl, -, hpos, hlt, hid⟩ := h.later _ hlater
  obtain ⟨-, -, j, hj, hkey⟩ := h.first _ hfirst
  refine hr i.node hi.node_mem j.node hj.node_mem _ (hi.iterationId_mem hl hpos hlt) ?_
  rw [← hid, heq, ← hkey]
  exact hj.key_mem

/-- An item that asks for nothing, and that is neither planned nor being planned, adds its passes only. -/
theorem Obtains.of_not_wants {plan : Request → PlanM String} {i : Item} {previous : String}
    (h : Obtains scene plan i previous s q t) (hw : ∀ r, ¬ i.Wants scene.graph r)
    (hl : i.loop = .ok l) (hg : s.generated.get? i.key = none) (ha : i.key ∉ s.active) :
    t.ids = s.ids ++ (List.range l.count.toNat).map (fun k : Nat => l.iterationId k) ∧
      t.active = s.active ∧
      ∀ k, k ≠ i.key → k ∉ t.ids → t.generated.get? k = s.generated.get? k := by
  cases h with
  | found hg' => cases hg.symm.trans hg'
  | cycle _ ha' => exact absurd ha' ha
  | @built l' passes u _ _ hb =>
    obtain rfl : l = l' := Except.ok.inj (hl.symm.trans hb.loop_eq)
    obtain ⟨rs, hcourse, hrs⟩ := hb.course
    have hkept := hcourse.preserves (I := fun u => u.passes = s.passes ∧
        u.generated = s.generated ∧ u.active = s.active ++ [i.key]) ⟨rfl, rfl, rfl⟩
      (fun h hq => ⟨hq.passes_eq.trans h.1, hq.generated_eq.trans h.2.1, hq.active_eq.trans h.2.2⟩)
      (fun r hr => absurd ((hrs r).1 hr) (hw r))
    obtain ⟨hpasses, hgenerated, hactive⟩ := hkept
    have hids := map_id_eq hb.iterations
    rw [ids_add, hids, State.ids, hpasses]
    refine ⟨rfl, ?_, fun k hne hk => ?_⟩
    · exact erase_active ha hactive
    · rw [get?_add_of_notMem hne fun hmem => hk (List.mem_append_right _ (hids ▸ hmem)), hgenerated]

/-! ### What is found under keys -/

/-- A plan keeps its passes. -/
theorem invariant_mem_passes (scene : Scene) (p : RenderPass) : Invariant scene (p ∈ ·.passes) where
  quiet hs hq := hq.passes_eq ▸ hs
  enter hs _ _ := hs
  add ht _ _ _ _ _ := List.mem_append_left _ ht

/-- Whatever is found has a pass that has its key as id. -/
theorem invariant_mem_ids (scene : Scene) :
    Invariant scene fun s => ∀ key, (s.generated.get? key).isSome = true → key ∈ s.ids where
  quiet {s t} hs hq key := by
    rw [hq.generated_eq, State.ids, hq.passes_eq]
    exact hs key
  enter hs _ _ := hs
  add {t i l passes rest} ht _ _ _ hl hp key hkey := by
    obtain ⟨hbase, hcount⟩ := Item.loop_eq_ok hl
    obtain ⟨first, later, rfl, hid, -⟩ := exists_of_iterations hcount hp
    rw [ids_add, List.mem_append]
    by_cases hmem : key ∈ (first :: later).map (·.id)
    · exact Or.inr hmem
    · have hne : key ≠ i.key := by
        rintro rfl
        exact hmem (List.mem_cons.2 (Or.inl (hbase.symm.trans hid.symm)))
      rw [get?_add_of_notMem hne hmem] at hkey
      exact Or.inl (ht key hkey)

/-- What is found under the key of an item is its last pass. -/
def Settled (g : Graph) (s : State) : Prop :=
  ∀ i : Item, i.In g → ∀ q, s.generated.get? i.key = some q → ∃ l, i.loop = .ok l ∧ q = l.lastId

theorem settled_initial (g : Graph) : Settled g {} :=
  fun _ _ _ hq => by cases hq

/-- Names apart, the id of a pass of an item is the key of no other item. -/
theorem Item.key_notMem_ids {g : Graph} (hr : RepeatsApart g) {i j : Item} (hi : i.In g)
    (hj : j.In g) (hl : i.loop = .ok l)
    (hp : List.Forall₂ (IsPassOf l) (List.range l.count.toNat) passes) (hne : j.key ≠ i.key) :
    j.key ∉ passes.map (·.id) := by
  intro hmem
  obtain ⟨p, hpm, hid⟩ := List.mem_map.1 hmem
  obtain ⟨k, hk, hpk⟩ := exists_of_forall₂ hp hpm
  rw [hpk.id_eq] at hid
  rcases Nat.eq_zero_or_pos k with rfl | hpos
  · rw [Loop.iterationId_zero, (Item.loop_eq_ok hl).1] at hid
    exact hne hid.symm
  · refine hr i.node hi.node_mem j.node hj.node_mem _
      (hi.iterationId_mem hl hpos (List.mem_range.1 hk)) ?_
    rw [hid]
    exact hj.key_mem

/-- Names apart, a plan enters the last pass of every item under its key. -/
theorem invariant_settled (hnames : NamesApart scene.graph) :
    Invariant scene (Settled scene.graph) where
  quiet hs hq i hi q := by
    rw [hq.generated_eq]
    exact hs i hi q
  enter hs _ _ := hs
  add {t i l passes rest} ht _ _ hi hl hp := by
    intro j hj q hq
    by_cases hne : j.key = i.key
    · rw [hne, get?_add_self, Option.some.injEq] at hq
      exact ⟨l, (Item.eq_of_key_eq hnames.keys hnames.stages hj hi hne).2.trans hl, hq.symm⟩
    · rw [get?_add_of_notMem hne (Item.key_notMem_ids hnames.repeats hi hj hl hp hne)] at hq
      exact ht j hj q hq

end Plan

end RenderGraph
