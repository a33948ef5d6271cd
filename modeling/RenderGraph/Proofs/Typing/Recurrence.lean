import Mathlib
import RenderGraph.Proofs.Typing.Conversion
import RenderGraph.Proofs.Typing.Feedback

/-!
# Rounds of inference settle or recur

Nothing in inference makes its rounds end. A node that takes types from itself, if only through others,
may take new ones in each round. But inference makes nothing up, so that a graph reaches only finitely
many others. Rounds that do not end thus come back to a graph that they had before, and from there on
they repeat themselves.

## Main definitions

* `Typing.Settles`: nothing changes any more after some rounds
* `Typing.Recurs`: some rounds lead back to the same graph
* `Typing.swing`: a graph that recurs

## Main results

* `Typing.finite_drawn`: finitely many nodes can come from a given one
* `Typing.finite_reached`: a graph reaches finitely many others
* `Typing.settles_iff_not_recurs`: rounds settle or recur
* `Typing.settles_or_recurs`: the same, and that they settle without feedback
* `Typing.swing_unsettled`: the rounds of a graph without cycles that do not settle
-/

namespace RenderGraph

/-! ### Finite sets -/

instance : Finite DataType :=
  Set.finite_univ_iff.1 ((List.finite_toSet DataType.all).subset fun t _ => DataType.mem_all t)

/-- Lists of bounded length with members of a finite set. -/
theorem finite_lists {α : Type} {S : Set α} (hS : S.Finite) (k : Nat) :
    {l : List α | l.length ≤ k ∧ ∀ a ∈ l, a ∈ S}.Finite := by
  have := hS.to_subtype
  refine ((List.finite_length_le S k).image (List.map Subtype.val)).subset ?_
  rintro l ⟨hlen, hmem⟩
  refine ⟨l.attach.map fun a => ⟨a.1, hmem a.1 a.2⟩, ?_, ?_⟩
  · simpa using hlen
  · simp

/-- Maps with entries of a finite set. -/
theorem Keyed.finite {α : Type} {S : Set (String × α)} (hS : S.Finite) :
    {m : Keyed α | ∀ e ∈ m.entries, e ∈ S}.Finite := by
  classical
  refine Set.Finite.of_finite_image (f := Keyed.entries)
    ((finite_lists hS hS.toFinset.card).subset ?_) ?_
  · rintro _ ⟨m, hm, rfl⟩
    have hnodup : m.entries.Nodup := List.Nodup.of_map _ m.nodup
    refine ⟨?_, hm⟩
    rw [← List.toFinset_card_of_nodup hnodup]
    exact Finset.card_le_card fun e he => hS.mem_toFinset.2 (hm e (List.mem_toFinset.1 he))
  · rintro ⟨es, hes⟩ - ⟨es', hes'⟩ - h
    cases h
    rfl

namespace BoundValue

variable {o : Option BoundValue}

theorem finite_converted (o : Option BoundValue) : {v | Converted o v}.Finite := by
  have hdefaults : (Set.range fun t : DataType => t.defaultValue defaultLength).Finite :=
    Set.finite_range _
  have htruths : (Set.range Value.bool).Finite := Set.finite_range _
  have hscalars : (Value.number '' {n | n ∈ stock o}).Finite := (List.finite_toSet _).image _
  have hvectors : ((fun ns : List Number => Value.list (ns.map .number)) ''
      {ns | ns.length ≤ 4 ∧ ∀ n ∈ ns, n ∈ {n | n ∈ stock o}}).Finite :=
    (finite_lists (List.finite_toSet _) 4).image _
  refine (((hdefaults.union htruths).union hscalars).union hvectors).subset ?_
  rintro v hv
  cases hv with
  | default t => exact Or.inl (Or.inl (Or.inl ⟨t, rfl⟩))
  | truth b => exact Or.inl (Or.inl (Or.inr ⟨b, rfl⟩))
  | scalar hn => exact Or.inl (Or.inr ⟨_, leads_subset_stock hn, rfl⟩)
  | vector _ hall hlen => exact Or.inr ⟨_, ⟨hlen, hall⟩, rfl⟩

/-- Finitely many bound values can be made of one. -/
theorem finite_derived (o : Option BoundValue) : {b | Derived o b}.Finite := by
  have hfinite : {a | a ∈ o}.Finite := by
    cases o with
    | none => exact Set.finite_empty.subset fun _ => nofun
    | some a => exact (Set.finite_singleton a).subset fun b hb => (Option.some.inj hb).symm
  have hvalues : ((fun a : BoundValue => a.value) '' {a | a ∈ o} ∪ {v | Converted o v}).Finite :=
    (hfinite.image _).union (finite_converted o)
  have hwidgets : ({Value.null} ∪ (fun a : BoundValue => a.widget) '' {a | a ∈ o}).Finite :=
    (Set.finite_singleton _).union (hfinite.image _)
  have hsettings : ({Keyed.empty} ∪ (fun a : BoundValue => a.settings) '' {a | a ∈ o}).Finite :=
    (Set.finite_singleton _).union (hfinite.image _)
  refine ((Set.finite_univ.prod (hvalues.prod (hwidgets.prod hsettings))).image
    fun (r : DataType × Value × Value × Keyed Value) => BoundValue.mk r.1 r.2.1 r.2.2.1 r.2.2.2).subset ?_
  rintro b hb
  refine ⟨(b.type, b.value, b.widget, b.settings), ⟨trivial, ?_, ?_, ?_⟩, rfl⟩
  · exact hb.value.imp (fun ⟨a, ha, h⟩ => ⟨a, ha, h.symm⟩) id
  · exact hb.widget.imp id fun ⟨a, ha, h⟩ => ⟨a, ha, h.symm⟩
  · exact hb.settings.imp id fun ⟨a, ha, h⟩ => ⟨a, ha, h.symm⟩

end BoundValue

namespace Typing

variable {g h : Graph} {n : Node} {k : Nat}

theorem ports_ext {ps qs : List Port} (hl : labels ps = labels qs)
    (ht : ps.map (·.type) = qs.map (·.type)) : ps = qs := by
  induction ps generalizing qs with
  | nil =>
    cases qs with
    | nil => rfl
    | cons q qs => cases hl
  | cons p ps ih =>
    cases qs with
    | nil => cases hl
    | cons q qs =>
      rw [labels, labels, List.map_cons, List.map_cons, List.cons.injEq, Prod.mk.injEq] at hl
      rw [List.map_cons, List.map_cons, List.cons.injEq] at ht
      obtain ⟨⟨hid, hname⟩, hl⟩ := hl
      have hpq : p = q := by
        cases p
        cases q
        cases hid
        cases hname
        cases ht.1
        rfl
      rw [hpq, ih hl ht.2]

/-- Finitely many lists of ports differ in types only. -/
theorem finite_ports (n : Node) : {ps | labels ps ∈ layouts n}.Finite := by
  refine (List.finite_toSet (layouts n)).preimage' fun l _ => ?_
  refine Set.Finite.of_finite_image (f := fun ps : List Port => ps.map (·.type))
    ((List.finite_length_eq DataType l.length).subset ?_) ?_
  · rintro _ ⟨ps, rfl, rfl⟩
    simp [labels]
  · rintro ps hps qs hqs ht
    exact ports_ext (hps.trans hqs.symm) ht

/-- Finitely many nodes can come from one. -/
theorem finite_drawn (n : Node) : {m | Drawn n m}.Finite := by
  have hvalues : {u : Keyed BoundValue | ValuesFrom n u}.Finite := by
    have hentries : (⋃ key ∈ {key | key ∈ boundKeys n},
        (fun b => (key, b)) '' {b | BoundValue.Derived (n.uniforms.get? key) b}).Finite :=
      (List.finite_toSet _).biUnion fun key _ => (BoundValue.finite_derived _).image _
    refine (Keyed.finite hentries).subset fun u hu => ?_
    rintro ⟨key, b⟩ he
    obtain ⟨hkey, hb⟩ := hu key b (Keyed.mem_entries_iff.1 he)
    exact Set.mem_biUnion hkey ⟨b, hb, rfl⟩
  refine (((finite_ports n).prod ((finite_ports n).prod (Set.finite_univ.prod hvalues))).image
    fun (r : List Port × List Port × DataType × Keyed BoundValue) =>
      { n with inputs := r.1, outputs := r.2.1, outputType := r.2.2.1, uniforms := r.2.2.2 }).subset ?_
  rintro m hm
  obtain ⟨hadjusted, hin, hout, hv⟩ := hm
  cases hadjusted with
  | intro inputs outputs outputType uniforms =>
    exact ⟨(inputs, outputs, outputType, uniforms), ⟨hin, hout, trivial, hv⟩, rfl⟩

/-- A graph reaches finitely many others. -/
theorem finite_reached (g : Graph) : {h | ∃ k, Reaches g k h}.Finite := by
  have hentries : (⋃ e ∈ {e | e ∈ g.nodes.entries},
      (fun m => (e.1, m)) '' {m | Drawn e.2 m}).Finite :=
    (List.finite_toSet _).biUnion fun e _ => (finite_drawn e.2).image _
  refine Set.Finite.of_finite_image (f := Graph.nodes) ((Keyed.finite hentries).subset ?_) ?_
  · rintro _ ⟨h, ⟨k, hr⟩, rfl⟩ ⟨id, m⟩ he
    obtain ⟨n, hn, hnm⟩ := hr.drawnFrom id m (Keyed.mem_entries_iff.1 he)
    exact Set.mem_biUnion (Keyed.mem_entries_iff.2 hn) ⟨m, hnm, rfl⟩
  · rintro h ⟨k, hr⟩ h' ⟨k', hr'⟩ hnodes
    have hedges : h.edges = h'.edges := hr.kept.2.trans hr'.kept.2.symm
    cases h
    cases h'
    cases hnodes
    cases hedges
    rfl

/-! ### Rounds that settle and rounds that recur -/

/-- Nothing changes any more after some rounds. -/
def Settles (g : Graph) : Prop :=
  ∃ k h, Reaches g k h ∧ (run h).1 = .ok none

/-- Some rounds lead back to the same graph. -/
def Recurs (g : Graph) : Prop :=
  ∃ k p h, 0 < p ∧ Reaches g k h ∧ Reaches g (k + p) h

namespace Reaches

variable {h' : Graph} {j : Nat}

/-- Rounds are determined. -/
theorem eq (hr : Reaches g k h) (hr' : Reaches g k h') : h = h' := by
  induction hr generalizing h' with
  | start =>
    cases hr'
    rfl
  | round _ hrun ih =>
    cases hr' with
    | round hr' hrun' =>
      cases ih hr'
      cases hrun.symm.trans hrun'
      rfl

/-- Rounds pass through all rounds before. -/
theorem exists_of_le (hr : Reaches g k h) (hj : j ≤ k) : ∃ h', Reaches g j h' := by
  induction hr with
  | start => exact ⟨g, Nat.le_zero.1 hj ▸ .start⟩
  | @round k h h' hr hrun ih =>
    rcases Nat.lt_or_ge k j with hlt | hle
    · exact ⟨h', Nat.le_antisymm hj hlt ▸ hr.round hrun⟩
    · exact ih hle

/-- The next round. -/
theorem exists_run (hr : Reaches g (k + 1) h) : ∃ h', Reaches g k h' ∧ (run h').1 = .ok (some h) := by
  cases hr with
  | round hr hrun => exact ⟨_, hr, hrun⟩

end Reaches

/-- Rounds that recur go on for ever. -/
theorem Recurs.exists_reaches (hrec : Recurs g) (k : Nat) : ∃ h, Reaches g k h := by
  obtain ⟨j, p, h, hp, hj, hjp⟩ := hrec
  -- From the first return on, each graph comes again a period later.
  have hreturn (i : Nat) : ∃ h, Reaches g (j + i) h ∧ Reaches g (j + i + p) h := by
    induction i with
    | zero => exact ⟨h, hj, hjp⟩
    | succ i ih =>
      obtain ⟨h₁, hr, hrp⟩ := ih
      obtain ⟨h₂, hnext⟩ := hrp.exists_of_le (show j + i + 1 ≤ j + i + p by omega)
      obtain ⟨h₁', hr', hrun⟩ := hnext.exists_run
      cases hr.eq hr'
      exact ⟨h₂, hnext, (Nat.add_right_comm (j + i) 1 p) ▸ hrp.round hrun⟩
  obtain ⟨h, hr, -⟩ := hreturn k
  exact hr.exists_of_le (Nat.le_add_left k j)

/-- Rounds that never fail settle, or they come back to a graph that they had before. -/
theorem settles_iff_not_recurs (hq : ∀ k h, Reaches g k h → ∃ r, (run h).1 = .ok r) :
    Settles g ↔ ¬ Recurs g := by
  constructor
  · rintro ⟨k, h, hr, hnone⟩ hrec
    obtain ⟨_, hnext⟩ := hrec.exists_reaches (k + 1)
    obtain ⟨h', hr', hrun⟩ := hnext.exists_run
    cases hr.eq hr'
    cases hnone.symm.trans hrun
  · intro hrec
    by_contra hsettles
    have hforever (k : Nat) : ∃ h, Reaches g k h := by
      induction k with
      | zero => exact ⟨g, .start⟩
      | succ k ih =>
        obtain ⟨h, hr⟩ := ih
        obtain ⟨_ | h', hrun⟩ := hq k h hr
        · exact absurd ⟨k, h, hr, hrun⟩ hsettles
        · exact ⟨h', hr.round hrun⟩
    choose graph hgraph using hforever
    -- Infinitely many rounds cannot give different graphs.
    have hmem (k : Nat) : graph k ∈ {h | ∃ k, Reaches g k h} := ⟨k, hgraph k⟩
    obtain ⟨i, j, hlt, heq⟩ := (finite_reached g).exists_lt_map_eq_of_forall_mem hmem
    refine hrec ⟨i, j - i, graph i, Nat.sub_pos_of_lt hlt, hgraph i, ?_⟩
    rw [Nat.add_sub_cancel' hlt.le, heq]
    exact hgraph j

/-- Rounds that never fail pass through finitely many graphs. They settle or recur, and not both.
Without feedback they settle after at most as many rounds as there are nodes. -/
theorem settles_or_recurs (hq : ∀ k h, Reaches g k h → ∃ r, (run h).1 = .ok r) :
    {h | ∃ k, Reaches g k h}.Finite ∧ (Settles g ↔ ¬ Recurs g) ∧
      (FeedbackFree g → (∀ n ∈ g.nodeList, Typed n → Distinct n) →
        ∃ k ≤ g.size, ∃ h, Reaches g k h ∧ (run h).1 = .ok none) := by
  refine ⟨finite_reached g, settles_iff_not_recurs hq, fun hf hd => ?_⟩
  exact exists_reaches_of_feedbackFree hf (fun _ n hn => hd n (Graph.mem_nodeList_of_node? hn)) hq

/-! ### A graph that settles -/

/-- No bound value of a node is a tensor without axes or starts with a number without integer part, and
its overloads can be read. -/
def Convertible (n : Node) : Prop :=
  (Source.overloads n.source).isOk = true ∧ ∀ a ∈ n.uniforms.values,
    (BoundValue.plainValue a.value).isOk = true ∧ ∀ x ∈ a.numbers.head?, x.trunc.isOk = true

instance (n : Node) : Decidable (Convertible n) :=
  inferInstanceAs (Decidable (_ ∧ ∀ a ∈ n.uniforms.values, _))

theorem not_unconvertible {a : BoundValue} {t : DataType} {f : Fault}
    (hv : (BoundValue.plainValue a.value).isOk = true)
    (hn : ∀ x ∈ a.numbers.head?, x.trunc.isOk = true) : ¬ a.Unconvertible t f := by
  rintro (⟨hx, hrank⟩ | ⟨-, hx, hf⟩)
  · rw [BoundValue.plainValue_eq_error_iff.2 ⟨rfl, _, hx, hrank⟩] at hv
    cases hv
  · have hok := hn _ hx
    rw [Number.trunc_eq_error_iff.2 ⟨_, rfl, hf⟩] at hok
    cases hok

/-- A graph of such nodes has no faulty data. -/
theorem not_faulty (hg : ∀ n ∈ g.nodeList, Convertible n) (phase : Phase) (f : Fault) :
    ¬ Faulty g phase f := by
  intro hf
  cases hf with
  | shapeless hn _ _ _ ha hx hr =>
    obtain ⟨hv, hnum⟩ := (hg _ hn).2 _ (Keyed.mem_values_of_get? ha)
    exact not_unconvertible hv hnum (.shapeless (t := .float) hx hr)
  | unreadable hn _ ho =>
    have hok := (hg _ hn).1
    rw [ho] at hok
    cases hok
  | unconvertible hn _ ha hf =>
    obtain ⟨hv, hnum⟩ := (hg _ hn).2 _ (Keyed.mem_values_of_get? ha)
    exact not_unconvertible hv hnum hf

/-- A graph has no feedback if a rank falls from each node to those that it takes types from. -/
theorem feedbackFree_of_rank (rank : String → Nat)
    (hrank : ∀ n ∈ g.nodeList, ∀ m ∈ g.nodeList, TakesFrom g n m → rank m.id < rank n.id) :
    FeedbackFree g := by
  have hlt {x y : String} (hxy : Relation.TransGen (Depends g) x y) : rank y < rank x := by
    induction hxy with
    | single hxy =>
      obtain ⟨n, hn, m, hm, rfl, rfl, ht⟩ := hxy
      exact hrank n hn m hm ht
    | tail _ hyz ih =>
      obtain ⟨n, hn, m, hm, rfl, rfl, ht⟩ := hyz
      exact (hrank n hn m hm ht).trans ih
  exact fun id hid => Nat.lt_irrefl _ (hlt hid)

theorem convertible_nest : ∀ n ∈ nest.nodeList, Convertible n := by
  have hsource : ∀ n ∈ nest.nodeList, n.source = "" ∨ n.source = polymorphic := by decide
  have hvalues : ∀ n ∈ nest.nodeList, ∀ a ∈ n.uniforms.values,
      (BoundValue.plainValue a.value).isOk = true ∧ ∀ x ∈ a.numbers.head?, x.trunc.isOk = true := by
    decide +kernel
  refine fun n hn => ⟨?_, hvalues n hn⟩
  rcases hsource n hn with h | h <;> rw [h]
  · decide +kernel
  · rw [overloads_polymorphic]
    rfl

/-- The types of the node inside reach the proxies, from there the compound, and from there what it
feeds. -/
theorem settles_or_recurs_nest :
    (∀ k h, Reaches nest k h → ∃ r, (run h).1 = .ok r) ∧ FeedbackFree nest ∧
      (∃ g', Reaches nest 1 g') ∧ ¬ Recurs nest ∧
      ∃ k ≤ 5, ∃ h, Reaches nest k h ∧ (run h).1 = .ok none := by
  have hquiet (k : Nat) (h : Graph) (hr : Reaches nest k h) : ∃ r, (run h).1 = .ok r :=
    exists_run_of_sound (not_faulty convertible_nest) hr
  have hfree : FeedbackFree nest :=
    feedbackFree_of_rank (["i", "p", "q", "c", "l"].idxOf ·) (by decide +kernel)
  obtain ⟨g', hrun, -⟩ := exists_run_nest
  obtain ⟨-, hiff, hsettles⟩ := settles_or_recurs hquiet
  have hend := hsettles hfree distinct_nest
  refine ⟨hquiet, hfree, ⟨g', Reaches.start.round hrun⟩, ?_, hend⟩
  obtain ⟨k, -, h, hr, hnone⟩ := hend
  exact hiff.1 ⟨k, h, hr, hnone⟩

/-! ### A graph that recurs -/

/-- A body that gives colours for numbers and numbers for colours. -/
def contrary : String :=
  "void run(vec2 uv, float x, out vec3 y) \x7b\x7d\nvoid run(vec2 uv, vec3 x, out float y) \x7b\x7d"

/-- A node with that body, which nothing feeds and which feeds an output proxy: the node takes the rank
of the proxy, and the proxy the type of the node. -/
def swing (up : Bool) : Graph :=
  let (given, taken) : DataType × DataType := if up then (.vec3, .float) else (.float, .vec3)
  .ofLists
    [{ id := "a", source := contrary, inputs := [.ofId "x" taken], outputs := [.ofId "y" given],
       outputType := given, autoType := true,
       uniforms := .ofList [("x", { type := taken, value := taken.defaultValue 1 })] },
      { id := "b", kind := .graphOutput, inputs := [.ofId "r" given] }]
    [{ source := "a", sourcePort := some "y", target := "b", targetPort := some "r" }]

/-- The overloads of that body. -/
def contraryOverloads : List Source.Overload :=
  [{ inputs := [.ofId "x" .float], outputs := [.ofId "y" .vec3] },
    { inputs := [.ofId "x" .vec3], outputs := [.ofId "y" .float], index := 1 }]

theorem overloads_contrary : Source.overloads contrary = .ok contraryOverloads := by
  rw [Source.overloads, Source.tokenize_stripComments, contrary, String.toList_ofList]
  decide +kernel

/-- The node of the graph. -/
def pendulum (up : Bool) : Node :=
  let (given, taken) : DataType × DataType := if up then (.vec3, .float) else (.float, .vec3)
  { id := "a", source := contrary, inputs := [.ofId "x" taken], outputs := [.ofId "y" given],
    outputType := given, autoType := true,
    uniforms := .ofList [("x", { type := taken, value := taken.defaultValue 1 })] }

/-- The node takes the overload whose output has the type of the proxy. -/
theorem outcome_pendulum (up : Bool) :
    outcome (swing up) (swing up).nodes (pendulum up) = .ok (some (pendulum !up)) := by
  have hsource : (pendulum up).source = contrary := by cases up <;> rfl
  rw [outcome, hsource, overloads_contrary]
  cases up <;> rfl

theorem exists_run_autoSweep_swing (up : Bool) :
    ∃ w, (autoSweep (swing up)).run { nodes := (swing up).nodes } =
      (.ok true, { nodes := (swing up).nodes.insert (pendulum !up).id (pendulum !up), warnings := w }) := by
  have hkeys : (swing up).nodes.keys = ["a", "b"] := by cases up <;> rfl
  have hnode : (swing up).nodes.get? "a" = some (pendulum up) := by cases up <;> rfl
  have htyped : Typed (pendulum up) := by cases up <;> decide
  have hproxy : ¬ Typed
      { id := "b", kind := .graphOutput, inputs := [.ofId "r" (if up then .vec3 else .float)] } :=
    nofun
  obtain ⟨w, hstep⟩ := run_autoStep_of_outcome (s := { nodes := (swing up).nodes }) htyped
    (outcome_pendulum up)
  refine ⟨w, ?_⟩
  rw [autoSweep, run_sweep, hkeys, run_rounds_cons hnode hstep,
    run_rounds_cons ?_ (run_autoStep_of_not_typed hproxy (swing up) _)]
  · rfl
  · cases up <;> rfl

theorem run_swing (up : Bool) : (run (swing up)).1 = .ok (some (swing !up)) := by
  have hinput : (inputSweep (swing up)).run { nodes := (swing up).nodes } =
      (.ok false, { nodes := (swing up).nodes }) := by
    cases up <;> rfl
  obtain ⟨w, hauto⟩ := exists_run_autoSweep_swing up
  -- The proxy takes the type of the node.
  have houtput : (outputSweep (swing up)).run
      { nodes := (swing up).nodes.insert (pendulum !up).id (pendulum !up), warnings := w } =
        (.ok true, { nodes := (swing !up).nodes, warnings := w }) := by
    cases up <;> rfl
  rw [run_of_sweeps hinput hauto houtput]
  cases up <;> rfl

/-- Rounds never fail and never settle there: they go back and forth between two graphs. -/
theorem swing_unsettled :
    (∀ k h, Reaches (swing true) k h → ∃ r, (run h).1 = .ok r) ∧ ¬ Settles (swing true) := by
  have hswing {k : Nat} {h : Graph} (hr : Reaches (swing true) k h) : ∃ up, h = swing up := by
    induction hr with
    | start => exact ⟨true, rfl⟩
    | round _ hrun ih =>
      obtain ⟨up, rfl⟩ := ih
      cases (run_swing up).symm.trans hrun
      exact ⟨!up, rfl⟩
  constructor
  · intro k h hr
    obtain ⟨up, rfl⟩ := hswing hr
    exact ⟨_, run_swing up⟩
  · rintro ⟨k, h, hr, hnone⟩
    obtain ⟨up, rfl⟩ := hswing hr
    cases (run_swing up).symm.trans hnone

end Typing

end RenderGraph
