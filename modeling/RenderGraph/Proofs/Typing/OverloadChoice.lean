import Mathlib.Algebra.GroupWithZero.Nat
import Mathlib.Data.List.Induction
import RenderGraph.Typing.Selection

/-!
# Which overload is chosen

An overload is compatible with the edges into a node if each of its parameters takes what the edges bring
to it. Of the compatible overloads the first with the most points is chosen, with three points for a
parameter that is met exactly and two for one that is met by another type. Without edges, and where no
overload is compatible, the first overload whose first input has the wanted rank is chosen, if there is
one. As no two edges go to one port, their order has no influence.

## Main definitions

* `Typing.Takes`, `Typing.Compatible`, `Typing.points`: what edges bring, judged parameter by parameter
* `Typing.Earliest`: the first overload with a property

## Main results

* `Typing.score?_eq`: an overload has a score if and only if it is compatible, and then it is its points
* `Typing.exists_split_of_bestScored?`: the best score, and the first overload that has it
* `Typing.select?_spec`: which overload is chosen
-/

namespace RenderGraph.Typing

open Source (Overload)

variable {incoming : List Edge} {nodes : Keyed Node} {o : Overload}

/-! ### What edges bring to parameters -/

/-- The types that edges from known nodes bring to a parameter. -/
def arrivals (incoming : List Edge) (nodes : Keyed Node) (param : Port) : List DataType :=
  (incoming.filter (·.targetPort == some param.id)).filterMap (edgeSourceType? nodes)

/-- A parameter takes its own type, and of the others those that are samplers if it is one and that have
no more components. -/
def Takes (param source : DataType) : Prop :=
  source = param ∨ source.isSampler = param.isSampler ∧ source.rank ≤ param.rank

instance (param source : DataType) : Decidable (Takes param source) :=
  inferInstanceAs (Decidable (_ ∨ _))

/-- Every parameter takes what edges from known nodes bring to it. -/
def Compatible (incoming : List Edge) (nodes : Keyed Node) (o : Overload) : Prop :=
  ∀ param ∈ o.inputs, ∀ e ∈ incoming, e.targetPort = some param.id →
    ∀ source, nodes.get? e.source = some source →
      Takes param.type (sourceType source e.sourcePort)

/-- Three points for each type that meets its parameter exactly, and two for each other one. -/
def points (incoming : List Edge) (nodes : Keyed Node) (o : Overload) : Nat :=
  (o.inputs.map fun param =>
    ((arrivals incoming nodes param).map fun t => if t = param.type then 3 else 2).sum).sum

theorem mem_arrivals_iff {param : Port} {t : DataType} : t ∈ arrivals incoming nodes param ↔
    ∃ e ∈ incoming, e.targetPort = some param.id ∧
      ∃ source, nodes.get? e.source = some source ∧ sourceType source e.sourcePort = t := by
  simp [arrivals, edgeSourceType?, and_assoc]

theorem compatible_iff : Compatible incoming nodes o ↔
    ∀ param ∈ o.inputs, ∀ t ∈ arrivals incoming nodes param, Takes param.type t := by
  refine forall₂_congr fun param _ => ?_
  simp only [mem_arrivals_iff]
  constructor
  · rintro h _ ⟨e, he, hp, source, hs, rfl⟩
    exact h e he hp source hs
  · intro h e he hp source hs
    exact h _ ⟨e, he, hp, source, hs, rfl⟩

instance : Decidable (Compatible incoming nodes o) :=
  decidable_of_iff _ compatible_iff.symm

section Reordering

variable {reordered : List Edge} (h : reordered.Perm incoming)
include h

theorem compatible_congr : Compatible reordered nodes o ↔ Compatible incoming nodes o := by
  simp only [Compatible, h.mem_iff]

theorem points_congr : points reordered nodes o = points incoming nodes o := by
  unfold points arrivals
  congr 1
  refine List.map_congr_left fun param _ => ?_
  exact (((h.filter _).filterMap _).map _).sum_nat

end Reordering

/-! ### Scores -/

theorem pairScore?_eq (source param : DataType) :
    pairScore? source param =
      if Takes param source then some (if source = param then 3 else 2) else none := by
  unfold pairScore? Takes
  by_cases heq : source = param
  · simp [heq]
  by_cases hs : source.isSampler = param.isSampler
  · by_cases hr : source.rank ≤ param.rank
    · simp [heq, hs, hr]
    · simp [heq, hs, hr, Nat.lt_of_not_le hr]
  · simp [heq, hs]

/-- Of edges into distinct ports, at most one goes to a parameter. -/
theorem filter_eq_edgeOfParameter (h : (incoming.map (·.targetPort)).Nodup) (param : Port) :
    incoming.filter (·.targetPort == some param.id) = (edgeOfParameter incoming param).toList := by
  induction incoming with
  | nil => rfl
  | cons e es ih =>
    rw [List.map_cons, List.nodup_cons] at h
    have ih := ih h.2
    unfold edgeOfParameter at ih ⊢
    rw [List.reverse_cons, List.find?_append, List.filter_cons]
    by_cases he : e.targetPort = some param.id
    · -- No later edge goes to this port.
      have hnone : es.filter (·.targetPort == some param.id) = [] := by
        refine List.filter_eq_nil_iff.2 fun d hd hport => h.1 ?_
        rw [he, ← eq_of_beq hport]
        exact List.mem_map_of_mem hd
      rw [hnone] at ih
      rw [hnone, Option.toList_eq_nil_iff.1 ih.symm]
      simp [he]
    · rw [if_neg (by simpa using he), ih]
      simp [he]

theorem arrivals_eq (h : (incoming.map (·.targetPort)).Nodup) (param : Port) :
    arrivals incoming nodes param =
      ((edgeOfParameter incoming param).bind (edgeSourceType? nodes)).toList := by
  rw [arrivals, filter_eq_edgeOfParameter h]
  cases edgeOfParameter incoming param with
  | none => rfl
  | some e => cases he : edgeSourceType? nodes e <;> simp [he]

/-- A parameter adds the points of what arrives at it, if it takes that. -/
theorem parameterScore?_eq (h : (incoming.map (·.targetPort)).Nodup) (param : Port) :
    parameterScore? incoming nodes param =
      if ∀ t ∈ arrivals incoming nodes param, Takes param.type t then
        some ((arrivals incoming nodes param).map fun t => if t = param.type then 3 else 2).sum
      else none := by
  have harrivals : arrivals incoming nodes param =
      ((edgeOfParameter incoming param).bind (edgeSourceType? nodes)).toList := arrivals_eq h param
  unfold parameterScore?
  cases hs : (edgeOfParameter incoming param).bind (edgeSourceType? nodes) with
  | none =>
    rw [hs] at harrivals
    simp [harrivals]
  | some source =>
    rw [hs] at harrivals
    simp [harrivals, pairScore?_eq]

/-- A sum of scores, one of which may be missing. -/
private theorem foldlM_add_eq {α : Type} {score? : α → Option Nat} {P : α → Prop} {score : α → Nat}
    [DecidablePred P] (h : ∀ a, score? a = if P a then some (score a) else none) (l : List α)
    (k : Nat) : l.foldlM (fun total a => (score? a).map (total + ·)) k =
      if ∀ a ∈ l, P a then some (k + (l.map score).sum) else none := by
  induction l generalizing k with
  | nil => simp
  | cons a l ih =>
    rw [List.foldlM_cons, h a]
    by_cases ha : P a
    · simp [ih, ha, Nat.add_assoc]
    · simp [ha]

/-- An overload has a score if and only if it is compatible, and then its score is its points. -/
theorem score?_eq (h : (incoming.map (·.targetPort)).Nodup) (o : Overload) :
    score? o incoming nodes =
      if Compatible incoming nodes o then some (points incoming nodes o) else none := by
  unfold score? points
  rw [foldlM_add_eq (parameterScore?_eq h), Nat.zero_add]
  simp only [compatible_iff]

theorem score?_eq_some_iff (h : (incoming.map (·.targetPort)).Nodup) {s : Nat} :
    score? o incoming nodes = some s ↔
      Compatible incoming nodes o ∧ points incoming nodes o = s := by
  rw [score?_eq h]
  by_cases hc : Compatible incoming nodes o <;> simp [hc]

theorem score?_eq_none_iff (h : (incoming.map (·.targetPort)).Nodup) :
    score? o incoming nodes = none ↔ ¬ Compatible incoming nodes o := by
  rw [score?_eq h]
  by_cases hc : Compatible incoming nodes o <;> simp [hc]

/-! ### The best score -/

/-- One more overload, behind all others, is the best only if it scores more than all of them. -/
theorem bestScored?_append (os : List Overload) (o : Overload) :
    bestScored? (os ++ [o]) incoming nodes =
      match score? o incoming nodes, bestScored? os incoming nodes with
      | none, best => best
      | some s, none => some (o, s)
      | some s, some (b, t) => if t < s then some (o, s) else some (b, t) := by
  unfold bestScored?
  rw [List.foldl_append]
  rfl

theorem score?_eq_none_of_bestScored? {os : List Overload}
    (h : bestScored? os incoming nodes = none) : ∀ o ∈ os, score? o incoming nodes = none := by
  induction os using List.reverseRecOn with
  | nil => simp
  | append_singleton os o ih =>
    rw [bestScored?_append] at h
    cases ho : score? o incoming nodes with
    | none =>
      rw [ho] at h
      simpa [or_imp, forall_and, ho] using ih h
    | some s =>
      rw [ho] at h
      cases hb : bestScored? os incoming nodes with
      | none =>
        rw [hb] at h
        cases h
      | some best =>
        rw [hb] at h
        dsimp only at h
        split at h <;> cases h

/-- The overload with the best score: those before it score less, and those behind it do not score
more. -/
theorem exists_split_of_bestScored? {os : List Overload} {s : Nat}
    (h : bestScored? os incoming nodes = some (o, s)) :
    score? o incoming nodes = some s ∧ ∃ before after, os = before ++ o :: after ∧
      (∀ b ∈ before, ∀ t, score? b incoming nodes = some t → t < s) ∧
      ∀ a ∈ after, ∀ t, score? a incoming nodes = some t → t ≤ s := by
  induction os using List.reverseRecOn generalizing o s with
  | nil => cases h
  | append_singleton os last ih =>
    rw [bestScored?_append] at h
    cases hl : score? last incoming nodes with
    | none =>
      rw [hl] at h
      obtain ⟨ho, before, after, rfl, hbefore, hafter⟩ := ih h
      refine ⟨ho, before, after ++ [last], by simp, hbefore, ?_⟩
      simpa [or_imp, forall_and, hl] using hafter
    | some r =>
      rw [hl] at h
      cases hb : bestScored? os incoming nodes with
      | none =>
        rw [hb] at h
        cases h
        refine ⟨hl, os, [], rfl, fun b hmem t ht => ?_, by simp⟩
        rw [score?_eq_none_of_bestScored? hb b hmem] at ht
        cases ht
      | some best =>
        obtain ⟨b, t⟩ := best
        rw [hb] at h
        obtain ⟨hscore, before, after, rfl, hbefore, hafter⟩ := ih hb
        dsimp only at h
        split at h
        · next hlt =>
          -- The last overload outdoes the best one so far, and with it all others.
          cases h
          refine ⟨hl, before ++ b :: after, [], rfl, fun c hc u hu => ?_, by simp⟩
          rcases List.mem_append.1 hc with hc | hc
          · exact Nat.lt_trans (hbefore c hc u hu) hlt
          rcases List.mem_cons.1 hc with rfl | hc
          · rw [hscore] at hu
            cases hu
            exact hlt
          · exact Nat.lt_of_le_of_lt (hafter c hc u hu) hlt
        · next hle =>
          cases h
          refine ⟨hscore, before, after ++ [last], by simp, hbefore, fun c hc u hu => ?_⟩
          rcases List.mem_append.1 hc with hc | hc
          · exact hafter c hc u hu
          · rw [List.mem_singleton.1 hc, hl] at hu
            cases hu
            exact Nat.le_of_not_lt hle

/-! ### The choice -/

/-- The overload is the first one with a property. -/
def Earliest (P : Overload → Prop) (os : List Overload) (o : Overload) : Prop :=
  P o ∧ ∃ before after, os = before ++ o :: after ∧ ∀ b ∈ before, ¬ P b

/-- A compatible overload with the most points among the compatible ones. -/
def Best (incoming : List Edge) (nodes : Keyed Node) (os : List Overload) (o : Overload) : Prop :=
  Compatible incoming nodes o ∧
    ∀ a ∈ os, Compatible incoming nodes a → points incoming nodes a ≤ points incoming nodes o

/-- The first input has a given rank. -/
def OpensWithRank (rank : Nat) (o : Overload) : Prop :=
  ∃ param, o.inputs.head? = some param ∧ param.type.rank = rank

variable {os : List Overload} {rank : Nat}

theorem opensWithRank_iff :
    OpensWithRank rank o ↔ (o.inputs.head?.any (·.type.rank == rank)) = true := by
  simp [OpensWithRank, Option.any_eq_true]

theorem earliest_of_bestScored? (h : (incoming.map (·.targetPort)).Nodup) {s : Nat}
    (hb : bestScored? os incoming nodes = some (o, s)) :
    Earliest (Best incoming nodes os) os o := by
  obtain ⟨hscore, before, after, rfl, hbefore, hafter⟩ := exists_split_of_bestScored? hb
  obtain ⟨hcompatible, rfl⟩ := (score?_eq_some_iff h).1 hscore
  have hless {b : Overload} (hm : b ∈ before) (hc : Compatible incoming nodes b) :
      points incoming nodes b < points incoming nodes o :=
    hbefore b hm _ ((score?_eq_some_iff h).2 ⟨hc, rfl⟩)
  refine ⟨⟨hcompatible, fun a ha hc => ?_⟩, before, after, rfl, fun b hm hbest => ?_⟩
  · rcases List.mem_append.1 ha with ha | ha
    · exact Nat.le_of_lt (hless ha hc)
    rcases List.mem_cons.1 ha with rfl | ha
    · exact Nat.le_refl _
    · exact hafter a ha _ ((score?_eq_some_iff h).2 ⟨hc, rfl⟩)
  · exact Nat.not_lt.2 (hbest.2 o (by simp) hcompatible) (hless hm hbest.1)

theorem earliest_of_ofRank? (h : ofRank? os rank = some o) : Earliest (OpensWithRank rank) os o := by
  obtain ⟨hrank, before, after, rfl, hbefore⟩ := List.find?_eq_some_iff_append.1 h
  refine ⟨opensWithRank_iff.2 hrank, before, after, rfl, fun b hb hopens => ?_⟩
  simpa [opensWithRank_iff.1 hopens] using hbefore b hb

theorem not_opensWithRank_of_ofRank? (h : ofRank? os rank = none) :
    ∀ o ∈ os, ¬ OpensWithRank rank o :=
  fun o ho hopens => List.find?_eq_none.1 h o ho (opensWithRank_iff.1 hopens)

/-- If there are edges and some overload is compatible with them, the first compatible overload with the most
points is chosen. Otherwise it is the first whose first input has the wanted rank, or none if there is none
such. The order of the edges has no influence. -/
theorem select?_spec (h : (incoming.map (·.targetPort)).Nodup) (os : List Overload) (rank : Nat) :
    (incoming ≠ [] → (∃ o ∈ os, Compatible incoming nodes o) →
        ∃ o, select? os incoming nodes rank = some o ∧ Earliest (Best incoming nodes os) os o) ∧
      ((incoming = [] ∨ ∀ o ∈ os, ¬ Compatible incoming nodes o) →
        match select? os incoming nodes rank with
        | some o => Earliest (OpensWithRank rank) os o
        | none => ∀ o ∈ os, ¬ OpensWithRank rank o) ∧
      ∀ reordered : List Edge, reordered.Perm incoming →
        select? os reordered nodes rank = select? os incoming nodes rank := by
  refine ⟨fun hne hsome => ?_, fun hnone => ?_, fun reordered hperm => ?_⟩
  · have hnonempty : incoming.isEmpty = false := by simpa using hne
    cases hb : bestScored? os incoming nodes with
    | none =>
      obtain ⟨o, ho, hc⟩ := hsome
      exact absurd hc ((score?_eq_none_iff h).1 (score?_eq_none_of_bestScored? hb o ho))
    | some best =>
      refine ⟨best.1, ?_, earliest_of_bestScored? h hb⟩
      simp [select?, hnonempty, hb]
  · have hscored : (if incoming.isEmpty then none else bestScored? os incoming nodes) = none := by
      split
      · rfl
      · next hne =>
        have hincompatible := hnone.resolve_left (by simpa using hne)
        cases hb : bestScored? os incoming nodes with
        | none => rfl
        | some best =>
          obtain ⟨⟨hc, -⟩, before, after, hos, -⟩ := earliest_of_bestScored? h hb
          exact absurd hc (hincompatible best.1 (by rw [hos]; simp))
    have hselect : select? os incoming nodes rank = ofRank? os rank := by
      unfold select?
      rw [hscored]
    rw [hselect]
    cases hr : ofRank? os rank with
    | some o => exact earliest_of_ofRank? hr
    | none => exact not_opensWithRank_of_ofRank? hr
  · classical
    have hscore (o : Overload) : score? o reordered nodes = score? o incoming nodes := by
      rw [score?_eq ((hperm.map _).nodup_iff.2 h), score?_eq h, points_congr hperm]
      simp only [compatible_congr hperm]
    unfold select? bestScored?
    simp only [hscore, hperm.isEmpty_eq]

/-- A colour and a number, which feed two inputs. -/
def mixed : Keyed Node :=
  .ofList [("s", { id := "s", outputs := [.ofId "c" .vec3] }),
    ("t", { id := "t", outputs := [.ofId "v" .int] })]

def mixedEdges : List Edge :=
  [{ source := "s", sourcePort := some "c", target := "m", targetPort := some "a" },
    { source := "t", sourcePort := some "v", target := "m", targetPort := some "b" }]

/-- An overload with two inputs. -/
def mixing (a b : DataType) (index : Nat) : Overload :=
  { inputs := [.ofId "a" a, .ofId "b" b], outputs := [], index }

/-- The first overload is too narrow, the second one takes the colour as another type, and the last one has
as many points as the third. -/
def mixings : List Overload :=
  [mixing .vec2 .float 0, mixing .vec4 .float 1, mixing .vec3 .float 2, mixing .vec3 .float 3]

theorem select?_spec_mixed :
    (mixedEdges.map (·.targetPort)).Nodup ∧ mixedEdges ≠ [] ∧
      (∃ o ∈ mixings, Compatible mixedEdges mixed o) ∧
      Earliest (Best mixedEdges mixed mixings) mixings (mixing .vec3 .float 2) ∧
      select? mixings mixedEdges mixed 4 = some (mixing .vec3 .float 2) ∧
      select? mixings mixedEdges.reverse mixed 4 = some (mixing .vec3 .float 2) := by
  have hports : (mixedEdges.map (·.targetPort)).Nodup := by decide
  have hcompatible : ∃ o ∈ mixings, Compatible mixedEdges mixed o := by decide
  have hselect : select? mixings mixedEdges mixed 4 = some (mixing .vec3 .float 2) := by decide
  obtain ⟨hbest, -, hperm⟩ := @select?_spec mixedEdges mixed hports mixings 4
  obtain ⟨o, ho, hearliest⟩ := hbest (by simp [mixedEdges]) hcompatible
  cases hselect.symm.trans ho
  exact ⟨hports, by simp [mixedEdges], hcompatible, hearliest, hselect,
    (hperm _ mixedEdges.reverse_perm).trans hselect⟩

end RenderGraph.Typing
