import RenderGraph.Proofs.Source.Signature

/-!
# Labels of overloads

The openings of the entry functions cut the tokens of a body into stretches, one before each overload. The
last directive of its stretch gives an overload its label and its order, or hides those of earlier
directives if it is no metadata. An overload whose stretch holds no directive has the label and the order
of the overload before it. So overloads have the labels of their own directives if and only if none of them
has a label while the next one has no directive.

## Main definitions

* `Source.stretches`: the tokens before each entry function, behind the opening of the one before it
* `Source.lastDirective?`: the directive that counts among some tokens
* `Source.NoHeirs`: no overload has a label that the next one inherits
* `Source.Overload.LabelledBy`, `Source.Overload.Inherits`: where label and order of an overload come from

## Main results

* `Source.labelled_of_overloadsFrom`: overloads have the labels of the directives that count
* `Source.labels_own_or_inherited`: when these are their own, and what the default overload is
* `Source.unlabelled_inherits`: an overload without a directive that has a label
-/

namespace RenderGraph.Source

/-! ### Stretches -/

theorem length_lt_of_entry? {tokens parameters : List Token} (h : entry? tokens = some parameters) :
    parameters.length < tokens.length := by
  unfold entry? at h
  split at h
  · split at h
    · cases h
      simp only [List.length_cons]
      omega
    · cases h
  · cases h

/-- The tokens before each entry function, from behind the opening of the one before it on, given those
that stand in front. -/
def stretchesFrom (front : List Token) : List Token → List (List Token)
  | [] => []
  | t :: ts =>
    match _ : entry? (t :: ts) with
    | some parameters => front :: stretchesFrom [] parameters
    | none => stretchesFrom (front ++ [t]) ts
termination_by tokens => tokens.length
decreasing_by
  · exact length_lt_of_entry? ‹_›
  · exact Nat.lt_succ_self _

/-- The tokens before each entry function, behind the opening of the one before it. -/
def stretches (tokens : List Token) : List (List Token) :=
  stretchesFrom [] tokens

/-- The directive among some tokens that counts, which is the last one. -/
def lastDirective? (tokens : List Token) : Option Token :=
  tokens.reverse.find? (·.kind = .directive)

/-- The directive that counts among some tokens, or else before them. -/
def nearest (before : Option String) (tokens : List Token) : Option String :=
  ((lastDirective? tokens).map (·.text)).or before

theorem nearest_concat (before : Option String) (front : List Token) (t : Token) :
    nearest before (front ++ [t]) =
      if t.kind = .directive then some t.text else nearest before front := by
  unfold nearest lastDirective?
  rw [List.reverse_append, List.reverse_singleton, List.singleton_append, List.find?_cons]
  by_cases h : t.kind = .directive <;> simp [h]

/-- An overload has a label and an order, or neither. -/
structure Overload.Bears (o : Overload) (data : Option (String × Nat)) : Prop where
  label_eq : o.label = data.map (·.1)
  order_eq : o.order = data.map (·.2)

/-- Overloads, from a given index on, have the labels of the directives that count in their stretches or
before them. -/
inductive Labelled : Option String → Nat → List (List Token) → List Overload → Prop
  | nil (before : Option String) (index : Nat) : Labelled before index [] []
  | cons {before : Option String} {index : Nat} {own : List Token} {stretches : List (List Token)}
      {o : Overload} {os : List Overload} {data : Option (String × Nat)}
      (hdata : metadataBehind (nearest before own) = .ok data) (hbears : o.Bears data)
      (hindex : o.index = index) (h : Labelled (nearest before own) (index + 1) stretches os) :
      Labelled before index (own :: stretches) (o :: os)

/-! ### Tokens of entry functions -/

/-- The words that open an entry function are no directives. -/
def DirectivesApart (tokens : List Token) : Prop :=
  ∀ t ∈ tokens, t.kind = .directive → t.text ∉ ["void", "run", "("]

/-- The text of a directive opens with a mark. -/
theorem directivesApart_tokensFrom (line : Nat) (cs : List Char) : DirectivesApart (tokensFrom line cs) := by
  have hcons {t : Token} {ts : List Token} (ht : t.kind = .directive → t.text ∉ ["void", "run", "("])
      (hts : DirectivesApart ts) : DirectivesApart (t :: ts) :=
    List.forall_mem_cons.2 ⟨ht, hts⟩
  fun_induction tokensFrom line cs with
  | case1 => exact List.forall_mem_nil _
  | case2 line cs ih => exact ih
  | case3 line c cs hc hblank ih => exact ih
  | case4 line c cs hc hblank hopens ih =>
    refine hcons (fun _ hmem => ?_) ih
    have hmark : c = '#' ∨ c = '/' := by
      rw [opensDirective, Bool.or_eq_true, Bool.and_eq_true, Bool.and_eq_true] at hopens
      simpa using hopens.imp id (·.1.1)
    have hhead : ∀ word ∈ ["void", "run", "("], word.toList.head? ≠ some '#' ∧
        word.toList.head? ≠ some '/' := by
      decide
    have hword := hhead _ hmem
    rw [String.toList_ofList, List.head?_cons] at hword
    rcases hmark with rfl | rfl
    · exact hword.1 rfl
    · exact hword.2 rfl
  | case5 line c cs hc hblank hopens hstart ih => exact hcons nofun ih
  | case6 line c cs hc hblank hopens hstart hsymbol ih => exact hcons nofun ih
  | case7 line c cs hc hblank hopens hstart hsymbol ih => exact ih

/-- Behind its opening an entry function is no longer one, and the directive that counts stays the same. -/
private theorem overloadsFrom_of_entry? (before : Option String) (index : Nat) {t : Token}
    {ts parameters : List Token} (hd : DirectivesApart (t :: ts))
    (he : entry? (t :: ts) = some parameters) :
    (if t.kind = .directive then some t.text else before) = before ∧
      overloadsFrom before index ts = overloadsFrom before index parameters ∧ DirectivesApart parameters := by
  unfold entry? at he
  split at he
  · next a b c rest heq =>
    obtain ⟨rfl, rfl⟩ := List.cons.inj heq
    split at he
    · next hopen =>
      cases he
      simp only [Bool.and_eq_true, beq_iff_eq] at hopen
      obtain ⟨⟨ht, hb⟩, hc⟩ := hopen
      obtain ⟨htd, hd⟩ := List.forall_mem_cons.1 hd
      obtain ⟨hbd, hd⟩ := List.forall_mem_cons.1 hd
      obtain ⟨hcd, hd⟩ := List.forall_mem_cons.1 hd
      have hplain {u : Token} {text : String} (hu : u.text = text)
          (h : u.kind = .directive → u.text ∉ ["void", "run", "("])
          (hm : text ∈ ["void", "run", "("]) : u.kind ≠ .directive :=
        fun hk => h hk (hu ▸ hm)
      have hnone {u : Token} {us : List Token} (hu : u.text ≠ "void") : entry? (u :: us) = none := by
        unfold entry?
        split
        · next heq =>
          obtain ⟨rfl, -⟩ := List.cons.inj heq
          simp [hu]
        · rfl
      refine ⟨if_neg (hplain ht htd (by simp)), ?_, hd⟩
      rw [overloadsFrom, hnone (by rw [hb]; decide), if_neg (hplain hb hbd (by simp))]
      dsimp only
      rw [overloadsFrom, hnone (by rw [hc]; decide), if_neg (hplain hc hcd (by simp))]
    · cases he
  · cases he

/-- The overloads among some tokens have the labels of the directives that count. -/
theorem labelled_of_overloadsFrom {before : Option String} {index : Nat} {front tokens : List Token}
    {os : List Overload} (hd : DirectivesApart tokens)
    (h : overloadsFrom (nearest before front) index tokens = .ok os) :
    Labelled before index (stretchesFrom front tokens) os := by
  fun_induction stretchesFrom front tokens generalizing before index os with
  | case1 front =>
    cases h
    exact .nil before index
  | case2 front t ts parameters he ih =>
    obtain ⟨hnext, hskip, hparameters⟩ :=
      overloadsFrom_of_entry? (nearest before front) (index + 1) hd he
    rw [overloadsFrom, he, hnext] at h
    dsimp only at h
    rw [hskip] at h
    obtain ⟨o, ho, h⟩ := Fault.bind_eq_ok_iff.1 h
    obtain ⟨os', hos, h⟩ := Fault.bind_eq_ok_iff.1 h
    cases h
    obtain ⟨data, hdata, ho⟩ := Fault.bind_eq_ok_iff.1 ho
    cases ho
    exact .cons hdata ⟨rfl, rfl⟩ rfl (ih hparameters hos)
  | case3 front t ts he ih =>
    rw [overloadsFrom, he] at h
    refine ih (List.forall_mem_cons.1 hd).2 ?_
    rw [nearest_concat]
    exact h

/-! ### Own and inherited labels -/

variable {before : Option String} {index k : Nat} {own : List (List Token)} {os : List Overload}
  {o : Overload} {stretch : List Token}

/-- An overload has the label that the directives of a stretch give it, or none if there are none. -/
def Overload.LabelledBy (o : Overload) (stretch : List Token) : Prop :=
  ∃ data, metadataBehind (nearest none stretch) = .ok data ∧ o.Bears data

/-- An overload has the label and the order of another one. -/
structure Overload.Inherits (o p : Overload) : Prop where
  label_eq : o.label = p.label
  order_eq : o.order = p.order

namespace Labelled

theorem length_eq (h : Labelled before index own os) : os.length = own.length := by
  induction h with
  | nil => rfl
  | cons _ _ _ _ ih => exact congrArg (· + 1) ih

theorem exists_stretch (h : Labelled before index own os) (ho : os[k]? = some o) :
    ∃ stretch, own[k]? = some stretch := by
  have hk := (List.getElem?_eq_some_iff.1 ho).1
  rw [h.length_eq] at hk
  exact ⟨own[k], List.getElem?_eq_getElem hk⟩

theorem exists_overload (h : Labelled before index own os) (hs : own[k]? = some stretch) :
    ∃ o, os[k]? = some o := by
  have hk := (List.getElem?_eq_some_iff.1 hs).1
  rw [← h.length_eq] at hk
  exact ⟨os[k], List.getElem?_eq_getElem hk⟩

/-- Without a label there is no order. -/
theorem order_eq_none (h : Labelled before index own os) (ho : o ∈ os) (hl : o.label = none) :
    o.order = none := by
  induction h with
  | nil => cases ho
  | cons _ hbears _ _ ih =>
    rcases List.mem_cons.1 ho with rfl | ho
    · rw [hbears.label_eq, Option.map_eq_none_iff] at hl
      rw [hbears.order_eq, hl, Option.map_none]
    · exact ih ho

/-- The label of an overload is its own if its stretch holds a directive, or else that of the overload before
it, or for the first one that of the directive before all. -/
theorem cases_of_getElem? (h : Labelled before index own os) (ho : os[k]? = some o)
    (hs : own[k]? = some stretch) :
    o.index = index + k ∧
      ((lastDirective? stretch).isSome ∧ o.LabelledBy stretch ∨
        lastDirective? stretch = none ∧
          (k = 0 ∧ (∃ data, metadataBehind before = .ok data ∧ o.Bears data) ∨
            ∃ j p, k = j + 1 ∧ os[j]? = some p ∧ o.Inherits p)) := by
  induction h generalizing k with
  | nil => simp at ho
  | @cons before index first own p os data hdata hbears hindex h ih =>
    cases k with
    | zero =>
      obtain rfl : p = o := by simpa using ho
      obtain rfl : first = stretch := by simpa using hs
      refine ⟨hindex, ?_⟩
      cases hd : lastDirective? first with
      | some d =>
        refine Or.inl ⟨rfl, data, ?_, hbears⟩
        rw [← hdata]
        simp [nearest, hd]
      | none =>
        refine Or.inr ⟨rfl, Or.inl ⟨rfl, data, ?_, hbears⟩⟩
        rw [← hdata]
        simp [nearest, hd]
    | succ k =>
      rw [List.getElem?_cons_succ] at ho hs
      obtain ⟨hindex', hcases⟩ := ih ho hs
      refine ⟨by omega, hcases.imp_right (And.imp_right ?_)⟩
      rintro (⟨rfl, data', hdata', hbears'⟩ | ⟨j, q, rfl, hq, hinherits⟩)
      · -- The directive that counts is the one that counted for the overload before.
        rw [hdata, Except.ok.injEq] at hdata'
        subst hdata'
        exact Or.inr ⟨0, p, rfl, rfl, hbears'.label_eq.trans hbears.label_eq.symm,
          hbears'.order_eq.trans hbears.order_eq.symm⟩
      · exact Or.inr ⟨j + 1, q, rfl, hq, hinherits⟩

end Labelled

/-- No overload has a label while the stretch of the next one holds no directive. -/
def NoHeirs (own : List (List Token)) (os : List Overload) : Prop :=
  ∀ k o stretch, os[k]? = some o → own[k + 1]? = some stretch → lastDirective? stretch = none →
    o.label = none

/-- All overloads have their own labels if and only if none has a label that the next one inherits. -/
theorem labelledBy_iff (h : Labelled none index own os) :
    (∀ (k : Nat) (o : Overload) stretch, os[k]? = some o → own[k]? = some stretch →
      o.LabelledBy stretch) ↔ NoHeirs own os := by
  constructor
  · intro hall k o stretch ho hs hnone
    obtain ⟨p, hp⟩ := h.exists_overload hs
    obtain ⟨data, hdata, hbears⟩ := hall (k + 1) p stretch hp hs
    rcases (h.cases_of_getElem? hp hs).2 with ⟨hsome, -⟩ | ⟨-, ⟨hk, -⟩ | ⟨j, q, hj, hq, hinherits⟩⟩
    · simp [hnone] at hsome
    · cases hk
    · cases hj
      rw [ho, Option.some.injEq] at hq
      subst hq
      rw [nearest, hnone] at hdata
      cases hdata
      rw [← hinherits.label_eq, hbears.label_eq, Option.map_none]
  · intro hheirs k o stretch ho hs
    have hnone (hd : lastDirective? stretch = none) :
        metadataBehind (nearest none stretch) = .ok none := by
      rw [nearest, hd]
      rfl
    rcases (h.cases_of_getElem? ho hs).2 with
      ⟨-, hown⟩ | ⟨hd, ⟨-, data, hdata, hbears⟩ | ⟨j, p, rfl, hp, hinherits⟩⟩
    · exact hown
    · cases hdata
      exact ⟨none, hnone hd, hbears⟩
    · have hl : p.label = none := hheirs j p stretch hp hs hd
      refine ⟨none, hnone hd, hinherits.label_eq.trans hl, hinherits.order_eq.trans ?_⟩
      exact h.order_eq_none (List.mem_of_getElem? hp) hl

/-! ### Defaults -/

/-- An overload has a lesser order than another one, or the same order and no greater index. -/
def Overload.Leads (a b : Overload) : Prop :=
  a.order.getD 0 < b.order.getD 0 ∨ a.order.getD 0 = b.order.getD 0 ∧ a.index ≤ b.index

theorem Overload.before_iff {a b : Overload} : a.before b = true ↔
    a.order.getD 0 < b.order.getD 0 ∨ a.order.getD 0 = b.order.getD 0 ∧ a.index < b.index := by
  unfold Overload.before
  dsimp only [Overload.sortKey]
  rw [Bool.or_eq_true, Bool.and_eq_true, decide_eq_true_iff, decide_eq_true_iff, beq_iff_eq]

namespace Overload.Leads

open Overload (before_iff)

variable {a b c : Overload}

theorem refl (a : Overload) : a.Leads a :=
  Or.inr ⟨rfl, Nat.le_refl _⟩

theorem trans (h : a.Leads b) (h' : b.Leads c) : a.Leads c := by
  unfold Overload.Leads at *
  omega

/-- One overload comes before another if the other does not lead. -/
theorem of_before (h : a.before b = true) : a.Leads b := by
  rw [before_iff] at h
  exact h.imp_right (And.imp_right Nat.le_of_lt)

theorem of_not_before (h : ¬ a.before b = true) : b.Leads a := by
  rw [before_iff] at h
  unfold Overload.Leads
  omega

end Overload.Leads

/-- The default overload leads all others. -/
theorem leads_of_defaultOverload? {best : Overload} (h : defaultOverload? os = some best) (ho : o ∈ os) :
    best.Leads o := by
  have hfold (os : List Overload) (first : Overload) : ∀ o ∈ first :: os,
      (os.foldl (fun best o => if o.before best then o else best) first).Leads o := by
    induction os generalizing first with
    | nil => exact List.forall_mem_singleton.2 (.refl first)
    | cons p os ih =>
      rw [List.foldl_cons]
      have hrest := List.forall_mem_cons.1 (ih (if p.before first then p else first))
      have hleads : (if p.before first then p else first).Leads first ∧
          (if p.before first then p else first).Leads p := by
        split
        · next hb => exact ⟨.of_before hb, .refl p⟩
        · next hb => exact ⟨.refl first, .of_not_before hb⟩
      exact List.forall_mem_cons.2 ⟨hrest.1.trans hleads.1,
        List.forall_mem_cons.2 ⟨hrest.1.trans hleads.2, hrest.2⟩⟩
  cases os with
  | nil => cases h
  | cons first os => exact Option.some.inj h ▸ hfold os first o ho

/-- The order that the directives of a stretch give: that of the one that counts, or zero. -/
def ownOrder (stretch : List Token) : Nat :=
  match metadataBehind (nearest none stretch) with
  | .ok (some (_, order)) => order
  | _ => 0

theorem Overload.LabelledBy.getD_order (h : o.LabelledBy stretch) : o.order.getD 0 = ownOrder stretch := by
  obtain ⟨data, hdata, hbears⟩ := h
  rw [ownOrder, hdata, hbears.order_eq]
  cases data <;> rfl

/-- If overloads have their own labels, the default is the first one of the least order of its own. -/
theorem exists_least (h : Labelled none 0 own os)
    (hall : ∀ (k : Nat) (o : Overload) stretch, os[k]? = some o → own[k]? = some stretch →
      o.LabelledBy stretch) {best : Overload} (hbest : defaultOverload? os = some best) :
    ∃ least, own[best.index]? = some least ∧ ∀ k stretch, own[k]? = some stretch →
      ownOrder least < ownOrder stretch ∨ ownOrder least = ownOrder stretch ∧ best.index ≤ k := by
  have hindex {k : Nat} {o : Overload} (ho : os[k]? = some o) : o.index = k := by
    obtain ⟨stretch, hs⟩ := h.exists_stretch ho
    exact (h.cases_of_getElem? ho hs).1.trans (Nat.zero_add k)
  obtain ⟨k, hk⟩ := List.mem_iff_getElem?.1 (mem_of_defaultOverload? hbest)
  obtain ⟨least, hleast⟩ := h.exists_stretch hk
  rw [hindex hk]
  refine ⟨least, hleast, fun j stretch hs => ?_⟩
  obtain ⟨o, ho⟩ := h.exists_overload hs
  have hleads := leads_of_defaultOverload? hbest (List.mem_of_getElem? ho)
  rwa [Overload.Leads, (hall k best least hk hleast).getD_order, (hall j o stretch ho hs).getD_order,
    hindex hk, hindex ho] at hleads

/-- The default overload of a body is also that of its interface. -/
theorem interface_of_requireOverload {code : String} {node : Option String} {best : Overload}
    (h : requireOverload code node = .ok best) :
    ∃ os io, overloads code = .ok os ∧ defaultOverload? os = some best ∧ interface code = .ok io ∧
      io.label = best.label ∧ io.order = best.order ∧ io.index = some best.index := by
  obtain ⟨os, hos, h⟩ := Fault.bind_eq_ok_iff.1 h
  split at h
  · next hbest =>
    cases h
    have hio : interface code = .ok {
        inputs := best.inputs.filter fun p => p.id ∉ previousFrame :: (stageReferences code).map (·.uniform)
        outputs := best.outputs
        overloaded := 1 < os.length
        valid := true
        label := best.label
        order := best.order
        index := some best.index
        references := stageReferences code } := by
      rw [interface, hos]
      simp only [bind, Except.bind, hbest]
      rfl
    exact ⟨os, _, hos, hbest, hio, rfl, rfl, rfl⟩
  · cases h

/-- An overload has the label and the order of the directive that counts in its own stretch, or, if its
stretch holds no directive, those of the overload before it. So all have their own labels, and the default is
the first one of the least order of its own, if and only if no overload with a label stands before one without
a directive. -/
theorem labels_own_or_inherited {code : String} {os : List Overload} (h : overloads code = .ok os) :
    let own := stretches (tokenize (stripComments code))
    os.length = own.length ∧
      (∀ k o stretch, os[k]? = some o → own[k]? = some stretch → o.index = k ∧
        ((lastDirective? stretch).isSome ∧ o.LabelledBy stretch ∨
          lastDirective? stretch = none ∧
            (k = 0 ∧ o.label = none ∧ o.order = none ∨
              ∃ j p, k = j + 1 ∧ os[j]? = some p ∧ o.Inherits p))) ∧
      ((∀ (k : Nat) (o : Overload) stretch, os[k]? = some o → own[k]? = some stretch →
        o.LabelledBy stretch) ↔ NoHeirs own os) ∧
      ∀ node best, requireOverload code node = .ok best →
        (∃ io, interface code = .ok io ∧ io.label = best.label ∧ io.order = best.order ∧
          io.index = some best.index) ∧
        (∀ o ∈ os, best.Leads o) ∧
        (NoHeirs own os → ∃ least, own[best.index]? = some least ∧
          ∀ k stretch, own[k]? = some stretch → ownOrder least < ownOrder stretch ∨
            ownOrder least = ownOrder stretch ∧ best.index ≤ k) := by
  intro own
  have hlabelled : Labelled none 0 own os :=
    @labelled_of_overloadsFrom none 0 [] _ os (directivesApart_tokensFrom 1 _) h
  refine ⟨hlabelled.length_eq, fun k o stretch ho hs => ?_, labelledBy_iff hlabelled, fun node best hb => ?_⟩
  · obtain ⟨hindex, hcases⟩ := hlabelled.cases_of_getElem? ho hs
    refine ⟨hindex.trans (Nat.zero_add k), hcases.imp_right (And.imp_right (Or.imp_left (And.imp_right ?_)))⟩
    rintro ⟨data, hdata, hbears⟩
    cases hdata
    exact ⟨hbears.label_eq, hbears.order_eq⟩
  · obtain ⟨os', io, hos, hbest, hio, hlabel, horder, hindex⟩ := interface_of_requireOverload hb
    obtain rfl : os = os' := Except.ok.inj (h.symm.trans hos)
    refine ⟨⟨io, hio, hlabel, horder, hindex⟩, fun o ho => leads_of_defaultOverload? hbest ho,
      fun hheirs => ?_⟩
    exact exists_least hlabelled ((labelledBy_iff hlabelled).2 hheirs) hbest

/-- A body in which both kinds of metadata directives stand, and a definition. -/
def mixedBody : String :=
  "//Item[Half,2]\nvoid run(vec3 a) {}\n#define H\nvoid run(float a) {}\n//[Item(Sum, 1)]\nvoid run(vec2 a)"

/-- The overloads of the body. -/
def mixedOverloads : List Overload :=
  [{ inputs := [Port.ofId "a" .vec3], outputs := [], label := some "Half", order := some 2, index := 0 },
    { inputs := [Port.ofId "a" .float], outputs := [], index := 1 },
    { inputs := [Port.ofId "a" .vec2], outputs := [], label := some "Sum", order := some 1, index := 2 }]

/-- Each overload of the body has its own label, and a definition hides none of its own. -/
theorem labels_own_or_inherited_mixed :
    overloads mixedBody = .ok mixedOverloads ∧
      ∀ (k : Nat) (o : Overload) stretch, mixedOverloads[k]? = some o →
        (stretches (tokenize (stripComments mixedBody)))[k]? = some stretch → o.LabelledBy stretch := by
  have hchars : mixedBody.toList = _ := String.toList_ofList
  have h : overloads mixedBody = .ok mixedOverloads := by
    rw [overloads, tokenize_stripComments, hchars]
    decide +kernel
  refine ⟨h, (labels_own_or_inherited h).2.2.1.2 fun k o stretch _ hs hnone => ?_⟩
  have hdirectives : (stretches (tokenize (stripComments mixedBody))).all
      (fun stretch => (lastDirective? stretch).isSome) = true := by
    rw [tokenize_stripComments, hchars]
    decide +kernel
  have hsome := List.all_eq_true.1 hdirectives stretch (List.mem_of_getElem? hs)
  rw [hnone] at hsome
  cases hsome

/-- A body with a label before its first overload, and none before its second. -/
def labelledFirst : String :=
  "//Item[First,1]\nvoid run(vec2 uv, out float a) { a = 1.0; }\n" ++
    "void run(vec2 uv, float x, out float b) { b = x; }"

/-- The second overload has no directive, but the label and the order of the first one. So the first one is
the default, though it is not the one of the least order of its own. -/
theorem unlabelled_inherits :
    (stretches (tokenize (stripComments labelledFirst))).map
        (fun stretch => ((lastDirective? stretch).map (·.text), ownOrder stretch)) =
        [(some "//Item[First,1]", 1), (none, 0)] ∧
      (overloads labelledFirst).map (·.map fun o => (o.label, o.order)) =
        .ok [(some "First", some 1), (some "First", some 1)] ∧
      (requireOverload labelledFirst none).map (·.index) = .ok 0 := by
  have hchars : labelledFirst.toList = _ :=
    String.toList_append.trans (congrArg₂ _ String.toList_ofList String.toList_ofList)
  rw [requireOverload, overloads, tokenize_stripComments, hchars]
  refine ⟨?_, ?_, ?_⟩ <;> decide +kernel

end RenderGraph.Source
