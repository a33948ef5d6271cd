import RenderGraph.Proofs.Source.Joining
import RenderGraph.Proofs.Source.Spelling

/-!
# The heads of a function in order

A text may declare functions of one name several times. Their heads stand one after another, and what is
exchanged in one of them, or put behind one, leaves the others where they are.

## Main definitions

* `Source.Heads`: the heads of the functions of a name, with what stands between their parentheses
* `Source.words`: the words of a text

## Main results

* `Source.Heads.exchange`: the first head with other parameters
* `Source.Heads.renamed`: the heads under another name
-/

namespace RenderGraph.Source

open Text (AllBlank Cut Phrased isBlank isIdentChar isWord isWord? firstMark lastMark occurs replaceAll search)

/-! ### Places of declarations -/

/-- Behind a mark no word and no declaration goes on. -/
theorem joins_eq_false_of_lastMark {front : List Char} (h : isWord? (lastMark front) = false)
    (back : List Char) : Joins front back = false := by
  rw [joins_eq_false_iff]
  constructor
  · rw [Text.Meets, Bool.and_eq_false_iff]
    refine Or.inl (Bool.eq_false_iff.2 fun hword => ?_)
    rw [← Text.lastMark_of_isWord hword, h] at hword
    cases hword
  · refine Bool.eq_false_iff.2 fun hspans => ?_
    rw [isWord?_lastMark_of_spans hspans] at h
    cases h

/-- A text that ends with a mark ends with it. -/
theorem lastMark_concat (cs : List Char) {c : Char} (hc : isBlank c = false) :
    lastMark (cs ++ [c]) = some c := by
  simp [lastMark, firstMark, hc]

variable {name : String} {cs before behind front back rest : List Char}

theorem Declares.lastMark_eq {decl : List Char} (h : Declares name decl) (before : List Char) :
    lastMark (before ++ decl) = some '(' := by
  obtain ⟨gap, gap', -, -, -, rfl⟩ := h
  rw [← List.append_assoc, ← List.append_assoc, ← List.append_assoc, ← List.append_assoc]
  exact lastMark_concat _ (by decide)

section Names

variable (hne : name.toList ≠ []) (hname : IsIdent name)

include hne hname

theorem cut_of_lastMark (h : isWord? (lastMark front) = false) (back : List Char) :
    Cut (voidDeclaration name) front back :=
  cut_of_joins_eq_false (phrased_voidDeclaration hne hname) (fun _ => tight_declares hne hname)
    (joins_eq_false_of_lastMark h back)

/-- Where a function is declared first, it is declared with anything behind. -/
theorem exists_of_search_declaration
    (h : search (voidDeclaration name) none cs = some (before, (), rest)) :
    ∃ decl, Declares name decl ∧ cs = before ++ (decl ++ rest) ∧ isWord? before.getLast? = false ∧
      ∀ rest', search (voidDeclaration name) none (before ++ (decl ++ rest')) =
        some (before, (), rest') := by
  have hp := phrased_voidDeclaration hne hname
  obtain ⟨_, rfl, hread⟩ := Text.exists_of_search h
  rw [Option.or_none] at hread
  obtain ⟨hbefore, decl, hdecl, rfl, -⟩ := hp.read_iff.1 hread
  have hcut (rest : List Char) : Cut (voidDeclaration name) (before ++ decl) rest :=
    cut_of_lastMark hne hname (by rw [hdecl.lastMark_eq]; decide) rest
  refine ⟨decl, hdecl, rfl, hbefore, fun rest' => ?_⟩
  rw [← List.append_assoc, (hcut _).search_append hp] at h ⊢
  cases hfront : search (voidDeclaration name) none (before ++ decl) with
  | some r =>
    obtain ⟨before', ⟨⟩, rest₀⟩ := r
    rw [hfront] at h
    simp only [Option.some.injEq, Prod.mk.injEq, true_and] at h
    obtain ⟨rfl, hnil⟩ := h
    obtain rfl : rest₀ = [] := by simpa using hnil
    rfl
  | none =>
    rw [hfront] at h
    obtain ⟨r, -, hr⟩ := Option.map_eq_some_iff.1 h
    have hlength : (before ++ decl ++ r.1).length = before.length := congrArg (List.length ·.1) hr
    have hpos := List.length_pos_iff.2 (hp.ne_nil hdecl)
    simp only [List.length_append] at hlength
    omega

/-- A text with a declaration holds one, whatever stands around it. -/
theorem search_eq_none_of_append (h : search (voidDeclaration name) none (front ++ back) = none) :
    search (voidDeclaration name) none front = none := by
  rw [Option.eq_none_iff_forall_ne_some]
  rintro ⟨before, ⟨⟩, rest⟩ hr
  obtain ⟨decl, hdecl, rfl, hbefore, -⟩ := exists_of_search_declaration hne hname hr
  have hread := voidDeclaration_append hne hname hbefore hdecl (rest ++ back)
  have hsome := Text.search_ne_none hread
  rw [← List.append_assoc decl, ← List.append_assoc] at hsome
  exact hsome h

theorem search_eq_none_of_append_right (hfront : isWord? front.getLast? = false)
    (h : search (voidDeclaration name) none (front ++ back) = none) :
    search (voidDeclaration name) none back = none := by
  rw [Option.eq_none_iff_forall_ne_some]
  rintro ⟨before, ⟨⟩, rest⟩ hr
  obtain ⟨decl, hdecl, rfl, hbefore, -⟩ := exists_of_search_declaration hne hname hr
  have hlast : isWord? (front ++ before).getLast? = false := by
    rw [List.getLast?_append]
    cases hb : before.getLast? with
    | none => exact hfront
    | some c => rwa [hb] at hbefore
  have hread := voidDeclaration_append hne hname hlast hdecl rest
  have hsome := Text.search_ne_none hread
  rw [List.append_assoc] at hsome
  exact hsome h

omit hne in
/-- The word that opens a declaration does not occur in one behind a mark or a blank. -/
theorem isWord?_of_declares {x z : List Char} (hhead : name.toList.head? ≠ some 'v')
    (h : Declares name (x ++ 'v' :: z)) (hx : x ≠ []) : isWord? x.getLast? = true := by
  have hlast {w v u : List Char} (hw : ∀ c ∈ w, isWord c = true) (hv : v ≠ []) (hwv : w = v ++ u) :
      isWord? v.getLast? = true := by
    rw [List.getLast?_eq_some_getLast hv]
    exact hw _ (hwv ▸ List.mem_append_left _ (List.getLast_mem hv))
  have hwords : ∀ c ∈ name.toList, isWord c = true := fun c hc => Text.isWord_of_isIdentChar (hname c hc)
  obtain ⟨gap, gap', -, hgap, hgap', heq⟩ := h
  rcases append_eq_append_cases heq.symm with ⟨a, rfl, hrest⟩ | ⟨c, b, hvoid, -⟩
  · rcases append_eq_append_cases hrest with ⟨u, rfl, huse⟩ | ⟨c, b, rfl, hc⟩
    · rcases append_eq_append_cases huse with ⟨t, rfl, hend⟩ | ⟨c, b, hc, hz⟩
      · -- Behind the name there are blanks and a parenthesis.
        have hmem : 'v' ∈ gap' ++ ['('] := hend ▸ List.mem_append_right _ List.mem_cons_self
        rcases List.mem_append.1 hmem with hblank | hopen
        · exact absurd ( hgap' 'v' hblank) (by decide)
        · exact absurd (List.mem_singleton.1 hopen) (by decide)
      · cases u with
        | nil =>
          obtain ⟨rfl, -⟩ := List.cons.inj hz
          exact absurd (by rw [hc]; rfl) hhead
        | cons d u =>
          rw [← List.append_assoc, List.getLast?_append_of_ne_nil _ (List.cons_ne_nil d u)]
          exact hlast hwords (List.cons_ne_nil d u) hc
    · obtain ⟨rfl, -⟩ := List.cons.inj hc
      exact absurd (hgap 'v' (List.mem_append_right _ List.mem_cons_self)) (by decide)
  · exact hlast (List.all_eq_true.1 (by decide)) hx hvoid

/-- Behind a text that declares nothing and does not end in a word, a declaration is the first. -/
theorem search_declaration (hhead : name.toList.head? ≠ some 'v')
    (hnone : search (voidDeclaration name) none before = none) (hbefore : isWord? before.getLast? = false)
    {decl : List Char} (hdecl : Declares name decl) (rest : List Char) :
    search (voidDeclaration name) none (before ++ (decl ++ rest)) = some (before, (), rest) := by
  have hp := phrased_voidDeclaration hne hname
  have hread : voidDeclaration name none (decl ++ rest) = some ((), rest) :=
    voidDeclaration_append hne hname rfl hdecl rest
  obtain ⟨cs, hcs⟩ : ∃ cs, decl ++ rest = 'v' :: cs := by
    obtain ⟨gap, gap', -, -, -, rfl⟩ := hdecl
    exact ⟨_, rfl⟩
  rw [hcs] at hread ⊢
  have hcut : Cut (voidDeclaration name) before ('v' :: cs) := by
    refine hp.cut (by rw [Text.Meets, hbefore, Bool.false_and]) ?_
    rintro b x z rfl - hx hz ⟨t, ht⟩ hphrase
    cases z with
    | nil => exact hz rfl
    | cons c z =>
      obtain ⟨rfl, -⟩ := List.cons.inj ht
      rw [List.getLast?_append_of_ne_nil _ hx, isWord?_of_declares hname hhead hphrase hx] at hbefore
      cases hbefore
  rw [hcut.search_append hp, hnone, search, hread]
  simp

/-- A text without opening parentheses declares nothing. -/
theorem search_eq_none_of_notMem (h : '(' ∉ cs) : search (voidDeclaration name) none cs = none := by
  rw [Option.eq_none_iff_forall_ne_some]
  rintro ⟨before, ⟨⟩, rest⟩ hr
  obtain ⟨decl, hdecl, rfl, -, -⟩ := exists_of_search_declaration hne hname hr
  exact h (List.mem_append_right _ (List.mem_append_left _ (List.mem_of_getLast? hdecl.getLast?_eq)))

/-- Around a mark nothing is declared if nothing is declared before it and behind it. -/
theorem search_append_eq_none (hmark : isWord? (lastMark front) = false)
    (hfront : search (voidDeclaration name) none front = none)
    (hback : search (voidDeclaration name) none back = none) :
    search (voidDeclaration name) none (front ++ back) = none := by
  rw [(cut_of_lastMark hne hname hmark back).search_append (phrased_voidDeclaration hne hname), hfront, hback]
  rfl

/-- Parameters may be exchanged where nothing is declared. -/
theorem search_exchange_eq_none {parameters parameters' : List Char}
    (hmark : isWord? (lastMark front) = false) (hopen : '(' ∉ parameters')
    (h : search (voidDeclaration name) none (front ++ (parameters ++ ')' :: behind)) = none) :
    search (voidDeclaration name) none (front ++ (parameters' ++ ')' :: behind)) = none := by
  have hbehind : search (voidDeclaration name) none behind = none := by
    have hlast : isWord? (front ++ (parameters ++ [')'])).getLast? = false := by
      rw [← List.append_assoc, List.getLast?_concat]
      decide
    exact search_eq_none_of_append_right hne hname hlast (by simpa using h)
  have hinner : search (voidDeclaration name) none (parameters' ++ [')'] ++ behind) = none :=
    search_append_eq_none hne hname (by rw [lastMark_concat _ (by decide)]; decide)
      (search_eq_none_of_notMem hne hname (by simpa using hopen)) hbehind
  rw [List.append_cons]
  exact search_append_eq_none hne hname hmark (search_eq_none_of_append hne hname h) hinner

end Names

/-! ### Heads -/

/-- The functions of a name that a text declares, in order, with what stands between the parentheses of their
heads: all heads are closed, and there are no parentheses in them. -/
inductive Heads (name : String) : List Char → List (List Char) → Prop
  | nil {cs : List Char} (h : search (voidDeclaration name) none cs = none) : Heads name cs []
  | cons {cs before parameters behind : List Char} {heads : List (List Char)}
      (h : search (voidDeclaration name) none cs = some (before, (), parameters ++ ')' :: behind))
      (hp : '(' ∉ parameters ∧ ')' ∉ parameters) (hbehind : Heads name behind heads) :
      Heads name cs (parameters :: heads)

namespace Heads

variable {heads : List (List Char)} {parameters : List Char}

/-- Texts in which the same is found have the same heads. -/
theorem of_search_eq {cs' : List Char} {f : List Char → List Char} (h : Heads name cs heads)
    (hs : search (voidDeclaration name) none cs' =
      (search (voidDeclaration name) none cs).map fun r => (f r.1, r.2)) : Heads name cs' heads := by
  cases h with
  | nil h => exact .nil (by rw [hs, h]; rfl)
  | cons h hp hbehind => exact .cons (by rw [hs, h]; rfl) hp hbehind

theorem of_append_search_eq (h : Heads name (front ++ back) heads)
    (hs : search (voidDeclaration name) none (front ++ back) =
      (search (voidDeclaration name) none back).map fun r => (front ++ r.1, r.2)) :
    Heads name back heads := by
  cases h with
  | nil h =>
    rw [h, eq_comm, Option.map_eq_none_iff] at hs
    exact .nil hs
  | cons h hp hbehind =>
    rw [h, eq_comm, Option.map_eq_some_iff] at hs
    obtain ⟨⟨before, a, rest⟩, hr, heq⟩ := hs
    cases heq
    exact .cons hr hp hbehind

section Names

variable (hne : name.toList ≠ []) (hname : IsIdent name)

include hne hname

/-- What stands before a text has no part in its heads if it declares nothing and ends with a mark. -/
theorem append_iff (hmark : isWord? (lastMark front) = false)
    (hnone : search (voidDeclaration name) none front = none) :
    Heads name (front ++ back) heads ↔ Heads name back heads := by
  have hs := (cut_of_lastMark hne hname hmark back).search_append (phrased_voidDeclaration hne hname)
  rw [hnone] at hs
  exact ⟨fun h => h.of_append_search_eq hs, fun h => h.of_search_eq hs⟩

/-- The text from the first head on. -/
theorem exists_of_cons (h : Heads name cs (parameters :: heads)) :
    ∃ before decl behind, Declares name decl ∧ isWord? before.getLast? = false ∧
      cs = before ++ (decl ++ (parameters ++ ')' :: behind)) ∧ '(' ∉ parameters ∧ ')' ∉ parameters ∧
      search (voidDeclaration name) none cs = some (before, (), parameters ++ ')' :: behind) ∧
      Heads name behind heads := by
  cases h with
  | cons h hp hbehind =>
    obtain ⟨decl, hdecl, hcs, hbefore, -⟩ := exists_of_search_declaration hne hname h
    exact ⟨_, decl, _, hdecl, hbefore, hcs, hp.1, hp.2, h, hbehind⟩

/-- The parameters of the first head may be exchanged. -/
theorem exchange {before decl behind parameters' : List Char}
    (h : search (voidDeclaration name) none (before ++ (decl ++ (parameters ++ ')' :: behind))) =
      some (before, (), parameters ++ ')' :: behind))
    (hp : '(' ∉ parameters' ∧ ')' ∉ parameters') (hbehind : Heads name behind heads) :
    Heads name (before ++ (decl ++ (parameters' ++ ')' :: behind))) (parameters' :: heads) := by
  obtain ⟨decl', -, hcs, -, hany⟩ := exists_of_search_declaration hne hname h
  obtain rfl : decl = decl' := List.append_cancel_right (List.append_cancel_left hcs)
  exact .cons (hany _) hp hbehind

/-- The heads stand under another name when the functions are renamed. -/
theorem renamed {name' : String} (hne' : name'.toList ≠ []) (hname' : IsIdent name')
    (hhead' : name'.toList.head? ≠ some 'v')
    (hnone : search (voidDeclaration name') none cs = none) (h : Heads name cs heads) :
    Heads name' (replaceAll (voidDeclaration name) (fun _ _ => ("void " ++ name' ++ "(").toList) cs)
      heads := by
  have hp := phrased_voidDeclaration hne hname
  have hnew : Declares name' ("void " ++ name' ++ "(").toList :=
    ⟨[' '], [], List.cons_ne_nil _ _, List.forall_mem_singleton.2 (by decide), List.forall_mem_nil _, by simp⟩
  generalize ("void " ++ name' ++ "(").toList = new at hnew
  induction heads generalizing cs with
  | nil =>
    cases h with
    | nil h =>
      rw [replaceAll, Text.replaceFrom_of_search_eq_none _ h]
      exact .nil hnone
  | cons parameters heads ih =>
    obtain ⟨before, decl, behind, hdecl, hbefore, rfl, hopen, hclose, hs, hbehind⟩ :=
      h.exists_of_cons hne hname
    obtain ⟨tail, htail, -, hreplace⟩ :=
      Text.replaceFrom_of_search (fun _ _ => id) (fun _ _ => new) hs
    obtain rfl := List.append_cancel_left htail
    have hread := voidDeclaration_append hne hname hbefore hdecl (parameters ++ ')' :: behind)
    -- Nothing is declared between the parentheses.
    have hinner : search (voidDeclaration name) none (parameters ++ [')']) = none :=
      search_eq_none_of_notMem hne hname (by simpa using hopen)
    have hcut : Cut (voidDeclaration name) (parameters ++ [')']) behind :=
      cut_of_lastMark hne hname (by rw [lastMark_concat _ (by decide)]; decide) behind
    have hrest : Text.replaceFrom (voidDeclaration name) (fun _ _ => new) 0 (some '(')
        (parameters ++ ')' :: behind) = parameters ++
          ')' :: replaceAll (voidDeclaration name) (fun _ _ => new) behind := by
      rw [hp.replaceFrom_eq_replaceAll _ (by rw [show isWord? (some '(') = false by decide]; rfl),
        List.append_cons, hcut.replaceAll_append hp, replaceAll,
        Text.replaceFrom_of_search_eq_none _ hinner]
      simp
    rw [replaceAll, hreplace, Option.or_none, Text.replaceFrom_of_read _ (hp.ne_nil hdecl) hread,
      hdecl.getLast?_eq, hrest]
    have hbehind' : search (voidDeclaration name') none behind = none := by
      have hlast : isWord? (before ++ (decl ++ (parameters ++ [')']))).getLast? = false := by
        rw [← List.append_assoc, ← List.append_assoc, List.getLast?_concat]
        decide
      exact search_eq_none_of_append_right hne' hname' hlast (by simpa using hnone)
    exact .cons (search_declaration hne' hname' hhead' (search_eq_none_of_append hne' hname' hnone) hbefore
      hnew _) ⟨hopen, hclose⟩ (ih hbehind' hbehind)

end Names

end Heads

/-! ### Words -/

/-- The words of a text: what its tokens read. -/
def words (cs : List Char) : List String :=
  (tokensFrom 1 cs).map (·.text)

end RenderGraph.Source
