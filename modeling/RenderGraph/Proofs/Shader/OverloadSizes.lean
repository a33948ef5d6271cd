import RenderGraph.Proofs.Shader.CommentedBody
import RenderGraph.Proofs.Shader.ParameterSizes
import RenderGraph.Proofs.Source.HeadsInOrder

/-!
# Sizes of array parameters in the overloads of a body

A body may have several overloads, and a node takes its inputs from one of them. When the body is prepared,
all overloads get the name under which the program calls them, and the lines that declare index variables. But
the capacities of array inputs are set in the head of the first overload only, and there only where the
brackets stand behind the name of the parameter.

## Main definitions

* `Shader.Legible`: the heads that stand in the text of a body are those of its overloads

## Main results

* `Shader.heads_inserted`: lines behind heads leave all heads as they are
* `Shader.prepareBody_sizes`: what becomes of the parameters of each overload
-/

namespace RenderGraph.Shader

open Source (Heads IsIdent IsName entryDeclaration voidDeclaration)
open Text (AllBlank isBlank isWord isWord? lastMark replaceAll search)

variable {name : String} {cs behind : List Char} {heads : List (List Char)}

/-! ### Lines behind heads -/

section Inserted

variable (hne : name.toList ≠ []) (hname : IsIdent name) (hhead : name.toList.head? ≠ some 'v')

include hne hname hhead in
/-- Inside of a head no function is declared. -/
private theorem voidDeclaration_eq_none {decl parameters a x : List Char} (hdecl : Source.Declares name decl)
    (hopen : '(' ∉ parameters) (h : decl ++ (parameters ++ [')']) = a ++ x) (ha : a ≠ []) (hx : x ≠ []) :
    voidDeclaration name a.getLast? (x ++ behind) = none := by
  rw [Option.eq_none_iff_forall_ne_some]
  rintro ⟨⟨⟩, rest⟩ hr
  obtain ⟨hlast, decl', hdecl', heq, -⟩ := (Source.phrased_voidDeclaration hne hname).read_iff.1 hr
  rcases Source.append_eq_append_cases h with ⟨y, rfl, hy⟩ | ⟨c, b, rfl, rfl⟩
  · -- Between the parentheses none opens, and a declaration does not go on behind the one that closes.
    obtain ⟨x, c, rfl⟩ := (List.eq_nil_or_concat' x).resolve_left hx
    rw [← List.append_assoc] at hy
    obtain ⟨rfl, hc⟩ := List.append_inj' hy rfl
    obtain rfl : ')' = c := (List.cons.inj hc).1
    rcases List.append_eq_append_iff.1 heq with ⟨z, rfl, -⟩ | ⟨z, hz, -⟩
    · have hnone : ')' ∉ x ++ [')'] ++ z :=
        hdecl'.notMem hname (by decide) (by decide) (by decide)
      exact hnone (by simp)
    · have hmem : '(' ∈ x ++ [')'] := hz ▸ List.mem_append_left z (List.mem_of_getLast? hdecl'.getLast?_eq)
      rcases List.mem_append.1 hmem with hmem | hmem
      · exact hopen (List.mem_append_right y hmem)
      · exact absurd (List.mem_singleton.1 hmem) (by decide)
  · obtain ⟨gap, gap', -, -, -, rfl⟩ := hdecl'
    obtain rfl : c = 'v' := (List.cons.inj heq).1
    rw [Source.isWord?_of_declares hname hhead hdecl ha] at hlast
    cases hlast

include hne hname in
/-- A head up to the brace behind it is the head that was found, and blanks. -/
private theorem exists_of_opens {decl parameters phrase rest : List Char} (hdecl : Source.Declares name decl)
    (hclose : ')' ∉ parameters) (hopens : Opens name phrase)
    (h : decl ++ (parameters ++ ')' :: behind) = phrase ++ rest) :
    ∃ gap, AllBlank gap ∧ phrase = decl ++ (parameters ++ ')' :: (gap ++ ['\x7b'])) ∧
      behind = gap ++ (['\x7b'] ++ rest) := by
  obtain ⟨decl', parameters', gap, hdecl', hclose', hgap, rfl⟩ := hopens
  rw [List.append_assoc] at h
  have hreads {decl : List Char} (hdecl : Source.Declares name decl) (rest : List Char) :
      voidDeclaration name none (decl ++ rest) = some ((), rest) :=
    Source.voidDeclaration_append hne hname rfl hdecl rest
  have hrest : parameters ++ ')' :: behind = parameters' ++ (')' :: (gap ++ ['\x7b']) ++ rest) := by
    have hread := hreads hdecl (parameters ++ ')' :: behind)
    rw [h, hreads hdecl', List.append_assoc] at hread
    exact (congrArg Prod.snd (Option.some.inj hread)).symm
  rw [hrest, ← List.append_assoc parameters'] at h
  obtain rfl := List.append_cancel_right h
  have hpass {cs : List Char} (hcs : ')' ∉ cs) : ∀ c ∈ cs, (c != ')') = true := fun c hc =>
    bne_iff_ne.2 fun he => hcs (he ▸ hc)
  obtain ⟨rfl, hcons⟩ := Text.eq_of_append_eq_append (hpass hclose) (hpass hclose') rfl rfl hrest
  exact ⟨gap, hgap, rfl, (List.cons.inj hcons).2.trans (List.append_assoc _ _ _)⟩

include hne hname hhead in
/-- The heads of the functions stand when lines are put behind them that do not declare any. -/
theorem heads_inserted {lines : List Char} (hmark : isWord? (lastMark ('\x7b' :: lines)) = false)
    (hnone : search (voidDeclaration name) none ('\x7b' :: lines) = none) (h : Heads name cs heads) :
    Heads name (replaceAll (functionHead name) (fun _ whole => whole ++ lines) cs) heads := by
  have hp := phrased_functionHead hne hname
  have hreads (prev : Option Char) (cs : List Char) (h : voidDeclaration name prev cs = none) :
      functionHead name prev cs = none := functionHead_eq_none hne hname h
  have hbehind {c : Char} (hc : isWord c = false) (cs : List Char) :
      Text.replaceFrom (functionHead name) (fun _ whole => whole ++ lines) 0 (some c) cs =
        replaceAll (functionHead name) (fun _ whole => whole ++ lines) cs :=
    hp.replaceFrom_eq_replaceAll _ (by rw [show isWord? (some c) = false from hc, Bool.false_and])
  induction h with
  | nil h =>
    rw [replaceAll, Text.replaceFrom_of_search_eq_none _ (Text.search_eq_none_of_reads hreads h)]
    exact .nil h
  | @cons cs before parameters behind heads h hparameters _ ih =>
    obtain ⟨decl, hdecl, rfl, hbefore, hany⟩ := Source.exists_of_search_declaration hne hname h
    obtain ⟨tail, htail, hread, hreplace⟩ :=
      Text.replaceFrom_of_search hreads (fun _ whole => whole ++ lines) h
    obtain rfl := List.append_cancel_left htail
    rw [Option.or_none] at hread hreplace
    rw [replaceAll, hreplace]
    have hkept {behind' : List Char} (h' : Heads name behind' heads) :
        Heads name (before ++ (decl ++ (parameters ++ ')' :: behind'))) (parameters :: heads) :=
      .cons (hany _) hparameters h'
    cases hr : functionHead name before.getLast? (decl ++ (parameters ++ ')' :: behind)) with
    | some r =>
      -- The lines stand behind the brace, and nothing is declared up to there.
      obtain ⟨⟨⟩, rest⟩ := r
      obtain ⟨-, phrase, hopens, heq, -⟩ := hp.read_iff.1 hr
      rw [heq, Text.replaceFrom_of_read _ (hp.ne_nil hopens) (heq ▸ hr), hopens.getLast?_eq,
        hbehind (by decide)]
      obtain ⟨gap, hgap, rfl, rfl⟩ := exists_of_opens hne hname hdecl hparameters.2 hopens heq
      have hblank (cs : List Char) : Heads name (gap ++ cs) heads ↔ Heads name cs heads :=
        Heads.append_iff hne hname (by rw [Text.lastMark_of_allBlank hgap]; rfl)
          (Source.search_eq_none_of_notMem hne hname fun hmem => absurd (hgap '(' hmem) (by decide))
      have hbrace (cs : List Char) : Heads name (['\x7b'] ++ cs) heads ↔ Heads name cs heads :=
        Heads.append_iff hne hname (by decide) (Source.search_eq_none_of_notMem hne hname (by decide))
      rw [hp.replaceAll_append_of_isWord _ hgap.isWord_eq_false,
        hp.replaceAll_append_of_isWord _ (List.forall_mem_singleton.2 (by decide)), hblank, hbrace] at ih
      simpa using hkept ((hblank _).2 ((Heads.append_iff hne hname hmark hnone).2 ih))
    | none =>
      have hinside (a x : List Char) (hax : decl ++ (parameters ++ [')']) = a ++ x) (hx : x ≠ []) :
          functionHead name (a.getLast?.or before.getLast?) (x ++ behind) = none := by
        cases a with
        | nil =>
          rw [List.nil_append] at hax
          rw [← hax]
          simpa using hr
        | cons c a =>
          rw [List.getLast?_cons, Option.some_or, ← List.getLast?_cons]
          exact hreads _ _ (voidDeclaration_eq_none hne hname hhead hdecl hparameters.1 hax
            (List.cons_ne_nil c a) hx)
      have hassoc : decl ++ (parameters ++ ')' :: behind) = decl ++ (parameters ++ [')']) ++ behind := by
        simp
      have hlast : (decl ++ (parameters ++ [')'])).getLast? = some ')' := by
        rw [← List.append_assoc, List.getLast?_concat]
      rw [hassoc, Text.replaceFrom_append_of_eq_none _ hinside, hlast, Option.some_or,
        hbehind (by decide)]
      simpa using hkept ih

end Inserted

/-! ### Lines that declare index variables -/

/-- The text does not end with a word, and the only function that is used in it is `clamp`. -/
structure Clamps (cs : List Char) : Prop where
  mark : isWord? (lastMark cs) = false
  last : ∀ a b, cs = a ++ '(' :: b → a.getLast? = some 'p'

namespace Clamps

variable {ds : List Char}

theorem of_notMem (hmark : isWord? (lastMark cs) = false) (h : '(' ∉ cs) : Clamps cs where
  mark := hmark
  last _ _ hcs := absurd (hcs ▸ List.mem_append_right _ List.mem_cons_self) h

theorem append (h : Clamps cs) (h' : Clamps ds) : Clamps (cs ++ ds) where
  mark := by
    rw [Text.lastMark_append]
    have hmark' := h'.mark
    cases hds : lastMark ds with
    | none => exact h.mark
    | some c => rwa [hds] at hmark'
  last a b hcs := by
    rcases Source.append_eq_append_cases hcs with ⟨c, rfl, hds⟩ | ⟨c, d, rfl, hb⟩
    · have hlast := h'.last c b hds
      rw [List.getLast?_append, hlast, Option.some_or]
    · obtain ⟨rfl, -⟩ := List.cons.inj hb
      exact h.last a d rfl

theorem intercalate {sep : List Char} (hsep : Clamps sep) {parts : List (List Char)}
    (h : ∀ part ∈ parts, Clamps part) : Clamps (sep.intercalate parts) := by
  induction parts with
  | nil => exact .of_notMem rfl List.not_mem_nil
  | cons part parts ih =>
    rw [List.forall_mem_cons] at h
    cases parts with
    | nil => simpa using h.1
    | cons second parts =>
      rw [List.intercalate_cons_cons]
      exact (h.1.append hsep).append (ih h.2)

/-- No function is declared by a use of `clamp`. -/
theorem search_eq_none (h : Clamps cs) (hne : name.toList ≠ []) (hname : IsIdent name)
    (hlast : name.toList.getLast? ≠ some 'p') : search (voidDeclaration name) none cs = none := by
  rw [Option.eq_none_iff_forall_ne_some]
  rintro ⟨before, ⟨⟩, rest⟩ hr
  obtain ⟨_, ⟨gap, gap', -, -, hgap', rfl⟩, rfl, -⟩ := Source.exists_of_search_declaration hne hname hr
  have hp := h.last (before ++ ("void".toList ++ (gap ++ (name.toList ++ gap')))) rest (by simp)
  simp only [← List.append_assoc] at hp
  cases hg : gap'.getLast? with
  | none =>
    rw [List.getLast?_append, hg, Option.none_or, List.getLast?_append_of_ne_nil _ hne] at hp
    exact hlast hp
  | some c =>
    rw [List.getLast?_append, hg, Option.some_or, Option.some.injEq] at hp
    exact absurd ( hgap' 'p' (hp ▸ List.mem_of_getLast? hg)) (by decide)

theorem use : Clamps "clamp(".toList where
  mark := by decide
  last a b hab := by
    rcases Source.append_eq_append_cases (u := "clamp".toList) (v := ['(']) hab with
      ⟨c, rfl, hc⟩ | ⟨c, d, hclamp, hb⟩
    · obtain ⟨rfl, -⟩ := (List.singleton_eq_append_iff.1 hc).resolve_right (by simp)
      rfl
    · obtain ⟨rfl, -⟩ := List.cons.inj hb
      exact absurd (hclamp ▸ List.mem_append_right a List.mem_cons_self : '(' ∈ "clamp".toList) (by decide)

/-- The line that declares an index variable. -/
theorem line {l : IndexLocal} (hname : '(' ∉ l.name.toList) (huniform : '(' ∉ l.uniform.toList) :
    Clamps l.line.toList := by
  have hline : l.line.toList = ("  int ".toList ++ (l.name.toList ++ [' ', '=', ' '])) ++ "clamp(".toList ++
      (l.uniform.toList ++ (", 0, ".toList ++ ((toString l.greatest).toList ++ [')', ';']))) := by
    simp [IndexLocal.line]
  have hdigits : '(' ∉ (toString l.greatest).toList := fun hmem =>
    absurd (Number.marked_repr l.greatest '(' hmem) (by decide)
  rw [hline]
  refine (append (.of_notMem ?_ ?_) use).append (.of_notMem ?_ ?_)
  · rw [Text.lastMark_append, Text.lastMark_append]
    rfl
  · simp [hname]
  · rw [Text.lastMark_append, Text.lastMark_append, Text.lastMark_append]
    rfl
  · simp only [List.mem_append, not_or]
    exact ⟨huniform, by decide, hdigits, by decide⟩

end Clamps

/-! ### The heads of a prepared body -/

section Stages

variable {code : String} (hne : name.toList ≠ []) (hname : IsIdent name)
  (hhead : name.toList.head? ≠ some 'v')

include hne hname

/-- The sizes are set in the first head. -/
theorem exists_setArraySizes {parameters : List Char} {inputs : List Port} {uniforms : Keyed BoundValue}
    {fallback : Number} (hids : ∀ port ∈ inputs, port.type.isArray = true → IsName port.id)
    (hcapacity : ∀ port ∈ inputs, port.type.isArray = true →
      ∃ length, portCapacity port uniforms fallback = .ok length)
    (hb : ∀ t ∈ Text.split ',' parameters, Bracketed t)
    (h : Heads "run" code.toList (parameters :: heads))
    (hnone : search (voidDeclaration name) none code.toList = none) :
    ∃ code' parameters', setArraySizes code inputs uniforms fallback = .ok code' ∧
      List.Forall₂ (Fits inputs uniforms fallback) (Text.split ',' parameters) (Text.split ',' parameters') ∧
      Heads "run" code'.toList (parameters' :: heads) ∧
      search (voidDeclaration name) none code'.toList = none := by
  obtain ⟨before, decl, behind, hdecl, -, hcode, hopen, hclose, hs, hbehind⟩ :=
    h.exists_of_cons (by decide) (by decide)
  obtain ⟨front, hfront⟩ := List.getLast?_eq_some_iff.1 hdecl.getLast?_eq
  have hbracket : '[' ∉ front := fun hmem => hdecl.notMem (c := '[') (by decide) (by decide) (by decide)
    (by decide) (hfront ▸ List.mem_append_left _ hmem)
  obtain ⟨texts', hsize, hfits⟩ := exists_sizeHead hids hcapacity hbracket hb
  have hsplit : Text.split ',' ([','].intercalate texts') = texts' := by
    refine Text.split_intercalate ?_ fun t' ht' => ?_
    · rintro rfl
      exact Text.split_ne_nil ',' parameters (List.forall₂_nil_right_iff.1 hfits)
    · obtain ⟨t, ht, hfit⟩ := exists_of_forall₂ hfits ht'
      exact hfit.notMem (by decide) (by decide) (Text.notMem_of_mem_split ht)
  have hparentheses {c : Char} (hmark : ¬ Number.IsMark c) (hbracket : c ≠ '[') (hcomma : c ≠ ',')
      (hc : c ∉ parameters) : c ∉ [','].intercalate texts' := by
    intro hmem
    rcases Text.mem_of_mem_intercalate hmem with hmem | ⟨t', ht', hmem⟩
    · exact hcomma (List.mem_singleton.1 hmem)
    · obtain ⟨t, ht, hfit⟩ := exists_of_forall₂ hfits ht'
      exact hfit.notMem hmark hbracket (fun hmem => hc (Text.mem_of_mem_split ht hmem)) hmem
  have hopen' := hparentheses (by decide) (by decide) (by decide) hopen
  have hclose' := hparentheses (by decide) (by decide) (by decide) hclose
  have hcloses : closeParentheses 1 (parameters ++ [')'] ++ behind) =
      some (parameters ++ [')'], behind) := by
    rw [List.append_assoc, closeParentheses_append_of_notMem hclose 0, List.count_eq_zero.2 hopen]
    simp [closeParentheses]
  have hassoc (decl parameters : List Char) : before ++ (decl ++ (parameters ++ ')' :: behind)) =
      before ++ (decl ++ (parameters ++ [')'] ++ behind)) := by
    simp
  have hfirst : firstHead? code.toList = some (before, decl ++ (parameters ++ [')']), behind) := by
    rw [hcode, hassoc]
    refine firstHead?_eq_some ?_ hcloses
    rw [← hassoc, ← hcode, List.append_assoc]
    exact hs
  have hhead : decl ++ (parameters ++ [')']) =
      front ++ '(' :: ([','].intercalate (Text.split ',' parameters) ++ [')']) := by
    rw [Text.intercalate_split, hfront]
    simp
  have hset : setArraySizes code inputs uniforms fallback =
      .ok (String.ofList (before ++ (decl ++ ([','].intercalate texts' ++ ')' :: behind)))) := by
    rw [setArraySizes_eq, exchangeHead_of_eq_some _ hfirst, hhead, hsize, hfront]
    simp [Except.map]
  refine ⟨_, [','].intercalate texts', hset, by rwa [hsplit], ?_, ?_⟩
  · rw [String.toList_ofList]
    exact Heads.exchange (by decide) (by decide) (hcode ▸ hs) ⟨hopen', hclose'⟩ hbehind
  · rw [String.toList_ofList, ← List.append_assoc]
    rw [hcode, ← List.append_assoc] at hnone
    exact Source.search_exchange_eq_none hne hname (by rw [hdecl.lastMark_eq]; decide) hopen' hnone

include hhead in
/-- The functions of all heads are renamed. -/
theorem exists_renameEntry (hheads : heads ≠ []) (h : Heads "run" code.toList heads)
    (hnone : search (voidDeclaration name) none code.toList = none) :
    ∃ code', Source.renameEntry code name = .ok code' ∧ Heads name code'.toList heads := by
  have hoccurs : Text.occurs entryDeclaration code.toList = true := by
    cases h with
    | nil h => exact absurd rfl hheads
    | cons h hp hbehind => exact Option.isSome_of_eq_some h
  have htemplate : '\\' ∉ ("void " ++ name ++ "(").toList := by
    simpa using hname.notMem
  have hrename : Source.renameEntry code name = .ok (String.ofList (replaceAll entryDeclaration
      (fun _ _ => ("void " ++ name ++ "(").toList) code.toList)) := by
    rw [Source.renameEntry, if_pos hoccurs, Text.substitute_of_notMem _ code htemplate]
  refine ⟨_, hrename, ?_⟩
  rw [String.toList_ofList]
  exact h.renamed (by decide) (by decide) hne hname hhead hnone

include hhead in
/-- The lines that declare index variables leave the heads as they are. -/
theorem heads_injectIndexLocals (hlast : name.toList.getLast? ≠ some 'p') {locals : List IndexLocal}
    (hlocals : ∀ l ∈ locals, '(' ∉ l.name.toList ∧ '(' ∉ l.uniform.toList)
    (h : Heads name code.toList heads) :
    Heads name (injectIndexLocals code name locals).toList heads := by
  unfold injectIndexLocals
  split
  · exact h
  · have hbreak : Clamps ['\n'] := .of_notMem (by decide) (by decide)
    have hclamps : Clamps (['\x7b'] ++ ("\n" ++ "\n".intercalate (locals.map (·.line)) ++ "\n").toList) := by
      rw [String.toList_append, String.toList_append, String.toList_intercalate, List.map_map]
      refine .append (.of_notMem (by decide) (by decide)) ((hbreak.append (hbreak.intercalate ?_)).append hbreak)
      exact List.forall_mem_map.2 fun l hl => .line (hlocals l hl).1 (hlocals l hl).2
    rw [String.toList_ofList]
    exact heads_inserted hne hname hhead hclamps.mark (hclamps.search_eq_none hne hname hlast) h

end Stages

/-! ### Overloads of a prepared body -/

variable {node : Node} {source : String} {fallback : Number}

/-- The heads that stand in the text of a body are those of its overloads, and their parameters have at most
one pair of brackets each. -/
structure Legible (node : Node) (source : String) (heads : List (List Char)) : Prop where
  stand : ∃ code, Source.renameLocals source ("node_" ++ node.cleanId) = .ok code ∧
    Heads "run" code.toList heads ∧ search (voidDeclaration node.runName) none code.toList = none
  read : Source.entryGroups (Source.tokenize (Source.stripComments source)) =
    heads.map fun head => (Text.split ',' head).map Source.words
  brackets : ∀ head ∈ heads, ∀ t ∈ Text.split ',' head, Bracketed t
  ids : ∀ port ∈ node.inputs, port.type.isArray = true → IsName port.id

section Capacities

variable (hcapacity : ∀ port ∈ node.inputs, port.type.isArray = true →
  ∃ length, portCapacity port node.uniforms fallback = .ok length)

include hcapacity

theorem exists_indexLocals : ∃ locals, indexLocals node fallback = .ok locals := by
  have hall : Yields (indexLocals node fallback)
      (List.Forall₂ (fun _ _ => True) (node.inputs.filter (·.type.isArray))) fun _ => False := by
    refine Yields.mapM fun port hport => ?_
    obtain ⟨hmem, harray⟩ := List.mem_filter.1 hport
    obtain ⟨length, hlength⟩ := hcapacity port hmem harray
    rw [yields_bind, hlength]
    trivial
  cases hlocals : indexLocals node fallback with
  | ok locals => exact ⟨locals, rfl⟩
  | error e =>
    rw [hlocals] at hall
    exact hall.elim

/-- When a body is prepared, only the parameters of its first head change. -/
theorem exists_prepareBody {first : List Char} (h : Legible node source (first :: heads)) :
    ∃ prepared first', prepareBody node source fallback = .ok prepared ∧
      Heads node.runName prepared.toList (first' :: heads) ∧
      List.Forall₂ (Fits node.inputs node.uniforms fallback) (Text.split ',' first) (Text.split ',' first') := by
  obtain ⟨code, hcode, hheads, hnone⟩ := h.stand
  obtain ⟨hne, hname⟩ : node.runName.toList ≠ [] ∧ IsIdent node.runName :=
    Source.isIdent_entry (isIdent_space node) (by rw [Node.runName]; simp)
  have hstart : node.runName.toList.head? ≠ some 'v' := by
    rw [head?_runName]
    decide
  have hlast : node.runName.toList.getLast? ≠ some 'p' := by
    rw [Node.runName, String.toList_append, List.getLast?_append_of_ne_nil _ (by decide)]
    decide
  obtain ⟨sized, first', hsized, hfits, hheads₁, hnone₁⟩ := exists_setArraySizes hne hname h.ids
    hcapacity (h.brackets first List.mem_cons_self) hheads hnone
  obtain ⟨entered, hentered, hheads₂⟩ :=
    exists_renameEntry hne hname hstart (List.cons_ne_nil first' heads) hheads₁ hnone₁
  obtain ⟨locals, hlocals⟩ := exists_indexLocals hcapacity
  have hparentheses (l : IndexLocal) (hl : l ∈ locals) : '(' ∉ l.name.toList ∧ '(' ∉ l.uniform.toList :=
    notMem_of_mem_indexLocals (by decide) (fun port hport harray hmem =>
      absurd ((h.ids port hport harray).ident '(' hmem) (by decide)) hlocals hl
  have hprepared : prepareBody node source fallback =
      .ok (injectIndexLocals entered node.runName locals) := by
    rw [prepareBody, hcode]
    change setArraySizes code node.inputs node.uniforms fallback >>= _ = _
    rw [hsized]
    change Source.renameEntry sized node.runName >>= _ = _
    rw [hentered]
    change indexLocals node fallback >>= _ = _
    rw [hlocals]
    rfl
  exact ⟨_, first', hprepared, heads_injectIndexLocals hne hname hstart hlast hparentheses hheads₂, hfits⟩

/-- What becomes of the overloads of a body when it is prepared for a node. In the first overload, the
parameters that declare an array input with the brackets behind the name get its capacity as their size. All
other parameters stand, and so do all parameters of the other overloads. -/
theorem prepareBody_sizes (h : Legible node source heads) {os : List Source.Overload}
    (hos : Source.overloads source = .ok os) {o : Source.Overload} (ho : o ∈ os) :
    ∃ prepared heads' head head', prepareBody node source fallback = .ok prepared ∧
      Heads node.runName prepared.toList heads' ∧ heads'.length = heads.length ∧
      heads[o.index]? = some head ∧ heads'[o.index]? = some head' ∧
      o.Declares ((Text.split ',' head).map Source.words) ∧
      List.Forall₂ (fun t t' => (o.index = 0 → Fits node.inputs node.uniforms fallback t t') ∧
        (o.index ≠ 0 → t' = t)) (Text.split ',' head) (Text.split ',' head') := by
  obtain ⟨parameters, -, hget, hdeclares⟩ := Source.exists_declares_of_overloadsFrom hos ho
  rw [Nat.sub_zero, h.read, List.getElem?_map, Option.map_eq_some_iff] at hget
  obtain ⟨head, hhead, rfl⟩ := hget
  cases heads with
  | nil => cases hhead
  | cons first others =>
    obtain ⟨prepared, first', hprepared, hheads, hfits⟩ := exists_prepareBody hcapacity h
    rcases Nat.eq_zero_or_pos o.index with hindex | hindex
    · rw [hindex] at hhead
      obtain rfl : first = head := Option.some.inj hhead
      refine ⟨prepared, first' :: others, first, first', hprepared, hheads, rfl, ?_, ?_, hdeclares, ?_⟩
      · rw [hindex, List.getElem?_cons_zero]
      · rw [hindex, List.getElem?_cons_zero]
      · exact hfits.imp fun t t' hfit => ⟨fun _ => hfit, fun hne => absurd hindex hne⟩
    · obtain ⟨k, hk⟩ : ∃ k, o.index = k + 1 := Nat.exists_eq_succ_of_ne_zero (by omega)
      refine ⟨prepared, first' :: others, head, head, hprepared, hheads, rfl, hhead, ?_, hdeclares, ?_⟩
      · rw [hk, List.getElem?_cons_succ] at hhead ⊢
        exact hhead
      · exact List.forall₂_same.2 fun t _ => ⟨fun hzero => absurd hzero (by omega), fun _ => rfl⟩

end Capacities

/-- A node with one array input. -/
def sampledNode : Node :=
  { id := "n", inputs := [.ofId "a" (.array .float)], outputs := [.ofId "o" .float] }

/-- The brackets stand behind the name in the first overload, and behind the type in the second. -/
def sampledTwice : String :=
  "void run(float a[4], out float o) \x7b\x7d void run(float[] a, out float o) \x7b\x7d"

private theorem legible_sampledTwice : Legible sampledNode sampledTwice
    ["float a[4], out float o".toList, "float[] a, out float o".toList] where
  stand := by
    have hfirst : search (voidDeclaration "run") none sampledTwice.toList = some ([], (),
        "float a[4], out float o".toList ++
          ')' :: " \x7b\x7d void run(float[] a, out float o) \x7b\x7d".toList) := by
      rw [sampledTwice]
      repeat rw [String.toList_ofList]
      decide +kernel
    have hsecond : search (voidDeclaration "run") none
        " \x7b\x7d void run(float[] a, out float o) \x7b\x7d".toList = some (" \x7b\x7d ".toList, (),
          "float[] a, out float o".toList ++ ')' :: " \x7b\x7d".toList) := by
      repeat rw [String.toList_ofList]
      decide +kernel
    have hnone : search (voidDeclaration "run") none " \x7b\x7d".toList = none := by decide +kernel
    have hheads := Heads.cons hfirst (by decide +kernel) (.cons hsecond (by decide +kernel) (.nil hnone))
    refine ⟨sampledTwice, by decide +kernel, hheads, ?_⟩
    rw [sampledTwice, String.toList_ofList]
    decide +kernel
  read := by
    rw [Source.tokenize_stripComments, sampledTwice]
    repeat rw [String.toList_ofList]
    decide +kernel
  brackets := by
    repeat rw [String.toList_ofList]
    decide +kernel
  ids := by decide +kernel

/-- One of the overloads of both bodies: an array input and an output. -/
def sampledOverload (index : Nat) : Source.Overload :=
  { inputs := [.ofId "a" (.array .float)], outputs := [.ofId "o" .float], index }

theorem prepareBody_sizes_sampled : ∃ prepared heads' head',
    Source.overloads sampledTwice = .ok [sampledOverload 0, sampledOverload 1] ∧
      prepareBody sampledNode sampledTwice (.int 16) = .ok prepared ∧
      Heads sampledNode.runName prepared.toList heads' ∧ heads'[0]? = some head' ∧
      Text.split ',' head' = ["float a[16]".toList, " out float o".toList] := by
  have hos : Source.overloads sampledTwice = .ok [sampledOverload 0, sampledOverload 1] := by
    rw [Source.overloads, Source.tokenize_stripComments, sampledTwice, String.toList_ofList]
    decide +kernel
  have hcapacity : ∀ port ∈ sampledNode.inputs, port.type.isArray = true →
      ∃ length, portCapacity port sampledNode.uniforms (.int 16) = .ok length :=
    List.forall_mem_singleton.2 fun _ => ⟨16, rfl⟩
  obtain ⟨prepared, heads', head, head', hprepared, hheads, -, hhead, hhead', -, hall⟩ :=
    prepareBody_sizes hcapacity legible_sampledTwice hos List.mem_cons_self
  refine ⟨prepared, heads', head', hos, hprepared, hheads, hhead', ?_⟩
  obtain rfl : "float a[4], out float o".toList = head := Option.some.inj hhead
  have hsplit : Text.split ',' "float a[4], out float o".toList =
      ["float a[4]".toList, " out float o".toList] := by decide +kernel
  rw [hsplit] at hall
  have hwritten : Written (.ofId "a" (.array .float)) "float a[4]".toList :=
    ⟨"float a".toList, ['4'], [], ⟨[], [' '], [], by decide, by decide,
      List.forall_mem_singleton.2 (by decide), List.forall_mem_nil _, rfl⟩, rfl⟩
  generalize Text.split ',' head' = texts at hall ⊢
  cases hall with
  | cons hfirst hall =>
  cases hall with
  | cons hsecond hall =>
  cases hall
  obtain ⟨length, hlength, hsized⟩ := (hfirst.1 rfl).sized _ List.mem_cons_self rfl hwritten
  obtain rfl : 16 = length := Except.ok.inj hlength
  rw [(hsecond.1 rfl).kept fun port _ _ hw => absurd hw.mem (by decide), hsized]
  rfl

/-- The brackets stand behind the name, but in the second overload. -/
def sampledLater : String :=
  "void run(vec2 uv, out float o) \x7b\x7d void run(vec2 uv, float a[4], out float o) \x7b\x7d"

/-- Both overloads are renamed and get the index variable, and the size stands as it was written. -/
private theorem prepareBody_sampledLater : prepareBody sampledNode sampledLater (.int 16) =
    .ok ("void node_n_run(vec2 uv, out float o) \x7b\n  int a_index = clamp(u_n_a_index, 0, 15);\n\x7d " ++
      "void node_n_run(vec2 uv, float a[4], out float o) \x7b\n" ++
      "  int a_index = clamp(u_n_a_index, 0, 15);\n\x7d") := by
  have hchars : sampledLater.toList = _ := String.toList_ofList
  have hconstants : Source.constants sampledLater = [] := by
    rw [Source.constants, hchars]
    decide +kernel
  have hhelpers : Source.helpers sampledLater = [] := by
    rw [Source.helpers, hchars]
    decide +kernel
  have hsized : setArraySizes sampledLater sampledNode.inputs sampledNode.uniforms (.int 16) =
      .ok sampledLater := by
    rw [setArraySizes, hchars]
    decide +kernel
  have hnamed : Source.renameLocals sampledLater ("node_" ++ sampledNode.cleanId) = .ok sampledLater := by
    rw [Source.renameLocals, hconstants]
    exact Fault.bind_eq_ok_iff.2 ⟨sampledLater, rfl, by rw [hhelpers]; rfl⟩
  have hentered : Source.renameEntry sampledLater "node_n_run" =
      .ok "void node_n_run(vec2 uv, out float o) \x7b\x7d void node_n_run(vec2 uv, float a[4], out float o) \x7b\x7d" := by
    rw [Source.renameEntry, Text.substitute, hchars]
    decide +kernel
  have hlocals : indexLocals sampledNode (.int 16) =
      .ok [{ name := "a_index", uniform := "u_n_a_index", greatest := 15 }] := by
    decide +kernel
  have hname : sampledNode.runName = "node_n_run" := by decide +kernel
  rw [← hname] at hentered
  refine Fault.bind_eq_ok_iff.2 ⟨_, hnamed, Fault.bind_eq_ok_iff.2 ⟨_, hsized,
    Fault.bind_eq_ok_iff.2 ⟨_, hentered, Fault.bind_eq_ok_iff.2 ⟨_, hlocals, congrArg Except.ok ?_⟩⟩⟩⟩
  rw [hname, ← String.toList_inj, injectIndexLocals, if_neg (by decide)]
  repeat rw [String.toList_append]
  repeat rw [String.toList_ofList]
  decide +kernel

/-- The capacity of an array input is not set in the overload from which the node takes its inputs. -/
theorem later_overload_keeps_size :
    Source.overloads sampledLater =
        .ok [{ inputs := [], outputs := [.ofId "o" .float], index := 0 }, sampledOverload 1] ∧
      (sampledOverload 1).inputs = sampledNode.inputs ∧
      portCapacity (.ofId "a" (.array .float)) sampledNode.uniforms (.int 16) = .ok 16 ∧
      prepareBody sampledNode sampledLater (.int 16) =
        .ok ("void node_n_run(vec2 uv, out float o) \x7b\n  int a_index = clamp(u_n_a_index, 0, 15);\n\x7d " ++
          "void node_n_run(vec2 uv, float a[4], out float o) \x7b\n" ++
          "  int a_index = clamp(u_n_a_index, 0, 15);\n\x7d") := by
  refine ⟨?_, rfl, rfl, prepareBody_sampledLater⟩
  rw [Source.overloads, Source.tokenize_stripComments, sampledLater, String.toList_ofList]
  decide +kernel

end RenderGraph.Shader
