import RenderGraph.Proofs.Numeric.Marks
import RenderGraph.Proofs.Shader.Heads

/-!
# Entry functions of commented bodies

The entry function gets the name under which the program calls it, and its body begins with some local
variables. Around comments that stand aside and outside of heads, the declarations and the heads are found
where they are without the comments, and not inside of comments. So both changes are the same with comments
and without.

## Main definitions

* `Shader.Enters`: the declaration of the entry function, and what it becomes
* `Shader.Opens`: a head up to the brace behind it
* `Shader.Inserts`: a head, and the same with some lines behind it

## Main results

* `Shader.woven_renameEntry`: the entry function is renamed alike with comments and without
* `Shader.stripChars_injectIndexLocals`: the local variables are put in alike
-/

namespace RenderGraph.Shader

open Source (IsIdent Woven Placed Parted Resembles Declares SparesMetadata Uncommented Remark Joins
  entryDeclaration voidDeclaration)
open Text (AllBlank Exchanges Rewritten Meets Cut Phrased ReadsAs isBlank isWord isWord? firstMark search)

variable {name : String} {prev : Option Char} {s s' code clear raw : List Char}

/-! ### The declaration of the entry function -/

/-- The declaration of the entry function, and what it becomes under a given name. -/
def Enters (name : String) (part new : List Char) : Prop :=
  Declares "run" part ∧ new = "void".toList ++ ' ' :: (name.toList ++ ['('])

section Enters

variable (hname : IsIdent name) (hhead : name.toList.head? = some 'n') {part new : List Char}

theorem Enters.getLast?_eq (h : Enters name part new) :
    part.getLast? = some '(' ∧ new.getLast? = some '(' := by
  obtain ⟨hdecl, rfl⟩ := h
  refine ⟨hdecl.getLast?_eq, ?_⟩
  rw [← List.cons_append, ← List.append_assoc, List.getLast?_concat]

theorem Enters.sparesMetadata : SparesMetadata (Enters name) := by
  rintro part new s ⟨⟨gap, gap', -, -, -, rfl⟩, -⟩ - ⟨rest, hrest⟩
  cases hrest

include hname

theorem Enters.notMem_new (h : Enters name part new) {c : Char} (hc : Text.isIdentChar c = false)
    (hblank : isBlank c = false) (hne : c ≠ '(') : c ∉ new := by
  obtain ⟨-, rfl⟩ := h
  have hword {w : String} (h : IsIdent w) : c ∉ w.toList := fun hmem => Bool.eq_false_iff.1 hc (h c hmem)
  have hspace : c ≠ ' ' := by
    rintro rfl
    cases hblank
  simp only [List.mem_append, List.mem_cons, List.not_mem_nil, or_false, not_or]
  exact ⟨hword (w := "void") (by decide), hspace, hword hname, hne⟩

theorem Enters.exchanges (h : Enters name part new) : Exchanges part new where
  head := by
    obtain ⟨⟨gap, gap', -, -, -, rfl⟩, -⟩ := h
    rfl
  head_new := by
    obtain ⟨-, rfl⟩ := h
    rfl
  last := by rw [h.getLast?_eq.1, h.getLast?_eq.2]
  ends c hc := by
    rw [h.getLast?_eq.1] at hc
    cases hc
    decide
  slash := h.notMem_new hname (by decide) (by decide) (by decide)

theorem resembles_of_entered (h : Rewritten (Enters name) none s s') : Resembles s s' :=
  Source.resembles_of_rewritten (fun _ _ hpart => hpart.exchanges hname) Enters.sparesMetadata h
    (Source.endsInWord_of_rewritten (fun _ _ hpart =>
      ⟨'(', by decide, by decide, hpart.getLast?_eq.1, hpart.getLast?_eq.2⟩)
      (List.all_eq_true.1 (by decide)) (by decide) h)

include hhead

/-- Behind the first character of a declaration, it is kept. -/
private theorem exists_kept {gap gap' rest' : List Char} (hgap : AllBlank gap) (hgap' : AllBlank gap')
    (h : Rewritten (Enters name) (some 'v') s
      (['o', 'i', 'd'] ++ (gap ++ (name.toList ++ (gap' ++ '(' :: rest'))))) :
    ∃ rest prev', s = ['o', 'i', 'd'] ++ (gap ++ (name.toList ++ (gap' ++ '(' :: rest))) ∧
      Rewritten (Enters name) prev' rest rest' := by
  have hW (part new : List Char) (h : Enters name part new) := h.exchanges hname
  have hnew {c : Char} (hc : c ≠ 'v') (part new : List Char) (hpart : Enters name part new) :
      new.head? ≠ some c := by
    obtain ⟨-, rfl⟩ := hpart
    simpa using Ne.symm hc
  obtain ⟨t, rfl, h₁⟩ := h.exists_of_words hW (List.all_eq_true.1 (by decide)) rfl
  obtain ⟨t, rfl, h₂⟩ := h₁.exists_of_gap hW hgap
  obtain ⟨name', heq⟩ := List.head?_eq_some_iff.1 hhead
  have hword : ∀ c ∈ name', isWord c = true := fun c hc =>
    Text.isWord_of_isIdentChar (hname c (heq ▸ List.mem_cons_of_mem 'n' hc))
  rw [heq, List.cons_append] at h₂
  obtain ⟨t, rfl, h₃⟩ := h₂.exists_of_cons hW (Or.inr (hnew (by decide)))
  obtain ⟨t, rfl, h₄⟩ := h₃.exists_of_words hW hword rfl
  obtain ⟨t, rfl, h₅⟩ := h₄.exists_of_gap hW hgap'
  obtain ⟨t, rfl, h₆⟩ := h₅.exists_of_cons hW (Or.inr (hnew (by decide)))
  exact ⟨t, _, by rw [heq]; rfl, h₆⟩

/-- Inside of a new declaration no other one begins. -/
private theorem eq_nil_of_new {a z : List Char}
    (h : "void".toList ++ ' ' :: (name.toList ++ ['(']) = a ++ 'v' :: z)
    (ha : isWord? a.getLast? = false) : a = [] := by
  by_contra hne
  have hend {w b : List Char} (hw : ∀ c ∈ w, isWord c = true) (hb : b ≠ []) (hbegins : b <+: w)
      (hlast : a.getLast? = b.getLast?) : False := by
    rw [hlast, List.getLast?_eq_some_getLast hb, show isWord? (some _) = isWord _ from rfl,
      hw _ (hbegins.subset (List.getLast_mem hb))] at ha
    cases ha
  have hword : ∀ c ∈ name.toList, isWord c = true := fun c hc => Text.isWord_of_isIdentChar (hname c hc)
  rcases List.append_eq_append_iff.1 h with ⟨b, rfl, hb⟩ | ⟨b, hvoid, -⟩
  · cases b with
    | nil => cases hb
    | cons c b =>
      obtain ⟨rfl, hb'⟩ := List.cons.inj hb
      cases b with
      | nil =>
        obtain ⟨name', heq⟩ := List.head?_eq_some_iff.1 hhead
        rw [heq] at hb'
        cases hb'
      | cons d b =>
        rcases List.append_eq_append_iff.1 hb' with ⟨w, hw, hz⟩ | ⟨w, hw, -⟩
        · cases w with
          | nil => cases hz
          | cons e w => simp at hz
        · exact hend hword (List.cons_ne_nil d b) ⟨w, hw.symm⟩ (by simp)
  · exact hend (w := "void".toList) (List.all_eq_true.1 (by decide)) hne ⟨b, hvoid.symm⟩ rfl

/-- A declaration under the new name was one under it or under the old name. -/
theorem exists_declaration_of_entered {a' decl' rest' : List Char}
    (hs : s' = a' ++ (decl' ++ rest')) (ha : isWord? (a'.getLast?.or prev) = false)
    (hdecl : Declares name decl') (h : Rewritten (Enters name) prev s s') :
    ∃ old ∈ ["run", name], ∃ (a decl rest : List Char) (prev' : Option Char), s = a ++ (decl ++ rest) ∧
      isWord? (a.getLast?.or prev) = false ∧ Declares old decl ∧
        Rewritten (Enters name) prev' rest rest' := by
  obtain ⟨gap, gap', hne, hgap, hgap', rfl⟩ := hdecl
  have hvoid : "void".toList = 'v' :: ['o', 'i', 'd'] := rfl
  simp only [List.append_assoc, List.singleton_append] at hs
  induction h generalizing a' with
  | nil => simp at hs
  | @keep prev t t' c h ih =>
    cases a' with
    | nil =>
      rw [hvoid, List.nil_append, List.cons_append] at hs
      obtain ⟨rfl, rfl⟩ := List.cons.inj hs
      obtain ⟨rest, prev', rfl, hrest⟩ := exists_kept hname hhead hgap hgap' h
      refine ⟨name, by simp, [], _, rest, prev', ?_, ha, ⟨gap, gap', hne, hgap, hgap', rfl⟩, hrest⟩
      simp [hvoid]
    | cons d a' =>
      obtain ⟨rfl, rfl⟩ := List.cons.inj hs
      rw [List.getLast?_cons, Option.some_or, ← Option.or_some] at ha
      obtain ⟨old, hold, a, decl, rest, prev', rfl, ha', hdecl, hrest⟩ := ih ha rfl
      refine ⟨old, hold, c :: a, decl, rest, prev', rfl, ?_, hdecl, hrest⟩
      rwa [List.getLast?_cons, Option.some_or, ← Option.or_some]
  | @swap prev part new t t' hprev hpart hmeets h ih =>
    obtain ⟨hlast, hnewlast⟩ := hpart.getLast?_eq
    have hlater {z : List Char}
        (hz : t' = z ++ ("void".toList ++ (gap ++ (name.toList ++ (gap' ++ '(' :: rest')))))
        (hz' : isWord? (z.getLast?.or (some '(')) = false) : ∃ old ∈ ["run", name],
        ∃ (a decl rest : List Char) (prev' : Option Char), part ++ t = a ++ (decl ++ rest) ∧
          isWord? (a.getLast?.or prev) = false ∧ Declares old decl ∧
            Rewritten (Enters name) prev' rest rest' := by
      rw [← hlast] at hz'
      obtain ⟨old, hold, a, decl, rest, prev', rfl, ha', hdecl, hrest⟩ := ih hz' hz
      refine ⟨old, hold, part ++ a, decl, rest, prev', by simp, ?_, hdecl, hrest⟩
      rwa [List.getLast?_append, Option.or_assoc, hlast, Option.some_or, ← hlast]
    rcases List.append_eq_append_iff.1 hs with ⟨z, rfl, hz⟩ | ⟨z, hnew, hz⟩
    · refine hlater hz ?_
      rw [List.getLast?_append, hnewlast] at ha
      cases hzlast : z.getLast? with
      | none => rfl
      | some d => rwa [hzlast] at ha
    · cases z with
      | nil => exact hlater (z := []) hz.symm rfl
      | cons d z =>
        rw [hvoid, List.cons_append] at hz
        obtain ⟨rfl, hz'⟩ := List.cons.inj hz
        obtain ⟨hrun, rfl⟩ := hpart
        obtain rfl : a' = [] := by
          refine eq_nil_of_new hname hhead hnew ?_
          cases halast : a'.getLast? with
          | none => rfl
          | some d => rwa [halast] at ha
        obtain rfl : z = ['o', 'i', 'd'] ++ ' ' :: (name.toList ++ ['(']) := (List.cons.inj hnew).2.symm
        have hheadmark (t : List Char) : (name.toList ++ t).head?.any isBlank = false := by
          rw [List.head?_append, hhead]
          rfl
        have hrest : gap ++ (name.toList ++ (gap' ++ '(' :: rest')) =
            [' '] ++ (name.toList ++ '(' :: t') := by
          simpa using hz'
        have hspace : AllBlank [' '] := List.forall_mem_singleton.2 (by decide)
        obtain ⟨-, hrest⟩ :=
          Text.eq_of_append_eq_append hgap hspace (hheadmark _) (hheadmark _) hrest
        have hopen (t : List Char) : ('(' :: t).head?.any isBlank = false :=
          show isBlank '(' = false by decide
        obtain ⟨-, hrest⟩ := Text.eq_of_append_eq_append (v := []) hgap' (List.forall_mem_nil _) (hopen rest')
          (hopen t') (List.append_cancel_left hrest)
        obtain ⟨-, rfl⟩ := List.cons.inj hrest
        exact ⟨"run", by simp, [], part, t, _, rfl, ha, hrun, h⟩

/-- Heads end where they did when the entry function is renamed. -/
theorem EndsHeads.entered (hcode : Rewritten (Enters name) none code s)
    (hclear : Rewritten (Enters name) none clear s') (h : EndsHeads ["run", name] code clear) :
    EndsHeads [name] s s' := by
  have hW (part new : List Char) (h : Enters name part new) := h.exchanges hname
  have hnew (part new : List Char) (hpart : Enters name part new) : ')' ∉ new :=
    hpart.notMem_new hname (by decide) (by decide) (by decide)
  rintro _ hmem before decl rest hs hbefore hdecl
  obtain rfl := List.mem_singleton.1 hmem
  obtain ⟨old, hold, before₀, decl₀, rest₀, prev, hcode₀, hbefore₀, hdecl₀, hrest⟩ :=
    exists_declaration_of_entered hname hhead hs (by rwa [Option.or_none]) hdecl hcode
  rw [Option.or_none] at hbefore₀
  obtain ⟨parameters₀, behind₀, rfl, hparameters₀, hbody⟩ :=
    h old hold before₀ decl₀ rest₀ hcode₀ hbefore₀ hdecl₀
  obtain ⟨parameters, behind, rfl, hparameters, hbehind⟩ := hrest.exists_of_append_cons fun part new hpart =>
    hpart.1.notMem (by decide) (by decide) (by decide) (by decide)
  refine ⟨parameters, behind, rfl, hparameters.notMem hnew hparameters₀, fun hblank => ?_⟩
  rw [Ne, (resembles_of_entered hname hclear).firstMark_eq_some_iff (by decide)]
  exact hbody (hbehind.eq_of_allBlank hW hblank ▸ hblank)

/-- The entry function is found alike with comments and without, and renamed alike or made up alike. -/
theorem woven_renameEntry {source kept : String}
    (h : Woven (Placed (EndsHeads ["run", name]) ["run", name]) source.toList kept.toList) :
    ∃ source' kept', Source.renameEntry source name = .ok source' ∧ Source.renameEntry kept name = .ok kept' ∧
      Woven (Placed (EndsHeads [name]) ["run", name]) source'.toList kept'.toList := by
  have hp : Phrased entryDeclaration (Declares "run") :=
    Source.phrased_voidDeclaration (by decide) (by decide)
  have hdeclares (code : List Char) (m : Remark) (raw clear : List Char) (hm : m.Closes raw)
      (hplaced : Placed (EndsHeads ["run", name]) ["run", name] code m clear)
      (hw : Woven (Placed (EndsHeads ["run", name]) ["run", name]) raw clear) :
      Parted entryDeclaration code m raw clear ∧ search entryDeclaration none m.chars = none :=
    hplaced.declares (by simp) (by decide) (by decide) hm hw
  unfold Source.renameEntry
  rw [h.occurs_eq hp hdeclares]
  split
  · have htemplate : '\\' ∉ ("void " ++ name ++ "(").toList := by
      simpa using hname.notMem
    refine ⟨_, _, Text.substitute_of_notMem _ source htemplate,
      Text.substitute_of_notMem _ kept htemplate, ?_⟩
    have hrewritten (cs : List Char) : Rewritten (Enters name) none cs
        (Text.replaceAll entryDeclaration (fun _ _ => ("void " ++ name ++ "(").toList) cs) :=
      hp.rewritten (fun phrase hphrase => ⟨hphrase, by simp⟩) cs
    have hresembles (cs : List Char) := resembles_of_entered hname (hrewritten cs)
    rw [String.toList_ofList, String.toList_ofList]
    refine h.replaceAll hp (fun code => (hresembles code).uncommented)
      (fun code => ((hresembles code).getLast?_eq_some_iff (by decide)).1)
      fun code m raw clear hm hplaced hw => ?_
    obtain ⟨hcut, hnone⟩ := hdeclares code m raw clear hm hplaced hw
    refine ⟨hcut, m, Text.replaceFrom_of_search_eq_none _ hnone, rfl, hm.of_head? (hresembles raw).head, ?_⟩
    exact hplaced.resembles (hresembles code) (hresembles clear)
      (hplaced.outside.entered hname hhead (hrewritten code) (hrewritten clear))
  · refine ⟨_, _, rfl, rfl, .plain ?_⟩
    have hslash : '/' ∉ (Source.fallbackEntry name).toList := by
      simp only [Source.fallbackEntry, String.toList_append, List.mem_append, not_or]
      exact ⟨⟨by decide, fun hmem => absurd (hname '/' hmem) (by decide)⟩, by decide⟩
    rw [← List.append_nil (Source.fallbackEntry name).toList]
    exact Source.uncommented_nil.append_of_notMem hslash

end Enters

/-! ### Heads that open a body -/

/-- A head up to the brace that opens the body. -/
def Opens (name : String) (phrase : List Char) : Prop :=
  ∃ decl parameters gap, Declares name decl ∧ ')' ∉ parameters ∧ AllBlank gap ∧
    phrase = decl ++ (parameters ++ ')' :: (gap ++ ['\x7b']))

theorem Opens.getLast?_eq {phrase : List Char} (h : Opens name phrase) : phrase.getLast? = some '\x7b' := by
  obtain ⟨decl, parameters, gap, -, -, -, rfl⟩ := h
  rw [List.getLast?_append_of_ne_nil _ (by simp), List.getLast?_append_of_ne_nil _ (by simp),
    ← List.cons_append, List.getLast?_concat]

section Opens

variable (hne : name.toList ≠ []) (hname : IsIdent name)

include hne hname

theorem phrased_functionHead : Phrased (functionHead name) (Opens name) := by
  have hbrace : ReadsAs (Text.word "\x7b" (Text.done ())) (· = ['\x7b']) :=
    (ReadsAs.done.word "\x7b").congr fun phrase => by simp
  have hrest := ((hbrace.blanks0 (by rintro _ rfl; exact ⟨'\x7b', [], rfl, by decide⟩)).upTo ')')
  refine ((Source.readsAs_declaration hne hname hrest).congr fun phrase => ?_).phrased ?_ ?_
  · constructor
    · rintro ⟨decl, _, hdecl, ⟨parameters, _, hparameters, ⟨gap, _, hgap, rfl, rfl⟩, rfl⟩, rfl⟩
      exact ⟨decl, parameters, gap, hdecl, hparameters, hgap, rfl⟩
    · rintro ⟨decl, parameters, gap, hdecl, hparameters, hgap, rfl⟩
      exact ⟨decl, _, hdecl, ⟨parameters, _, hparameters, ⟨gap, _, hgap, rfl, rfl⟩, rfl⟩, rfl⟩
  · rintro _ ⟨decl, parameters, gap, ⟨gap', gap'', -, -, -, rfl⟩, -, -, rfl⟩
    rfl
  · intro phrase hphrase
    rw [hphrase.getLast?_eq]
    decide

/-- A head is read only where the declaration is. -/
theorem functionHead_eq_none {cs : List Char} (h : voidDeclaration name prev cs = none) :
    functionHead name prev cs = none := by
  rw [Option.eq_none_iff_forall_ne_some]
  rintro ⟨⟨⟩, rest⟩ hr
  obtain ⟨hprev, phrase, ⟨decl, parameters, gap, hdecl, -, -, rfl⟩, rfl, -⟩ :=
    (phrased_functionHead hne hname).read_iff.1 hr
  rw [List.append_assoc, Source.voidDeclaration_append hne hname hprev hdecl] at h
  cases h

/-- No head goes on behind code that ends outside of heads. -/
theorem cut_functionHead {tail : List Char} (h : EndsHeads [name] code clear)
    (hjoins : Joins code tail = false) (hbrace : firstMark tail = some '\x7b' → firstMark clear = some '\x7b') :
    Cut (functionHead name) code tail := by
  refine (phrased_functionHead hne hname).cut (Source.joins_eq_false_iff.1 hjoins).1 ?_
  rintro before x z rfl hbefore hx hz ⟨rest, rfl⟩ ⟨decl, parameters, gap, hdecl, hparameters, hgap, heq⟩
  rcases Source.append_eq_append_cases heq.symm with ⟨a, rfl, hrest⟩ | ⟨c, b, rfl, rfl⟩
  · obtain ⟨p, b, rfl, hp, hbody⟩ := h name (by simp) before decl a rfl hbefore hdecl
    have hpass {cs : List Char} (hcs : ')' ∉ cs) : ∀ c ∈ cs, (c != ')') = true := fun c hc =>
      bne_iff_ne.2 fun he => hcs (he ▸ hc)
    rw [List.append_assoc, List.cons_append] at hrest
    obtain ⟨-, hbehind⟩ := Text.eq_of_append_eq_append (hpass hparameters) (hpass hp) rfl rfl hrest
    obtain ⟨hb, hmark⟩ := Source.divide_gap hgap (List.cons.inj hbehind).2 hz (by decide)
    exact hbody hb (hbrace (Text.firstMark_append_of_eq_some hmark rest))
  · have hjoins' := Source.tight_declares hne hname hdecl before x (c :: b)
      (parameters ++ ')' :: (gap ++ ['\x7b']) ++ rest) rfl hx (List.cons_ne_nil c b) hbefore
    rw [← List.append_assoc, hjoins] at hjoins'
    cases hjoins'

end Opens

/-! ### Lines behind heads -/

/-- A head, and the same with some lines behind it. -/
def Inserts (name : String) (lines part new : List Char) : Prop :=
  Opens name part ∧ new = part ++ lines

section Inserts

variable {lines : List Char} (h : Rewritten (Inserts name lines) prev s s')

include h

/-- Lines behind heads leave code as it is. -/
theorem uncommented_of_inserted (hlines : '/' ∉ lines) (before : List Char) (hs : Uncommented (before ++ s)) :
    Uncommented (before ++ s') := by
  induction h generalizing before with
  | nil => exact hs
  | keep c h ih =>
    rw [List.append_cons] at hs ⊢
    exact ih (before ++ [c]) hs
  | swap hprev hpart hmeets h ih =>
    obtain ⟨hopens, rfl⟩ := hpart
    obtain ⟨front, rfl⟩ := List.getLast?_eq_some_iff.1 hopens.getLast?_eq
    have hassoc (rest : List Char) :
        before ++ (front ++ ['\x7b'] ++ rest) = (before ++ front) ++ '\x7b' :: rest := by
      simp
    rw [hassoc, Source.uncommented_append_cons_iff (by decide)] at hs
    rw [List.append_assoc, hassoc, Source.uncommented_append_cons_iff (by decide)]
    exact ⟨hs.1, (ih [] hs.2).append_of_notMem hlines⟩

theorem getLast?_of_inserted (hlines : lines.getLast? = some '\n') (before : List Char)
    (hs : (before ++ s').getLast? = some '/') : (before ++ s).getLast? = some '/' := by
  induction h generalizing before with
  | nil => exact hs
  | keep c h ih =>
    rw [List.append_cons] at hs ⊢
    exact ih (before ++ [c]) hs
  | @swap prev part new t t' hprev hpart hmeets h ih =>
    obtain ⟨hopens, rfl⟩ := hpart
    have hlast : t'.getLast? = some '/' := by
      rw [← List.append_assoc, List.getLast?_append, ← List.append_assoc, List.getLast?_append, hlines] at hs
      cases ht : t'.getLast? with
      | none =>
        rw [ht] at hs
        cases hs
      | some c => rwa [ht] at hs
    have hrest := ih [] hlast
    rw [List.nil_append] at hrest
    rw [← List.append_assoc, List.getLast?_append, hrest, Option.some_or]

theorem head?_of_inserted : s'.head? = s.head? := by
  cases h with
  | nil => rfl
  | keep c h => rfl
  | swap hprev hpart hmeets h =>
    obtain ⟨hopens, rfl⟩ := hpart
    have hne : _ ≠ [] := List.ne_nil_of_mem (List.mem_of_getLast? hopens.getLast?_eq)
    rw [List.append_assoc, List.head?_append_of_ne_nil _ hne, List.head?_append_of_ne_nil _ hne]

end Inserts

private theorem notMem_intercalate {parts : List String} (h : ∀ part ∈ parts, '/' ∉ part.toList) :
    '/' ∉ ("\n".intercalate parts).toList := by
  induction parts with
  | nil => decide
  | cons part parts ih =>
    rw [List.forall_mem_cons] at h
    cases parts with
    | nil => simpa using h.1
    | cons part' parts =>
      rw [String.intercalate_cons_cons, String.toList_append, String.toList_append, List.mem_append,
        List.mem_append, not_or, not_or]
      exact ⟨⟨h.1, by decide⟩, ih h.2⟩

/-- The heads are found alike with comments and without, and get the same lines. -/
theorem stripChars_injectIndexLocals (hne : name.toList ≠ []) (hname : IsIdent name) {names : List String}
    (hmem : name ∈ names) {locals : List IndexLocal} (hlocals : ∀ l ∈ locals, '/' ∉ l.line.toList)
    {source kept : String} (h : Woven (Placed (EndsHeads [name]) names) source.toList kept.toList) :
    Source.stripChars (injectIndexLocals source name locals).toList =
      (injectIndexLocals kept name locals).toList := by
  unfold injectIndexLocals
  split
  · exact h.stripChars_eq
  · have hp := phrased_functionHead hne hname
    have hslash : '/' ∉ ("\n" ++ "\n".intercalate (locals.map (·.line)) ++ "\n").toList := by
      simp only [String.toList_append, List.mem_append, not_or]
      exact ⟨⟨by decide, notMem_intercalate (by simpa using hlocals)⟩, by decide⟩
    have hlast : ("\n" ++ "\n".intercalate (locals.map (·.line)) ++ "\n").toList.getLast? = some '\n' := by
      rw [String.toList_append, List.getLast?_append]
      rfl
    dsimp only
    generalize ("\n" ++ "\n".intercalate (locals.map (·.line)) ++ "\n").toList = lines at hslash hlast ⊢
    have hinserted (cs : List Char) : Rewritten (Inserts name lines) none cs
        (Text.replaceAll (functionHead name) (fun _ whole => whole ++ lines) cs) :=
      hp.rewritten (fun phrase hphrase => ⟨hphrase, rfl⟩) cs
    rw [String.toList_ofList, String.toList_ofList]
    refine Woven.stripChars_eq (?_ : Woven (fun _ _ _ => True) _ _)
    refine h.replaceAll hp (fun code => ?_) (fun code => ?_) fun code m raw clear hm hplaced hw => ?_
    · exact uncommented_of_inserted (hinserted code) hslash []
    · exact getLast?_of_inserted (hinserted code) hlast []
    · obtain ⟨hcut, hnone⟩ := hplaced.declares hmem hne hname hm hw
      obtain ⟨hbehind, hnone'⟩ := hcut.behind.of_reads (fun _ _ => functionHead_eq_none hne hname) hnone
      refine ⟨⟨cut_functionHead hne hname hplaced.outside (Source.joins_chars code raw m) fun hmark => ?_,
          hbehind, cut_functionHead hne hname hplaced.outside hplaced.apart fun hmark => ?_⟩,
        m, Text.replaceFrom_of_search_eq_none _ hnone', rfl, hm.of_head? ?_, trivial⟩
      · rw [Source.firstMark_chars] at hmark
        cases hmark
      · rwa [Text.firstMark_append, Text.firstMark_of_allBlank m.allBlank_gap, Option.none_or] at hmark
      · rw [head?_of_inserted (hinserted raw)]

end RenderGraph.Shader
