import Mathlib.Data.List.Infix
import RenderGraph.Proofs.Source.Asides

/-!
# Names in commented bodies

Constants and functions of a body get the name of their node in front, wherever the name of one is a word of
the body, so in comments too. If the comments stand aside, the code is renamed as it would be without them,
and the renamed comments are comments that stand aside: a new name has no mark of a comment and no break of a
line, and declares the entry function only where the old one did. There are two exceptions. A constant `Item`
would turn the directive `//Item[` into a comment, and a parenthesis that opens a line inside of a block
comment goes to the line before it with the name of a function.

## Main definitions

* `Source.Renames`: a word gets another one in front
* `Source.Unbroken`: no later line of a text opens with a parenthesis
* `Source.Renamable`: a comment stands aside, and can be renamed

## Main results

* `Source.exists_declaration_of_renamed`: a renamed text declares the entry function where the text did
* `Source.Woven.renamed`: words are renamed in the code and in its comments
* `Source.Woven.renameLocals`: all names of a body are renamed
-/

namespace RenderGraph.Source

open Text (AllBlank Phrased Meets Cut Exchanges Rewritten isWord isWord? firstMark lastMark occurs
  search)

variable {W : List Char → List Char → Prop} {prev : Option Char} {s s' cs : List Char}

/-! ### Lines that open with a parenthesis -/

/-- No line of a text but the first opens with a parenthesis. -/
def Unbroken (text : List Char) : Prop :=
  ∀ behind ∈ text.tails, behind.head? = some '\n' → firstMark behind ≠ some '('

instance (text : List Char) : Decidable (Unbroken text) :=
  inferInstanceAs (Decidable (∀ behind ∈ text.tails, behind.head? = some '\n' → firstMark behind ≠ some '('))

theorem Unbroken.firstMark_ne {before behind : List Char} (h : Unbroken (before ++ '\n' :: behind)) :
    firstMark ('\n' :: behind) ≠ some '(' :=
  h _ ((List.mem_tails _ _).2 ⟨before, rfl⟩) rfl

theorem Unbroken.rewritten (hW : ∀ part new, W part new → Exchanges part new)
    (hline : ∀ part new, W part new → '\n' ∉ new) (h : Rewritten W prev s s') (hs : Unbroken s) :
    Unbroken s' := by
  intro behind hmem hhead
  obtain ⟨before, rfl⟩ := (List.mem_tails _ _).1 hmem
  obtain ⟨behind, rfl⟩ := List.head?_eq_some_iff.1 hhead
  obtain ⟨a, b, rfl, hb⟩ := h.exists_of_notMem hline
  have hkeep : Rewritten W none ('\n' :: b) ('\n' :: behind) := .keep '\n' hb
  rw [Ne, ← Text.markKind_eq_iff (by decide), hkeep.markKind_firstMark hW, Text.markKind_eq_iff (by decide)]
  exact hs.firstMark_ne

/-! ### Renamed words -/

/-- A word that stands alone, or with an opening parenthesis behind it, gets another one in front. -/
def Renames (space : String) (part new : List Char) : Prop :=
  ∃ (name : String) (tail tail' : List Char), name.toList ≠ [] ∧ IsIdent name ∧
    part = name.toList ++ tail ∧ new = space.toList ++ '_' :: (name.toList ++ tail') ∧
    (tail = [] ∧ tail' = [] ∧ name ≠ "Item" ∨ ∃ gap, AllBlank gap ∧ tail = gap ++ ['('] ∧ tail' = ['('])

section Renames

variable {space : String} (hspace : IsIdent space) (hhead : space.toList.head? = some 'n')
  {part new : List Char}

include hspace in
private theorem Renames.words {name : String} (hname : IsIdent name) :
    ∀ c ∈ space.toList ++ '_' :: name.toList, isWord c = true := by
  rw [List.forall_mem_append, List.forall_mem_cons]
  exact ⟨fun c hc => Text.isWord_of_isIdentChar (hspace c hc), by decide,
    fun c hc => Text.isWord_of_isIdentChar (hname c hc)⟩

include hhead in
theorem Renames.head?_new (h : Renames space part new) : new.head? = some 'n' := by
  obtain ⟨name, tail, tail', -, -, -, rfl, -⟩ := h
  rw [List.head?_append, hhead]
  rfl

include hspace in
/-- The characters of a new name are those of words, up to a parenthesis at its end. -/
theorem Renames.isWord_of_mem (h : Renames space part new) :
    (∀ c ∈ new, isWord c = true ∨ c = '(') ∧ ∀ c ∈ new.dropLast, isWord c = true := by
  obtain ⟨name, tail, tail', hne, hname, -, rfl, ⟨-, rfl, -⟩ | ⟨gap, -, -, rfl⟩⟩ := h
  · have hwords := words hspace hname
    rw [List.append_nil]
    exact ⟨fun c hc => Or.inl (hwords c hc), fun c hc => hwords c (List.dropLast_subset _ hc)⟩
  · have hwords := words hspace hname
    rw [show space.toList ++ '_' :: (name.toList ++ ['(']) =
      (space.toList ++ '_' :: name.toList) ++ ['('] by simp]
    refine ⟨fun c hc => ?_, ?_⟩
    · rcases List.mem_append.1 hc with hc | hc
      · exact Or.inl (hwords c hc)
      · exact Or.inr (List.mem_singleton.1 hc)
    · rwa [List.dropLast_concat]

include hspace hhead in
theorem Renames.exchanges (h : Renames space part new) : Exchanges part new where
  head := by
    obtain ⟨name, tail, tail', hne, hname, rfl, -, -⟩ := h
    rw [List.head?_append_of_ne_nil _ hne, List.head?_eq_some_head hne]
    exact Text.isWord_of_isIdentChar (hname _ (List.head_mem hne))
  head_new := by
    rw [h.head?_new hhead]
    rfl
  last := by
    obtain ⟨name, tail, tail', hne, hname, rfl, rfl, ⟨rfl, rfl, -⟩ | ⟨gap, -, rfl, rfl⟩⟩ := h
    · rw [List.append_nil, List.getLast?_append_of_ne_nil _ (List.cons_ne_nil _ _), List.getLast?_cons,
        List.getLast?_eq_some_getLast hne]
      rfl
    · rw [← List.append_assoc, ← List.cons_append, ← List.append_assoc, List.getLast?_concat,
        List.getLast?_concat]
  ends c hc := by
    obtain ⟨name, tail, tail', hne, hname, rfl, -, ⟨rfl, -, -⟩ | ⟨gap, -, rfl, -⟩⟩ := h
    · rw [List.append_nil] at hc
      exact Text.isBlank_of_isIdentChar (hname c (List.mem_of_getLast? hc))
    · rw [← List.append_assoc, List.getLast?_concat] at hc
      cases hc
      decide
  slash hmem := by
    rcases (h.isWord_of_mem hspace).1 _ hmem with hword | hword
    · cases hword
    · cases hword

theorem Renames.sparesMetadata : SparesMetadata (Renames space) := by
  rintro part new s ⟨name, tail, tail', hne, hname, rfl, -, htail⟩ hmeets ⟨rest, hrest⟩
  have hword : ∀ c ∈ name.toList, isWord c = true := fun c hc => Text.isWord_of_isIdentChar (hname c hc)
  have hbehind : isWord? (tail ++ s).head? = false := by
    rcases htail with ⟨rfl, -, -⟩ | ⟨gap, hgap, rfl, -⟩
    · rw [List.append_nil, Meets, List.getLast?_eq_some_getLast hne,
        show isWord? (some _) = isWord _ from rfl, hword _ (List.getLast_mem hne)] at hmeets
      exact hmeets
    · cases gap with
      | nil => rfl
      | cons c gap => exact hgap.isWord_eq_false c List.mem_cons_self
  rw [List.append_assoc] at hrest
  have hitem : ∀ c ∈ "Item".toList, isWord c = true := List.all_eq_true.1 (by decide)
  obtain ⟨heq, hbracket⟩ :=
    Text.eq_of_append_eq_append hword hitem hbehind (t := '[' :: rest) rfl hrest.symm
  rcases htail with ⟨-, -, hne⟩ | ⟨gap, hgap, rfl, -⟩
  · exact hne (String.toList_inj.1 heq)
  · cases gap with
    | nil => cases hbracket
    | cons c gap =>
      obtain ⟨rfl, -⟩ := List.cons.inj hbracket
      exact absurd (hgap '[' List.mem_cons_self) (by decide)

theorem Renames.notMem_part (h : Renames space part new) {c : Char} (hc : Text.isIdentChar c = false)
    (hblank : Text.isBlank c = false) (hne : c ≠ '(') : c ∉ part := by
  obtain ⟨name, tail, tail', -, hname, rfl, -, htail⟩ := h
  have hmem : c ∉ name.toList := fun hmem => Bool.eq_false_iff.1 hc (hname c hmem)
  rcases htail with ⟨rfl, -, -⟩ | ⟨gap, hgap, rfl, -⟩
  · rwa [List.append_nil]
  · simp only [List.mem_append, List.mem_singleton, not_or]
    exact ⟨hmem, fun hmem => Bool.eq_false_iff.1 hblank (hgap c hmem), hne⟩

include hspace in
theorem Renames.notMem (h : Renames space part new) {c : Char} (hc : isWord c = false) (hne : c ≠ '(') :
    c ∉ new := by
  intro hmem
  rcases (h.isWord_of_mem hspace).1 c hmem with hword | heq
  · rw [hc] at hword
    cases hword
  · exact hne heq

include hspace in
/-- A new name has as many parentheses as the old one. -/
theorem Renames.count_eq (h : Renames space part new) : new.count '(' = part.count '(' := by
  obtain ⟨name, tail, tail', -, hname, rfl, rfl, htail⟩ := h
  have hcount {cs : List Char} (h : ∀ c ∈ cs, isWord c = true ∨ Text.isBlank c = true) (rest : List Char) :
      (cs ++ rest).count '(' = rest.count '(' := by
    have hzero : cs.count '(' = 0 := List.count_eq_zero.2 fun hmem => absurd (h _ hmem) (by decide)
    rw [List.count_append, hzero, Nat.zero_add]
  rw [show space.toList ++ '_' :: (name.toList ++ tail') =
      (space.toList ++ '_' :: name.toList) ++ tail' by simp,
    hcount fun c hc => Or.inl (words hspace hname c hc),
    hcount fun c hc => Or.inl (Text.isWord_of_isIdentChar (hname c hc))]
  rcases htail with ⟨rfl, rfl, -⟩ | ⟨gap, hgap, rfl, rfl⟩
  · rfl
  · rw [hcount fun c hc => Or.inr (hgap c hc)]

/-- An old name stands on one line, or has a parenthesis that opens a line. -/
theorem Renames.firstMark_eq {x z : List Char} (h : Renames space (x ++ '\n' :: z) new) :
    firstMark ('\n' :: z) = some '(' := by
  obtain ⟨name, tail, tail', -, hname, hpart, -, htail⟩ := h
  have hline {a : List Char} : name.toList ≠ x ++ '\n' :: a := fun heq =>
    absurd (hname '\n' (heq ▸ by simp)) (by decide)
  rcases htail with ⟨rfl, -, -⟩ | ⟨gap, hgap, rfl, -⟩
  · rw [List.append_nil] at hpart
    exact absurd hpart.symm hline
  · have hmark {b : List Char} (hb : AllBlank b) : firstMark (b ++ ['(']) = some '(' := by
      rw [Text.firstMark_append, Text.firstMark_of_allBlank hb]
      rfl
    rcases List.append_eq_append_iff.1 hpart with ⟨a, hx, hbehind⟩ | ⟨a, rfl, hbehind⟩
    · cases a with
      | nil =>
        rw [hbehind]
        exact hmark hgap
      | cons c a =>
        obtain ⟨rfl, -⟩ := List.cons.inj hbehind
        exact absurd hx hline
    · rcases List.append_eq_append_iff.1 hbehind with ⟨b, -, hlast⟩ | ⟨b, rfl, hlast⟩
      · cases b with
        | nil => cases hlast
        | cons c b => simp at hlast
      · rw [hlast]
        exact hmark (List.forall_mem_append.1 hgap).2

end Renames

/-! ### Declarations in renamed comments -/

section Silent

variable {space name : String} (hspace : IsIdent space) (hhead : space.toList.head? = some 'n')

include hspace

/-- The entry function has a name, before it is renamed and behind. -/
theorem isIdent_entry (h : name ∈ ["run", space ++ "_run"]) : name.toList ≠ [] ∧ IsIdent name := by
  rcases List.mem_pair.1 h with rfl | rfl
  · decide
  · exact ⟨by simp, hspace.append (by decide)⟩

include hhead

/-- The word with which a declaration opens is kept. -/
private theorem exists_void {before u : List Char}
    (h : Rewritten (Renames space) prev s (before ++ ("void".toList ++ u)))
    (hbefore : isWord? (before.getLast?.or prev) = false) :
    ∃ a t, s = a ++ ("void".toList ++ t) ∧ isWord? (a.getLast?.or prev) = false ∧
      Rewritten (Renames space) (some 'd') t u := by
  have hW (part new : List Char) (h : Renames space part new) := h.exchanges hspace hhead
  have h : Rewritten (Renames space) prev s (before ++ 'v' :: ('o' :: 'i' :: 'd' :: u)) := h
  obtain ⟨a, b, rfl, ha, hb⟩ := h.exists_of_append hW
    (fun part new hpart => ⟨by simp [hpart.head?_new hhead], (hpart.isWord_of_mem hspace).2⟩) hbefore
  obtain ⟨t, rfl, ht⟩ := hb.exists_of_words hW (w := ['o', 'i', 'd']) (List.all_eq_true.1 (by decide)) rfl
  exact ⟨a, t, rfl, ha, ht⟩

/-- A renamed text ends with the first word of a declaration only if the text does. -/
theorem endsInWord_of_renamed (h : Rewritten (Renames space) none s s')
    (hends : Text.endsInWord "void" s' = true) : Text.endsInWord "void" s = true := by
  have hW (part new : List Char) (h : Renames space part new) := h.exchanges hspace hhead
  obtain ⟨before, gap, rfl, hbefore, hgap⟩ := Text.exists_of_endsInWord hends
  obtain ⟨a, t, rfl, ha, ht⟩ := exists_void hspace hhead h (by rwa [Option.or_none])
  rw [← List.append_nil gap] at ht
  obtain ⟨t, rfl, ht'⟩ := ht.exists_of_gap hW hgap
  obtain rfl := ht'.eq_nil hW
  rw [Option.or_none] at ha
  rw [List.append_nil]
  exact Text.endsInWord_append (by decide) ha hgap

/-- A use of a function in a renamed text is one in the text, under its name or under the one it had. -/
private theorem exists_use (hname : name.toList ≠ []) (hident : IsIdent name) {gap rest : List Char}
    (hgap : AllBlank gap) (h : Rewritten (Renames space) prev s (name.toList ++ (gap ++ '(' :: rest))) :
    ∃ (old : String) (gap' rest' : List Char) (prev' : Option Char),
      (name = old ∨ name = space ++ "_" ++ old) ∧ AllBlank gap' ∧
        s = old.toList ++ (gap' ++ '(' :: rest') ∧ Rewritten (Renames space) prev' rest' rest := by
  have hW (part new : List Char) (h : Renames space part new) := h.exchanges hspace hhead
  have hopen (part new : List Char) (hpart : Renames space part new) : new.head? ≠ some '(' := by
    simp [hpart.head?_new hhead]
  have hword : ∀ c ∈ name.toList, isWord c = true := fun c hc => Text.isWord_of_isIdentChar (hident c hc)
  generalize hu : name.toList ++ (gap ++ '(' :: rest) = u at h
  cases h with
  | nil => simp at hu
  | @keep _ t t' c h =>
    obtain ⟨d, cs, hcs⟩ := List.exists_cons_of_ne_nil hname
    rw [hcs, List.cons_append] at hu
    obtain ⟨rfl, rfl⟩ := List.cons.inj hu
    rw [hcs, List.forall_mem_cons] at hword
    obtain ⟨t, rfl, h₁⟩ := h.exists_of_words hW hword.2 hword.1
    obtain ⟨t, rfl, h₂⟩ := h₁.exists_of_gap hW hgap
    obtain ⟨t, rfl, h₃⟩ := h₂.exists_of_cons hW (Or.inr hopen)
    exact ⟨name, gap, t, _, Or.inl rfl, hgap, by rw [hcs]; rfl, h₃⟩
  | @swap _ part new t t' hprev hpart hmeets h =>
    obtain ⟨old, tail, tail', hne, hold, rfl, rfl, htail⟩ := hpart
    have hbehind : isWord? (tail' ++ t').head? = false := by
      rcases htail with ⟨rfl, rfl, -⟩ | ⟨-, -, -, rfl⟩
      · rw [List.append_nil, Meets, List.getLast?_eq_some_getLast hne,
          show isWord? (some _) = isWord _ from rfl,
          Text.isWord_of_isIdentChar (hold _ (List.getLast_mem hne))] at hmeets
        rw [List.nil_append, Text.isWord?_eq_of_markKind (h.markKind_head? hW)]
        exact hmeets
      · rfl
    have hgap' : isWord? (gap ++ '(' :: rest).head? = false := by
      cases gap with
      | nil => rfl
      | cons c gap => exact hgap.isWord_eq_false c List.mem_cons_self
    rw [show space.toList ++ '_' :: (old.toList ++ tail') ++ t' =
      (space.toList ++ '_' :: old.toList) ++ (tail' ++ t') by simp] at hu
    obtain ⟨heq, hrest⟩ := Text.eq_of_append_eq_append hword (Renames.words hspace hold) hgap' hbehind hu
    have hnew : name = space ++ "_" ++ old := by
      rw [← String.toList_inj, heq]
      simp
    rcases htail with ⟨rfl, rfl, -⟩ | ⟨gap', hblank, rfl, rfl⟩
    · rw [List.nil_append] at hrest
      rw [← hrest] at h
      obtain ⟨t, rfl, h₁⟩ := h.exists_of_gap hW hgap
      obtain ⟨t, rfl, h₂⟩ := h₁.exists_of_cons hW (Or.inr hopen)
      exact ⟨old, gap, t, _, Or.inr hnew, hgap, by rw [List.append_nil], h₂⟩
    · rw [List.singleton_append] at hrest
      obtain rfl : rest = t' := by
        cases gap with
        | nil => exact (List.cons.inj hrest).2
        | cons c gap =>
          obtain ⟨rfl, -⟩ := List.cons.inj hrest
          exact absurd (hgap '(' List.mem_cons_self) (by decide)
      exact ⟨old, gap', t, _, Or.inr hnew, hblank, by simp, h⟩

/-- A declaration of the entry function in a renamed text, under its own name or the one that it gets, is one
in the text. -/
theorem exists_declaration_of_renamed (hname : name ∈ ["run", space ++ "_run"]) {before decl rest : List Char}
    (hbefore : isWord? before.getLast? = false) (hdecl : Declares name decl)
    (h : Rewritten (Renames space) none s (before ++ (decl ++ rest))) :
    ∃ old ∈ ["run", space ++ "_run"], ∃ (a decl' rest' : List Char) (prev' : Option Char),
      s = a ++ (decl' ++ rest') ∧ isWord? a.getLast? = false ∧ Declares old decl' ∧
        Rewritten (Renames space) prev' rest' rest := by
  have hW (part new : List Char) (h : Renames space part new) := h.exchanges hspace hhead
  have hident := isIdent_entry hspace hname
  obtain ⟨gap, gap', hne, hgap, hgap', rfl⟩ := hdecl
  simp only [List.append_assoc, List.singleton_append] at h
  obtain ⟨a, t, rfl, ha, ht⟩ := exists_void hspace hhead h (by rwa [Option.or_none])
  obtain ⟨t, rfl, ht'⟩ := ht.exists_of_gap hW hgap
  obtain ⟨old, gap₁, rest₁, prev', hold, hgap₁, rfl, hrest⟩ :=
    exists_use hspace hhead hident.1 hident.2 hgap' ht'
  rw [Option.or_none] at ha
  -- Before the renaming, the function had its name, or it was the entry function.
  refine ⟨old, ?_, a, _, rest₁, prev', by simp, ha, ⟨gap, gap₁, hne, hgap, hgap₁, rfl⟩, hrest⟩
  rcases hold with rfl | hold
  · exact hname
  · refine List.mem_pair.2 (Or.inl ?_)
    rcases List.mem_pair.1 hname with rfl | rfl
    · have := congrArg (fun s : String => s.toList.head?) hold
      simp [List.head?_append, hhead] at this
    · rw [String.append_assoc, String.append_right_inj, show "_run" = "_" ++ "run" by decide,
        String.append_right_inj] at hold
      exact hold.symm

/-- A text that does not declare the entry function does not when it is renamed. -/
theorem silent_of_renamed (hs : ∀ name ∈ ["run", space ++ "_run"], occurs (voidDeclaration name) s = false)
    (h : Rewritten (Renames space) none s s') :
    ∀ name ∈ ["run", space ++ "_run"], occurs (voidDeclaration name) s' = false := by
  have hident {name : String} (hname : name ∈ ["run", space ++ "_run"]) := isIdent_entry hspace hname
  intro name hname
  rw [← Bool.not_eq_true, occurs_voidDeclaration_iff (hident hname).1 (hident hname).2]
  rintro ⟨before, decl, rest, rfl, hbefore, hdecl⟩
  obtain ⟨old, hold, a, decl', rest', -, hs', ha, hdecl', -⟩ :=
    exists_declaration_of_renamed hspace hhead hname hbefore hdecl h
  have hsilent := hs old hold
  rw [(occurs_voidDeclaration_iff (hident hold).1 (hident hold).2).2
    ⟨a, decl', rest', hs', ha, hdecl'⟩] at hsilent
  cases hsilent

end Silent

/-! ### Renaming in woven texts -/

/-- A comment that stands aside, in a place with some property, and does not declare the entry function under
its own name or the one that it gets. -/
def Renamable (Outside : List Char → List Char → Prop) (space : String) (code : List Char) (m : Remark)
    (clear : List Char) : Prop :=
  Placed Outside ["run", space ++ "_run"] code m clear ∧ Unbroken m.text

/-- What is done with one name after the other keeps woven texts woven. -/
private theorem Woven.foldlM {Ok : List Char → Remark → List Char → Prop}
    (rename : String → String → Except Fault String) (names : List String)
    (hstep : ∀ name ∈ names, ∀ s c : String, Woven Ok s.toList c.toList →
      ∃ s' c', rename s name = .ok s' ∧ rename c name = .ok c' ∧ Woven Ok s'.toList c'.toList)
    {s c : String} (h : Woven Ok s.toList c.toList) :
    ∃ s' c', names.foldlM rename s = .ok s' ∧ names.foldlM rename c = .ok c' ∧
      Woven Ok s'.toList c'.toList := by
  induction names generalizing s c with
  | nil => exact ⟨s, c, rfl, rfl, h⟩
  | cons name names ih =>
    rw [List.forall_mem_cons] at hstep
    obtain ⟨s₁, c₁, hs₁, hc₁, h₁⟩ := hstep.1 s c h
    obtain ⟨s', c', hs', hc', h'⟩ := ih hstep.2 h₁
    exact ⟨s', c', by rw [List.foldlM_cons, hs₁]; exact hs', by rw [List.foldlM_cons, hc₁]; exact hc', h'⟩

section Woven

variable {Outside : List Char → List Char → Prop} {space : String} (hspace : IsIdent space)
  (hhead : space.toList.head? = some 'n')
  (hout : ∀ {code code' clear clear' : List Char}, Rewritten (Renames space) none code code' →
    Rewritten (Renames space) none clear clear' → Outside code clear → Outside code' clear')

include hspace

/-- The text of a comment keeps its breaks of lines when it is renamed. -/
theorem breaks_of_renamed (h : Rewritten (Renames space) none s s') (hs : Unbroken s) :
    breaks s' = breaks s := by
  refine h.and_infix.filter_eq ?_
  rintro part new ⟨hpart, before, behind, hpart'⟩
  have hnew : breaks new = [] := List.filter_eq_nil_iff.2 fun c hc => by
    have := hpart.notMem hspace (c := '\n') (by decide) (by decide)
    simpa using fun he : c = '\n' => this (he ▸ hc)
  have hold : breaks part = [] := List.filter_eq_nil_iff.2 fun c hc => by
    rw [decide_eq_true_eq]
    rintro rfl
    obtain ⟨x, z, rfl⟩ := List.append_of_mem hc
    have hmark := hpart.firstMark_eq
    rw [show before ++ (x ++ '\n' :: z) ++ behind = (before ++ x) ++ '\n' :: (z ++ behind) by simp] at hpart'
    rw [← hpart'] at hs
    refine hs.firstMark_ne ?_
    rw [← List.cons_append, Text.firstMark_append_of_eq_some hmark]
  exact hnew.trans hold.symm

include hhead hout

/-- A woven text is woven when words are renamed. -/
theorem Woven.renamed {p : Text.Pattern Unit} {Phrase : List Char → Prop} (hp : Phrased p Phrase)
    (ht : ∀ phrase, Phrase phrase → Tight phrase) {f : Unit → List Char → List Char}
    (hf : ∀ phrase, Phrase phrase → Renames space phrase (f () phrase)) {raw clear : List Char}
    (h : Woven (Renamable Outside space) raw clear) :
    Woven (Renamable Outside space) (Text.replaceAll p f raw) (Text.replaceAll p f clear) := by
  have hW (part new : List Char) (h : Renames space part new) := h.exchanges hspace hhead
  have hrewritten (cs : List Char) := hp.rewritten hf cs
  have hresembles (cs : List Char) := resembles_of_rewritten hW Renames.sparesMetadata (hrewritten cs)
    (endsInWord_of_renamed hspace hhead (hrewritten cs))
  refine h.replaceAll hp (fun code => (hresembles code).uncommented)
    (fun code => ((hresembles code).getLast?_eq_some_iff (by decide)).1) fun code m raw clear hm hok hw => ?_
  obtain ⟨hplaced, hbroken⟩ := hok
  have htext := hrewritten m.text
  have hbreaks := breaks_of_renamed hspace htext hbroken
  have hslash (phrase : List Char) (hphrase : Phrase phrase) : '/' ∉ phrase :=
    (hf phrase hphrase).notMem_part (by decide) (by decide) (by decide)
  refine ⟨hplaced.parted hp ht hslash hm hw,
    { m with text := Text.replaceAll p f m.text }, replaceAll_chars hp ht f m, ?_, ?_, ?_, ?_⟩
  · simp only [Remark.gap, hbreaks]
  · obtain ⟨ending, text⟩ := m
    have hhead' := (hresembles raw).head
    have hclose (h : ¬ ['*', '/'] <:+: text) : ¬ ['*', '/'] <:+: Text.replaceAll p f text :=
      not_infix_of_rewritten hW (fun part new hpart => hpart.notMem hspace (by decide) (by decide)) htext h
    cases ending with
    | line =>
      obtain ⟨hline, hmeta, hraw⟩ := hm
      rw [← breaks_eq_nil_iff] at hline
      refine Remark.Closes.of_head? ⟨breaks_eq_nil_iff.1 (hbreaks.trans hline), ?_, hraw⟩ hhead'
      rw [← Bool.not_eq_true] at hmeta ⊢
      exact fun h => hmeta (opensMetadata_of_opensMetadata hW
        (fun part new hpart => by simp [hpart.head?_new hhead]) htext h)
    | block => exact hclose hm
    | never => exact Remark.Closes.of_head? ⟨hclose hm.1, hm.2⟩ hhead'
  · have hgap : Remark.gap { m with text := Text.replaceAll p f m.text } = m.gap := by
      simp only [Remark.gap, hbreaks]
    have haround : Placed Outside _ _ m _ := hplaced.resembles (hresembles code) (hresembles clear)
      (hout (hrewritten code) (hrewritten clear) hplaced.outside)
    refine ⟨haround.outside, by rw [hgap]; exact haround.apart, fun hline => ?_,
      silent_of_renamed hspace hhead hplaced.silent htext⟩
    exact (hresembles m.text).spans_eq_false (hresembles clear) (hplaced.ended hline)
  · exact hbroken.rewritten hW (fun part new hpart => hpart.notMem hspace (by decide) (by decide)) htext

/-- A constant is renamed alike in the code and in its comments. -/
theorem Woven.renameConstant {name s c : String} (hne : name.toList ≠ []) (hname : IsIdent name)
    (hitem : name ≠ "Item") (h : Woven (Renamable Outside space) s.toList c.toList) :
    ∃ s' c', renameConstant space name s = .ok s' ∧ renameConstant space name c = .ok c' ∧
      Woven (Renamable Outside space) s'.toList c'.toList := by
  have hwords : ∀ d ∈ name.toList, isWord d = true := fun d hd => Text.isWord_of_isIdentChar (hname d hd)
  have htemplate : '\\' ∉ (space ++ "_" ++ name).toList :=
    ((hspace.append (b := "_") (by decide)).append hname).notMem
  refine ⟨_, _, Text.substitute_of_notMem _ s htemplate, Text.substitute_of_notMem _ c htemplate, ?_⟩
  rw [String.toList_ofList, String.toList_ofList]
  refine h.renamed hspace hhead hout (Text.phrased_wholeWord hne hwords) ?_ ?_
  · rintro _ rfl
    exact tight_of_isWord hwords
  · rintro _ rfl
    exact ⟨name, [], [], hne, hname, by simp, by simp, Or.inl ⟨rfl, rfl, hitem⟩⟩

/-- A function is renamed alike in the code and in its comments. -/
theorem Woven.renameHelper {name s c : String} (hne : name.toList ≠ []) (hname : IsIdent name)
    (h : Woven (Renamable Outside space) s.toList c.toList) :
    ∃ s' c', renameHelper space name s = .ok s' ∧ renameHelper space name c = .ok c' ∧
      Woven (Renamable Outside space) s'.toList c'.toList := by
  have htemplate : '\\' ∉ (space ++ "_" ++ name ++ "(").toList := by
    simpa using ⟨hspace.notMem, hname.notMem⟩
  refine ⟨_, _, Text.substitute_of_notMem _ s htemplate, Text.substitute_of_notMem _ c htemplate, ?_⟩
  rw [String.toList_ofList, String.toList_ofList]
  refine h.renamed hspace hhead hout (phrased_functionUse hne hname) (fun _ => tight_uses hne hname) ?_
  rintro _ ⟨gap, hgap, rfl⟩
  exact ⟨name, gap ++ ['('], ['('], hne, hname, rfl, by simp, Or.inr ⟨gap, hgap, rfl, rfl⟩⟩

/-- All names are renamed alike in the code and in its comments. -/
theorem Woven.renameLocals {s c : String} (hitem : "Item" ∉ constants s)
    (h : Woven (Renamable Outside space) s.toList c.toList) :
    ∃ s' c', renameLocals s space = .ok s' ∧ renameLocals c space = .ok c' ∧
      Woven (Renamable Outside space) s'.toList c'.toList := by
  -- The names that are declared are found in what is kept, which is the same.
  have hkept {s c : String} (h : Woven (Renamable Outside space) s.toList c.toList) :
      stripChars s.toList = stripChars c.toList := by
    rw [← h.stripChars_eq, stripChars_stripChars]
  have hconstants : constants c = constants s := by rw [constants, constants, hkept h]
  obtain ⟨s₁, c₁, hs₁, hc₁, h₁⟩ := Woven.foldlM (fun code name => Source.renameConstant space name code)
    (constants s) (fun name hname s c h => by
      obtain ⟨hne, hident⟩ := ne_nil_and_isIdent_of_mem_constants hname
      exact h.renameConstant hspace hhead hout hne hident fun he => hitem (he ▸ hname)) h
  have hhelpers : helpers c₁ = helpers s₁ := by rw [helpers, helpers, hkept h₁]
  obtain ⟨s', c', hs', hc', h'⟩ := Woven.foldlM (fun code name => Source.renameHelper space name code)
    (helpers s₁) (fun name hname s c h => by
      obtain ⟨hne, hident⟩ := ne_nil_and_isIdent_of_mem_helpers hname
      exact h.renameHelper hspace hhead hout hne hident) h₁
  refine ⟨s', c', ?_, ?_, h'⟩
  · rw [Source.renameLocals, hs₁]
    exact hs'
  · rw [Source.renameLocals, hconstants, hc₁]
    rw [← hhelpers] at hc'
    exact hc'

end Woven

end RenderGraph.Source
