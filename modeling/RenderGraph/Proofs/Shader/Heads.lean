import RenderGraph.Proofs.Source.CommentedNames
import RenderGraph.Shader.Body

/-!
# Heads of entry functions

The head of a function goes from its declaration to the parenthesis that closes its parameters. A comment
stands outside of heads if every head that begins before it ends before it, and the body of the function does
not begin right behind it. This stays so when the functions are renamed.

## Main definitions

* `Shader.OutsideHeads`: a comment stands outside of the heads of some functions
* `Shader.ClosesHeads`: the same for code in a woven text
* `Shader.EndsHeads`: the same for heads that go to the first parenthesis that closes

## Main results

* `Shader.OutsideHeads.closesHeads`: comments outside of heads do not part them in a woven text
* `Shader.ClosesHeads.renamed`: heads are closed when functions are renamed
* `Shader.ClosesHeads.endsHeads`
-/

namespace RenderGraph.Shader

open Source (IsIdent Declares Renames)
open Text (AllBlank Rewritten Meets isBlank isWord isWord? firstMark markKind)

/-! ### Closing parentheses -/

variable {n : Nat} {cs front behind : List Char}

/-- What is read up to a closing parenthesis is read before any other text. -/
theorem closeParentheses_append (h : closeParentheses n cs = some (front, behind)) :
    cs = front ++ behind ∧ ∀ rest, closeParentheses n (cs ++ rest) = some (front, behind ++ rest) := by
  induction cs generalizing n front with
  | nil =>
    cases n with
    | zero =>
      cases h
      exact ⟨rfl, fun rest => by rw [closeParentheses]⟩
    | succ n => cases h
  | cons c cs ih =>
    cases n with
    | zero =>
      cases h
      exact ⟨rfl, fun rest => by rw [closeParentheses]⟩
    | succ n =>
      rw [closeParentheses] at h
      obtain ⟨⟨front', behind'⟩, hr, heq⟩ := Option.map_eq_some_iff.1 h
      cases heq
      obtain ⟨rfl, hrest⟩ := ih hr
      refine ⟨rfl, fun rest => ?_⟩
      rw [List.cons_append, closeParentheses, hrest rest]
      rfl

/-- What is read up to a closing parenthesis ends with it. -/
theorem getLast?_of_closeParentheses (h : closeParentheses (n + 1) cs = some (front, behind)) :
    front.getLast? = some ')' := by
  induction cs generalizing n front with
  | nil => cases h
  | cons c cs ih =>
    rw [closeParentheses] at h
    obtain ⟨⟨front', behind'⟩, hr, heq⟩ := Option.map_eq_some_iff.1 h
    cases heq
    have hnext {k : Nat} (hr : closeParentheses (k + 1) cs = some (front', behind')) :
        (c :: front').getLast? = some ')' := by
      rw [List.getLast?_cons, ih hr]
      rfl
    by_cases hopen : c = '('
    · rw [if_pos hopen] at hr
      exact hnext hr
    · rw [if_neg hopen] at hr
      by_cases hclose : c = ')'
      · rw [if_pos hclose] at hr
        cases n with
        | zero =>
          rw [closeParentheses] at hr
          cases hr
          rw [hclose]
          rfl
        | succ n => exact hnext hr
      · rw [if_neg hclose] at hr
        exact hnext hr

/-- Where nothing closes, the parentheses that open have to be closed later. -/
theorem closeParentheses_append_of_notMem (h : ')' ∉ cs) (n : Nat) (rest : List Char) :
    closeParentheses (n + 1) (cs ++ rest) =
      (closeParentheses (n + cs.count '(' + 1) rest).map fun r => (cs ++ r.1, r.2) := by
  induction cs generalizing n with
  | nil => simp
  | cons c cs ih =>
    rw [List.mem_cons, not_or] at h
    rw [List.cons_append, closeParentheses]
    by_cases hopen : c = '('
    · rw [if_pos hopen, ih h.2, Option.map_map, hopen, List.count_cons_self,
        show n + 1 + cs.count '(' = n + (cs.count '(' + 1) by omega]
      rfl
    · rw [if_neg hopen, if_neg (Ne.symm h.1), ih h.2, Option.map_map, List.count_cons_of_ne hopen]
      rfl

/-- What is behind a character is behind its first occurrence. -/
theorem exists_first_occurrence (z : List Char) (c : Char) (behind : List Char) :
    ∃ p b, z ++ c :: behind = p ++ c :: b ∧ c ∉ p ∧ behind <:+ b := by
  by_cases hz : c ∈ z
  · obtain ⟨p, q, rfl, hp⟩ := List.eq_append_cons_of_mem hz
    exact ⟨p, q ++ c :: behind, by simp, hp, (List.suffix_cons c behind).trans (List.suffix_append _ _)⟩
  · exact ⟨z, behind, rfl, hz, List.suffix_refl behind⟩

/-- What is read up to a closing parenthesis is read in a rewritten text as well, if the parentheses are
kept. -/
theorem closeParentheses_of_rewritten {W : List Char → List Char → Prop}
    (hW : ∀ part new, W part new → ')' ∉ part ∧ ')' ∉ new ∧ new.count '(' = part.count '(')
    {prev : Option Char} {s s' : List Char} (h : Rewritten W prev s s')
    (hclose : closeParentheses n s = some (front, behind)) :
    ∃ front' behind' prev', closeParentheses n s' = some (front', behind') ∧
      Rewritten W prev' behind behind' := by
  cases n with
  | zero =>
    rw [closeParentheses] at hclose
    cases hclose
    exact ⟨[], s', prev, by rw [closeParentheses], h⟩
  | succ n =>
    induction h generalizing n front with
    | nil => cases hclose
    | @keep prev s s' c h ih =>
      rw [closeParentheses] at hclose ⊢
      obtain ⟨⟨front, behind⟩, hread, heq⟩ := Option.map_eq_some_iff.1 hclose
      cases heq
      generalize (if c = '(' then n + 2 else if c = ')' then n else n + 1) = k at hread ⊢
      cases k with
      | zero =>
        rw [closeParentheses] at hread ⊢
        cases hread
        exact ⟨_, _, _, rfl, h⟩
      | succ k =>
        obtain ⟨front', behind', prev', hclose', h'⟩ := ih k hread
        exact ⟨_, _, prev', by rw [hclose']; rfl, h'⟩
    | @swap prev part new s s' hprev hpart hmeets h ih =>
      obtain ⟨hold, hnew, hcount⟩ := hW _ _ hpart
      rw [closeParentheses_append_of_notMem hold] at hclose
      rw [closeParentheses_append_of_notMem hnew, hcount]
      obtain ⟨⟨front, behind⟩, hread, heq⟩ := Option.map_eq_some_iff.1 hclose
      cases heq
      obtain ⟨front', behind', prev', hclose', h'⟩ := ih _ hread
      exact ⟨_, _, prev', by rw [hclose']; rfl, h'⟩

/-! ### Code that ends outside of heads -/

/-- Every head of some functions that begins in the code is closed there, and the body of the function does
not begin behind the code. -/
def ClosesHeads (names : List String) (code clear : List Char) : Prop :=
  ∀ name ∈ names, ∀ before decl rest, code = before ++ (decl ++ rest) → isWord? before.getLast? = false →
    Declares name decl → ∃ parameters behind, closeParentheses 1 rest = some (parameters, behind) ∧
      (AllBlank behind → firstMark clear ≠ some '\x7b')

/-- The same for heads that go to the first parenthesis that closes. -/
def EndsHeads (names : List String) (code clear : List Char) : Prop :=
  ∀ name ∈ names, ∀ before decl rest, code = before ++ (decl ++ rest) → isWord? before.getLast? = false →
    Declares name decl → ∃ parameters behind, rest = parameters ++ ')' :: behind ∧ ')' ∉ parameters ∧
      (AllBlank behind → firstMark clear ≠ some '\x7b')

variable {names : List String} {code code' clear clear' : List Char}

theorem ClosesHeads.endsHeads (h : ClosesHeads names code clear) : EndsHeads names code clear := by
  intro name hname before decl rest hcode hbefore hdecl
  obtain ⟨parameters, behind, hclose, hbody⟩ := h name hname before decl rest hcode hbefore hdecl
  obtain ⟨rfl, -⟩ := closeParentheses_append hclose
  obtain ⟨parameters, rfl⟩ := List.getLast?_eq_some_iff.1 (getLast?_of_closeParentheses hclose)
  obtain ⟨p, b, hfirst, hp, hb⟩ := exists_first_occurrence parameters ')' behind
  refine ⟨p, b, by rw [← hfirst, List.append_assoc]; rfl, hp, fun hblank => hbody fun c hc => ?_⟩
  exact hblank c (hb.subset hc)

/-- Heads are closed when functions are renamed. -/
theorem ClosesHeads.renamed {space : String} (hspace : IsIdent space) (hhead : space.toList.head? = some 'n')
    (hcode : Rewritten (Renames space) none code code') (hclear : Rewritten (Renames space) none clear clear')
    (h : ClosesHeads ["run", space ++ "_run"] code clear) :
    ClosesHeads ["run", space ++ "_run"] code' clear' := by
  have hW (part new : List Char) (h : Renames space part new) := h.exchanges hspace hhead
  rintro name hname before decl rest rfl hbefore hdecl
  obtain ⟨old, hold, before₀, decl₀, rest₀, prev, hcode₀, hbefore₀, hdecl₀, hrest⟩ :=
    Source.exists_declaration_of_renamed hspace hhead hname hbefore hdecl hcode
  obtain ⟨parameters₀, behind₀, hclose₀, hbody⟩ := h old hold before₀ decl₀ rest₀ hcode₀ hbefore₀ hdecl₀
  obtain ⟨parameters, behind, prev', hclose, hbehind⟩ := closeParentheses_of_rewritten (fun part new hpart =>
    ⟨hpart.notMem_part (by decide) (by decide) (by decide), hpart.notMem hspace (by decide) (by decide),
      hpart.count_eq hspace⟩) hrest hclose₀
  refine ⟨parameters, behind, hclose, fun hblank => ?_⟩
  rw [Ne, Text.eq_some_iff_of_markKind (hclear.markKind_firstMark hW) (by decide)]
  exact hbody (hbehind.eq_of_allBlank hW hblank ▸ hblank)

/-! ### Comments outside of heads -/

/-- A comment stands neither inside of the head of one of some functions nor between the head and the body. -/
def OutsideHeads (names : List String) (c : Source.Comment) : Prop :=
  ∀ name ∈ names, ∀ k < c.before.length,
    ∀ r ∈ Source.voidDeclaration name (c.before.take k).getLast? (c.before.drop k),
      ∃ r' ∈ closeParentheses 1 r.2, r'.2.all isBlank = true → firstMark c.behind ≠ some '\x7b'

instance (names : List String) (c : Source.Comment) : Decidable (OutsideHeads names c) :=
  inferInstanceAs (Decidable (∀ name ∈ names, ∀ k < c.before.length,
    ∀ r ∈ Source.voidDeclaration name (c.before.take k).getLast? (c.before.drop k),
      ∃ r' ∈ closeParentheses 1 r.2, r'.2.all isBlank = true → firstMark c.behind ≠ some '\x7b'))

/-- Comments outside of heads do not part them in a woven text. -/
theorem OutsideHeads.closesHeads {before : List Char} {m : Source.Remark}
    (hnames : ∀ name ∈ names, name.toList ≠ [] ∧ IsIdent name) (hmeets : Meets before code = false)
    (h : OutsideHeads names
      { before := before ++ code, text := m.text, behind := m.gap ++ clear, ending := m.ending }) :
    ClosesHeads names code clear := by
  rintro name hname front decl rest rfl hfront hdecl
  have hp := Source.phrased_voidDeclaration (hnames name hname).1 (hnames name hname).2
  obtain ⟨c, decl, rfl⟩ := List.exists_cons_of_ne_nil (hp.ne_nil hdecl)
  have hprev : isWord? (before ++ front).getLast? = false := by
    cases front with
    | nil =>
      have hhead : isWord? (c :: decl ++ rest).head? = true := hp.head (c :: decl) hdecl
      rw [List.nil_append, Meets, hhead, Bool.and_true] at hmeets
      rwa [List.append_nil]
    | cons d front => rwa [List.getLast?_append_of_ne_nil _ (List.cons_ne_nil d front)]
  have houtside := h name hname (before ++ front).length (by simp) ((), rest) (by
    dsimp only
    rw [← List.append_assoc, List.take_left, List.drop_left]
    exact Source.voidDeclaration_append (hnames name hname).1 (hnames name hname).2 hprev hdecl rest)
  obtain ⟨⟨parameters, behind⟩, hclose, hbody⟩ := houtside
  refine ⟨parameters, behind, hclose, fun hblank => ?_⟩
  have hmark := hbody (List.all_eq_true.2 hblank)
  rwa [Text.firstMark_append, Text.firstMark_of_allBlank m.allBlank_gap, Option.none_or] at hmark

end RenderGraph.Shader
