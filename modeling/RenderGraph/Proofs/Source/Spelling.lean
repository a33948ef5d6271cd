import Mathlib.Data.List.TakeWhile
import RenderGraph.Proofs.Numeric.Marks
import RenderGraph.Proofs.Source.Renaming
import RenderGraph.Proofs.Source.Signature
import RenderGraph.Proofs.Text.Searching

/-!
# Texts and their words

A text is put together from names, blanks, symbols and numbers. Its tokens are those of its parts, as long
as no part goes on with the identifier that ends the part before it; of a number only the letters are
tokens. So a text that spells an entry function is read as one, whatever numbers it holds.

## Main definitions

* `Source.IsName`: an identifier
* `Source.Spells`: a text on one line, without comments, and the words that are read in it

## Main results

* `Source.Spells.append`, `Source.Spells.name`, `Source.exists_spells_of_marked`: how texts are put together
* `Source.overloads_of_spells`: a text that spells one entry function has one overload
-/

namespace RenderGraph.Source

open Text (isBlank isIdentChar isIdentStart split)
open Number (IsMark)

/-! ### Names -/

/-- The text is an identifier, and does not open with a digit. -/
structure IsName (name : String) : Prop where
  start : name.toList.head?.any isIdentStart = true
  ident : IsIdent name

instance (name : String) : Decidable (IsName name) :=
  decidable_of_iff (name.toList.head?.any isIdentStart = true ∧ name.toList.all isIdentChar = true)
    ⟨fun h => ⟨h.1, List.all_eq_true.1 h.2⟩, fun h => ⟨h.start, List.all_eq_true.2 h.ident⟩⟩

theorem IsName.ne_nil {name : String} (h : IsName name) : name.toList ≠ [] := by
  intro hnil
  have hstart := h.start
  rw [hnil] at hstart
  cases hstart

/-- The words of all types that are no arrays are names. -/
theorem isName_plainName {t : DataType} (h : t.isArray = false) : IsName t.name := by
  cases t with
  | array e => cases h
  | _ => decide +kernel

/-! ### Spelling -/

/-- The text does not go on with an identifier that stands before it. -/
def StandsApart (cs : List Char) : Prop :=
  ∀ c ∈ cs.head?, isIdentChar c = false

/-- The text stands on one line, has no comments, and its tokens are the given words. -/
structure Spells (cs : List Char) (words : List String) : Prop where
  uncommented : '/' ∉ cs
  tokens : ∀ rest line, StandsApart rest → ∃ tokens,
    tokensFrom line (cs ++ rest) = tokens ++ tokensFrom line rest ∧ tokens.map (·.text) = words

namespace Spells

variable {cs ds : List Char} {words words' : List String} {c : Char}

theorem nil : Spells [] [] where
  uncommented := List.not_mem_nil
  tokens _ _ _ := ⟨[], rfl, rfl⟩

theorem append (h : Spells cs words) (h' : Spells ds words') (hd : StandsApart ds) :
    Spells (cs ++ ds) (words ++ words') where
  uncommented hmem := (List.mem_append.1 hmem).elim h.uncommented h'.uncommented
  tokens rest line hrest := by
    have hbehind : StandsApart (ds ++ rest) := by
      cases ds with
      | nil => exact hrest
      | cons d ds => exact hd
    obtain ⟨front, hfront, rfl⟩ := h.tokens (ds ++ rest) line hbehind
    obtain ⟨back, hback, rfl⟩ := h'.tokens rest line hrest
    refine ⟨front ++ back, ?_, List.map_append⟩
    rw [List.append_assoc, hfront, hback, List.append_assoc]

/-- A character that is read without becoming a token or part of one. -/
theorem skip (h : Spells cs words) (hc : c ≠ '/' ∧ c ≠ '\n' ∧ c ≠ '#')
    (hn : isBlank c = true ∨ isIdentStart c = false ∧ isSymbol c = false) : Spells (c :: cs) words where
  uncommented hmem := (List.mem_cons.1 hmem).elim (Ne.symm hc.1) h.uncommented
  tokens rest line hrest := by
    obtain ⟨tokens, htokens, hwords⟩ := h.tokens rest line hrest
    refine ⟨tokens, ?_, hwords⟩
    have hopens : opensDirective c (cs ++ rest) = false := by
      simp [opensDirective, hc.1, hc.2.2]
    rw [List.cons_append, tokensFrom, if_neg hc.2.1]
    rcases hn with hblank | ⟨hstart, hsymbol⟩
    · rw [if_pos hblank, htokens]
    · split
      · exact htokens
      · rw [hopens, if_neg Bool.false_ne_true, hstart, if_neg Bool.false_ne_true, hsymbol,
          if_neg Bool.false_ne_true, htokens]

/-- A blank. -/
theorem blank (h : Spells cs words) : Spells (' ' :: cs) words :=
  h.skip (by decide) (Or.inl (by decide))

/-- A bracket or a separator. -/
theorem symbol (h : Spells cs words) (hc : isSymbol c = true) : Spells (c :: cs) (c.toString :: words) := by
  have hall : ∀ d ∈ ['(', ')', ',', ';', '{', '}', '[', ']'], d ≠ '/' ∧ d ≠ '\n' ∧ d ≠ '#' ∧
      isBlank d = false ∧ isIdentStart d = false :=
    Text.forall_mem_of_all (by decide)
  obtain ⟨hslash, hline, hhash, hblank, hstart⟩ := hall c (by simpa [isSymbol] using hc)
  refine ⟨fun hmem => (List.mem_cons.1 hmem).elim (Ne.symm hslash) h.uncommented, ?_⟩
  intro rest line hrest
  obtain ⟨tokens, htokens, rfl⟩ := h.tokens rest line hrest
  have hopens : opensDirective c (cs ++ rest) = false := by
    simp [opensDirective, hslash, hhash]
  refine ⟨{ kind := .symbol, text := c.toString, line } :: tokens, ?_, rfl⟩
  rw [List.cons_append, tokensFrom, if_neg hline, hblank, if_neg Bool.false_ne_true, hopens,
    if_neg Bool.false_ne_true, hstart, if_neg Bool.false_ne_true, hc, if_pos rfl, htokens]
  rfl

end Spells

/-- What stands apart does not change how far an identifier goes. -/
private theorem takeWhile_append {cs rest : List Char}
    (h : cs.dropWhile isIdentChar = [] → StandsApart rest) :
    (cs ++ rest).takeWhile isIdentChar = cs.takeWhile isIdentChar ∧
      (cs ++ rest).dropWhile isIdentChar = cs.dropWhile isIdentChar ++ rest := by
  induction cs with
  | nil =>
    cases rest with
    | nil => exact ⟨rfl, rfl⟩
    | cons c rest =>
      have hc : isIdentChar c = false := h rfl c rfl
      simp [hc]
  | cons c cs ih =>
    rw [List.cons_append, List.takeWhile_cons, List.takeWhile_cons, List.dropWhile_cons,
      List.dropWhile_cons]
    split
    · next hc =>
      rw [List.dropWhile_cons_of_pos hc] at h
      exact ⟨congrArg (c :: ·) (ih h).1, (ih h).2⟩
    · exact ⟨rfl, rfl⟩

/-- An identifier, and what follows it. -/
private theorem Spells.ident {c : Char} {cs : List Char} {words : List String}
    (hc : isIdentStart c = true) (h : Spells (cs.dropWhile isIdentChar) words) :
    Spells (c :: cs) (String.ofList (c :: cs.takeWhile isIdentChar) :: words) := by
  have hother : ∀ d, isIdentStart d = false → c ≠ d := by
    rintro d hd rfl
    rw [hd] at hc
    cases hc
  have hslash : '/' ∉ cs := by
    intro hmem
    rw [← List.takeWhile_append_dropWhile (p := isIdentChar) (l := cs)] at hmem
    refine (List.mem_append.1 hmem).elim (fun hfront => ?_) h.uncommented
    exact absurd (List.all_eq_true.1 List.all_takeWhile _ hfront) (by decide)
  have hblank : isBlank c = false :=
    Text.isBlank_of_isIdentChar (Text.isIdentChar_of_isIdentStart hc)
  refine ⟨fun hmem => (List.mem_cons.1 hmem).elim (hother '/' (by decide) ∘ Eq.symm) hslash, ?_⟩
  intro rest line hrest
  obtain ⟨tokens, htokens, rfl⟩ := h.tokens rest line hrest
  have hopens : opensDirective c (cs ++ rest) = false := by
    simp [opensDirective, hother '/' (by decide), hother '#' (by decide)]
  refine ⟨{ kind := .identifier, text := String.ofList (c :: cs.takeWhile isIdentChar), line } :: tokens,
    ?_, rfl⟩
  rw [List.cons_append, tokensFrom, if_neg (hother '\n' (by decide)), hblank, if_neg Bool.false_ne_true,
    hopens, if_neg Bool.false_ne_true, hc, if_pos rfl, (takeWhile_append fun _ => hrest).1,
    (takeWhile_append fun _ => hrest).2, htokens]
  rfl

/-- A name. -/
theorem Spells.name {name : String} (h : IsName name) : Spells name.toList [name] := by
  obtain ⟨hstart, hident⟩ := h
  cases hname : name.toList with
  | nil =>
    rw [hname] at hstart
    cases hstart
  | cons c cs =>
    rw [hname] at hstart
    have hcs : ∀ d ∈ cs, isIdentChar d = true := fun d hd => hident d (hname ▸ List.mem_cons_of_mem c hd)
    have hword : String.ofList (c :: cs.takeWhile isIdentChar) = name := by
      rw [List.takeWhile_eq_self_iff.2 hcs, ← hname, String.ofList_toList]
    have hrest : cs.dropWhile isIdentChar = [] := List.dropWhile_eq_nil_iff.2 hcs
    rw [← hword]
    refine .ident hstart ?_
    rw [hrest]
    exact .nil

/-- The characters of numbers are no symbols. -/
private theorem isSymbol_of_isMark {c : Char} (h : IsMark c) : isSymbol c = false := by
  have hnone : ∀ d ∈ ['(', ')', ',', ';', '{', '}', '[', ']'], ¬ IsMark d :=
    Text.forall_mem_of_all (by decide)
  refine Bool.eq_false_iff.2 fun hc => hnone c ?_ h
  simpa [isSymbol] using hc

/-- Only the letters of a number are read, if any. -/
theorem exists_spells_of_marked {cs : List Char} (h : ∀ c ∈ cs, IsMark c) :
    ∃ words, Spells cs words ∧ ∀ word ∈ words, Number.Marked word := by
  induction hlength : cs.length using Nat.strongRecOn generalizing cs with
  | ind n ih =>
  cases cs with
  | nil => exact ⟨[], .nil, by simp⟩
  | cons c cs =>
    rw [List.forall_mem_cons] at h
    have hother : ∀ d, ¬ IsMark d → c ≠ d := by
      rintro d hd rfl
      exact hd h.1
    by_cases hc : isIdentStart c = true
    · obtain ⟨words, hwords, hmarked⟩ := ih (cs.dropWhile isIdentChar).length
        (by have := (List.dropWhile_sublist (l := cs) isIdentChar).length_le; simp at hlength; omega)
        (fun d hd => h.2 d ((List.dropWhile_sublist _).subset hd)) rfl
      refine ⟨_, .ident hc hwords, List.forall_mem_cons.2 ⟨?_, hmarked⟩⟩
      refine .ofList (List.forall_mem_cons.2 ⟨h.1, fun d hd => ?_⟩)
      exact h.2 d ((List.takeWhile_sublist _).subset hd)
    · obtain ⟨words, hwords, hmarked⟩ := ih cs.length (by simp at hlength; omega) h.2 rfl
      refine ⟨words, hwords.skip ?_ (Or.inr ⟨by simpa using hc, isSymbol_of_isMark h.1⟩), hmarked⟩
      exact ⟨hother _ (by decide), hother _ (by decide), hother _ (by decide)⟩

/-- Texts behind one another, with commas between them. -/
theorem Spells.intercalate {texts : List String} {groups : List (List String)}
    (h : List.Forall₂ (fun text words => Spells text.toList words) texts groups) :
    Spells (", ".intercalate texts).toList ([","].intercalate groups) := by
  induction h with
  | nil => exact .nil
  | @cons text words texts groups hfirst hrest ih =>
    cases hrest with
    | nil => simpa using hfirst
    | cons hnext hrest =>
      have hcomma : ", ".toList = [',', ' '] := by decide
      rw [String.intercalate_cons_cons, String.toList_append, String.toList_append, hcomma,
        List.intercalate_cons_cons, List.append_assoc text.toList, List.append_assoc words]
      exact hfirst.append (ih.blank.symbol (c := ',') (by decide)) (by rintro c ⟨⟩; decide)

/-! ### Entry functions -/

/-- A text without slashes has no comments. -/
private theorem stripFrom_of_notMem {cs : List Char} (h : '/' ∉ cs) : stripFrom .code cs = cs := by
  induction cs with
  | nil => rfl
  | cons c cs ih =>
    rw [List.mem_cons, not_or] at h
    rw [stripFrom, ih h.2]
    · rintro _ ⟨⟩
      exact absurd rfl h.1
    · rintro _ ⟨⟩
      exact absurd rfl h.1

/-- Behind its opening, an entry function is no longer one. -/
private theorem overloadsFrom_eq_nil {directive : Option String} {index : Nat} {tokens : List Token}
    (h : ∀ t ∈ tokens.drop 2, t.text ≠ "(") : overloadsFrom directive index tokens = .ok [] := by
  induction tokens generalizing directive with
  | nil => rfl
  | cons t tokens ih =>
    have hentry : entry? (t :: tokens) = none := by
      unfold entry?
      split
      · next a b c rest heq =>
        have hc : c.text ≠ "(" := h c (by rw [heq]; simp)
        simp [hc]
      · rfl
    rw [overloadsFrom, hentry]
    refine ih fun u hu => h u ?_
    rw [List.drop_succ_cons]
    exact (List.drop_sublist_drop_left _ (by omega)).subset hu

/-- A text that spells an entry function, with some parameters, has one overload. -/
theorem overloads_of_spells {code : String} {groups : List (List String)} (hne : groups ≠ [])
    (h : Spells code.toList (["void", "run", "("] ++ [","].intercalate groups ++ [")"]))
    (hsymbols : ∀ group ∈ groups, "(" ∉ group ∧ ")" ∉ group ∧ "," ∉ group) :
    overloads code =
      .ok [{ inputs := inputsOf (portsOf groups), outputs := outputsOf (portsOf groups) }] := by
  have hflat : ∀ word ∈ [","].intercalate groups, word ≠ "(" ∧ word ≠ ")" := by
    intro word hword
    rcases Text.mem_of_mem_intercalate hword with hcomma | ⟨group, hgroup, hmem⟩
    · obtain rfl := List.mem_singleton.1 hcomma
      decide
    · exact ⟨fun he => (hsymbols group hgroup).1 (he ▸ hmem),
        fun he => (hsymbols group hgroup).2.1 (he ▸ hmem)⟩
  -- No comments are removed, and all words are on the first line.
  have hstrip : stripComments code = code := by
    rw [stripComments, stripChars, stripFrom_of_notMem h.uncommented, String.ofList_toList]
  obtain ⟨tokens, htokens, hwords⟩ := h.tokens [] 1 (by simp [StandsApart])
  have hnil : tokensFrom 1 [] = [] := by rw [tokensFrom]
  rw [List.append_nil, hnil, List.append_nil] at htokens
  -- The first token opens the entry function, and no later one does.
  obtain ⟨a, b, c, rest, rfl, ha, hb, hc, hrest⟩ : ∃ a b c rest, tokens = a :: b :: c :: rest ∧
      a.text = "void" ∧ b.text = "run" ∧ c.text = "(" ∧
      rest.map (·.text) = [","].intercalate groups ++ [")"] := by
    obtain ⟨a, tokens, rfl, ha, hwords⟩ := List.map_eq_cons_iff.1 hwords
    obtain ⟨b, tokens, rfl, hb, hwords⟩ := List.map_eq_cons_iff.1 hwords
    obtain ⟨c, rest, rfl, hc, hrest⟩ := List.map_eq_cons_iff.1 hwords
    exact ⟨a, b, c, rest, rfl, ha, hb, hc, hrest⟩
  have hentry : entry? (a :: b :: c :: rest) = some rest := by
    unfold entry?
    simp [ha, hb, hc]
  have hlater (directive : Option String) : overloadsFrom directive 1 (b :: c :: rest) = .ok [] := by
    refine overloadsFrom_eq_nil fun t ht => ?_
    have hmem : t.text ∈ rest.map (·.text) := List.mem_map_of_mem ht
    rw [hrest] at hmem
    rcases List.mem_append.1 hmem with hword | hclose
    · exact (hflat _ hword).1
    · rw [List.mem_singleton.1 hclose]
      decide
  have hgroups : parameterGroups rest = groups := by
    have hopen : ([","].intercalate groups).takeWhile (· != ")") = [","].intercalate groups :=
      List.takeWhile_eq_self_iff.2 fun word hword => by simpa using (hflat word hword).2
    rw [parameterGroups, hrest, List.takeWhile_append, hopen, if_pos rfl]
    simpa using Text.split_intercalate hne fun group hgroup => (hsymbols group hgroup).2.2
  rw [overloads, hstrip, tokenize, htokens, overloadsFrom, hentry]
  dsimp only
  rw [hlater, Overload.ofTokens, hgroups]
  rfl

end RenderGraph.Source
