import RenderGraph.Proofs.Source.Joining
import RenderGraph.Proofs.Source.Stripping
import RenderGraph.Proofs.Text.Rewriting

/-!
# Rewritten code

Code without comments is still code when parts of it are exchanged that begin with words, as long as no
directive is among them. A rewritten text resembles the text: code stays code, and the marks at both ends are
the same up to the letters of words.

## Main definitions

* `Source.SparesMetadata`: what is exchanged begins no metadata directive
* `Source.Resembles`: a text is changed in ways that do not matter around it

## Main results

* `Source.Uncommented.rewritten`: rewritten code is code
* `Source.resembles_of_rewritten`
-/

namespace RenderGraph.Source

open Text (AllBlank Meets Exchanges Rewritten isBlank isWord isWord? firstMark lastMark markKind)

variable {W : List Char → List Char → Prop} {prev : Option Char} {s s' cs : List Char}

/-! ### Code -/

theorem Uncommented.of_append_right {ds : List Char} (h : Uncommented (cs ++ ds)) : Uncommented ds := by
  induction cs with
  | nil => exact h
  | cons c cs ih => exact ih (uncommented_cons_iff.1 h).2

theorem Uncommented.append_of_notMem {ds : List Char} (h : Uncommented ds) (hslash : '/' ∉ cs) :
    Uncommented (cs ++ ds) := by
  induction cs with
  | nil => exact h
  | cons c cs ih =>
    rw [List.mem_cons, not_or] at hslash
    exact uncommented_cons_iff.2 ⟨opensComment_of_ne (Ne.symm hslash.1) _, ih hslash.2⟩

/-- No part that is exchanged begins a metadata directive behind its slashes. -/
def SparesMetadata (W : List Char → List Char → Prop) : Prop :=
  ∀ part new s, W part new → Meets part s = false → ¬ ['I', 't', 'e', 'm', '['] <+: part ++ s

section Rewritten

variable (hW : ∀ part new, W part new → Exchanges part new)

include hW

/-- A metadata directive is still one when the text behind its slashes is rewritten. -/
theorem opensMetadata_of_rewritten (hspares : SparesMetadata W) (h : Rewritten W prev s s')
    (hs : opensMetadata s = true) : opensMetadata s' = true := by
  rw [opensMetadata_eq_true_iff] at hs ⊢
  rcases hs with ⟨rest, rfl⟩ | ⟨rest, rfl⟩
  · obtain ⟨t, rfl, -⟩ := h.exists_of_kept hW (Or.inr (by decide))
    exact Or.inl ⟨t, rfl⟩
  · right
    generalize hu : ['I', 't', 'e', 'm', '['] ++ rest = u at h
    cases h with
    | nil => cases hu
    | keep c h =>
      obtain ⟨rfl, rfl⟩ := List.cons.inj hu
      obtain ⟨t, rfl, h₁⟩ := h.exists_of_kept hW (Or.inl (by decide))
      obtain ⟨t, rfl, h₂⟩ := h₁.exists_of_kept hW (Or.inl (by decide))
      obtain ⟨t, rfl, h₃⟩ := h₂.exists_of_kept hW (Or.inl (by decide))
      obtain ⟨t, rfl, -⟩ := h₃.exists_of_kept hW (Or.inr (by decide))
      exact ⟨t, rfl⟩
    | swap hprev hpart hmeets h => exact absurd ⟨rest, hu⟩ (hspares _ _ _ hpart hmeets)

/-- What is rewritten opens a metadata directive only if it did before. -/
theorem opensMetadata_of_opensMetadata (hnew : ∀ part new, W part new → new.head? ≠ some 'I')
    (h : Rewritten W prev s s') (hs : opensMetadata s' = true) : opensMetadata s = true := by
  rw [opensMetadata_eq_true_iff] at hs ⊢
  have hbracket : ∀ part new, W part new → new.head? ≠ some '[' := by
    intro part new hpart hhead
    have hword := (hW _ _ hpart).head_new
    rw [hhead] at hword
    cases hword
  rcases hs with ⟨rest, rfl⟩ | ⟨rest, rfl⟩
  · obtain ⟨t, rfl, -⟩ := h.exists_of_cons hW (Or.inr hbracket)
    exact Or.inl ⟨t, rfl⟩
  · right
    obtain ⟨t, rfl, h₁⟩ := h.exists_of_cons hW (Or.inr hnew)
    obtain ⟨t, rfl, h₂⟩ := h₁.exists_of_words hW
      (show ∀ c ∈ ['t', 'e', 'm'], isWord c = true from List.all_eq_true.1 (by decide)) rfl
    obtain ⟨t, rfl, -⟩ := h₂.exists_of_cons hW (Or.inr hbracket)
    exact ⟨t, rfl⟩

/-- Code is still code when it is rewritten. -/
theorem Uncommented.rewritten (hspares : SparesMetadata W) (h : Rewritten W prev s s')
    (hs : Uncommented s) : Uncommented s' := by
  induction h with
  | nil => exact hs
  | @keep prev s s' c h ih =>
    obtain ⟨hc, hs⟩ := uncommented_cons_iff.1 hs
    refine uncommented_cons_iff.2 ⟨?_, ih hs⟩
    have hmark (d : Char) (hd : isWord d = false) (part new : List Char) (hpart : W part new) :
        new.head? ≠ some d := by
      intro hhead
      have hword := (hW _ _ hpart).head_new
      rw [hhead, show isWord? (some d) = isWord d from rfl, hd] at hword
      cases hword
    rw [← Bool.not_eq_true, opensComment_eq_true_iff] at hc ⊢
    rintro ⟨rfl, ⟨ds, rfl, hm⟩ | ⟨ds, rfl⟩⟩
    · obtain ⟨t, rfl, h₁⟩ := h.exists_of_cons hW (Or.inr (hmark '/' (by decide)))
      have hm' : opensMetadata t = true := by simpa using hc
      rw [opensMetadata_of_rewritten hW hspares h₁ hm'] at hm
      cases hm
    · obtain ⟨t, rfl, -⟩ := h.exists_of_cons hW (Or.inr (hmark '*' (by decide)))
      exact hc ⟨rfl, Or.inr ⟨t, rfl⟩⟩
  | @swap prev part new s s' hprev hpart hmeets h ih =>
    exact (ih hs.of_append_right).append_of_notMem (hW _ _ hpart).slash

/-- The end of a block comment stays where it is when stars are not put in. -/
theorem not_infix_of_rewritten (hstar : ∀ part new, W part new → '*' ∉ new) (h : Rewritten W prev s s')
    (hs : ¬ ['*', '/'] <:+: s) : ¬ ['*', '/'] <:+: s' := by
  rintro ⟨a', b', hs'⟩
  rw [List.append_assoc, List.cons_append] at hs'
  rw [← hs'] at h
  obtain ⟨a, b, rfl, h₁⟩ := h.exists_of_notMem hstar
  have hslash : ∀ part new, W part new → new.head? ≠ some '/' := fun part new hpart hhead =>
    (hW _ _ hpart).slash (List.mem_of_head? hhead)
  obtain ⟨t, rfl, -⟩ := h₁.exists_of_cons hW (Or.inr hslash)
  exact hs ⟨a, t, by simp⟩

end Rewritten

/-! ### Ends of rewritten texts -/

/-- If what is put in holds marks of its own, a text without these is what it was before. -/
private theorem eq_of_rewritten {q : Char → Prop} (hnew : ∀ part new, W part new → ∃ c ∈ new, ¬ q c)
    (h : Rewritten W prev s s') (hs : ∀ c ∈ s', q c) : s = s' := by
  induction h with
  | nil => rfl
  | keep c h ih => rw [ih fun d hd => hs d (List.mem_cons_of_mem c hd)]
  | swap hprev hpart hmeets h ih =>
    obtain ⟨c, hc, hq⟩ := hnew _ _ hpart
    exact absurd (hs c (List.mem_append_left _ hc)) hq

section Ends

variable (hW : ∀ part new, W part new → ∃ c, isWord c = false ∧ isBlank c = false ∧
  part.getLast? = some c ∧ new.getLast? = some c)

include hW

/-- The words at the end of a text stand behind everything that was put in, if that ends with marks. -/
private theorem exists_of_end {b' e : List Char} (hend : ∀ c ∈ e, isWord c = true ∨ isBlank c = true)
    (hb' : isWord? (b'.getLast?.or prev) = false) (h : Rewritten W prev s (b' ++ e)) :
    ∃ b, s = b ++ e ∧ isWord? (b.getLast?.or prev) = false := by
  have hnew (part new : List Char) (hpart : W part new) :
      ∃ c ∈ new, ¬ (isWord c = true ∨ isBlank c = true) := by
    obtain ⟨c, hc, hc', -, hmem⟩ := hW _ _ hpart
    exact ⟨c, List.mem_of_getLast? hmem, by simp [hc, hc']⟩
  generalize hu : b' ++ e = u at h
  induction h generalizing b' with
  | nil =>
    obtain ⟨rfl, rfl⟩ := List.append_eq_nil_iff.1 hu
    exact ⟨[], rfl, hb'⟩
  | @keep prev t t' c h ih =>
    cases b' with
    | nil =>
      obtain rfl : e = c :: t' := hu
      rw [eq_of_rewritten hnew h fun d hd => hend d (List.mem_cons_of_mem c hd)]
      exact ⟨[], rfl, hb'⟩
    | cons d b' =>
      obtain ⟨rfl, rfl⟩ := List.cons.inj hu
      rw [List.getLast?_cons, Option.some_or, ← Option.or_some] at hb'
      obtain ⟨b, rfl, hb⟩ := ih hb' rfl
      exact ⟨d :: b, rfl, by rwa [List.getLast?_cons, Option.some_or, ← Option.or_some]⟩
  | @swap prev part new t t' hprev hpart hmeets h ih =>
    obtain ⟨c, hc, hc', hpartlast, hnewlast⟩ := hW _ _ hpart
    have hlater {b₂ : List Char} (hbehind : b₂ ++ e = t')
        (hb₂ : isWord? ((new ++ b₂).getLast?.or prev) = false) :
        ∃ b, part ++ t = b ++ e ∧ isWord? (b.getLast?.or prev) = false := by
      have hb₂' : isWord? (b₂.getLast?.or part.getLast?) = false := by
        rw [hpartlast]
        cases hl : b₂.getLast? with
        | none => exact hc
        | some d => rwa [List.getLast?_append, hl, Option.some_or, Option.some_or] at hb₂
      obtain ⟨b, rfl, hb⟩ := ih hb₂' hbehind
      refine ⟨part ++ b, by rw [List.append_assoc], ?_⟩
      rw [List.getLast?_append, hpartlast, Option.or_assoc, Option.some_or, ← hpartlast]
      exact hb
    rcases List.append_eq_append_iff.1 hu with ⟨z, rfl, hz⟩ | ⟨z, rfl, hz⟩
    · cases z with
      | nil => exact hlater (show [] ++ e = t' from hz) (by rwa [List.append_nil, List.append_nil])
      | cons d z =>
        rw [List.getLast?_append_of_ne_nil _ (List.cons_ne_nil d z)] at hnewlast
        rcases hend c (hz ▸ List.mem_append_left _ (List.mem_of_getLast? hnewlast)) with h | h
        · rw [h] at hc
          cases hc
        · rw [h] at hc'
          cases hc'
    · exact hlater hz.symm hb'

/-- If all exchanged parts end with the same mark as before, a text ends in a word only if it did before. -/
theorem endsInWord_of_rewritten {w : String} (hw : ∀ c ∈ w.toList, isWord c = true)
    (hlast : isWord? w.toList.getLast? = true) (h : Rewritten W none s s')
    (hs : Text.endsInWord w s' = true) : Text.endsInWord w s = true := by
  obtain ⟨b', gap, rfl, hb', hgap⟩ := Text.exists_of_endsInWord hs
  have hend : ∀ c ∈ w.toList ++ gap, isWord c = true ∨ isBlank c = true :=
    List.forall_mem_append.2 ⟨fun c hc => Or.inl (hw c hc), fun c hc => Or.inr (hgap c hc)⟩
  obtain ⟨b, rfl, hb⟩ := exists_of_end hW hend (by rwa [Option.or_none]) h
  rw [Option.or_none] at hb
  exact Text.endsInWord_append hlast hb hgap

end Ends

/-! ### Texts that resemble each other -/

/-- A text is changed in ways that do not matter around it: code stays code, both ends are the same up to the
letters of words, and no declaration begins at the end that did not before. -/
structure Resembles (s s' : List Char) : Prop where
  uncommented : Uncommented s → Uncommented s'
  head : markKind s'.head? = markKind s.head?
  last : markKind s'.getLast? = markKind s.getLast?
  firstMark : markKind (firstMark s') = markKind (firstMark s)
  lastMark : markKind (lastMark s') = markKind (lastMark s)
  ends : Text.endsInWord "void" s' = true → Text.endsInWord "void" s = true

namespace Resembles

theorem refl (s : List Char) : Resembles s s :=
  ⟨id, rfl, rfl, rfl, rfl, id⟩

theorem trans {t : List Char} (h : Resembles s s') (h' : Resembles s' t) : Resembles s t :=
  ⟨h'.uncommented ∘ h.uncommented, h'.head.trans h.head, h'.last.trans h.last,
    h'.firstMark.trans h.firstMark, h'.lastMark.trans h.lastMark, h.ends ∘ h'.ends⟩

variable (h : Resembles s s')

include h

theorem getLast?_eq_some_iff {c : Char} (hc : isWord c = false) :
    s'.getLast? = some c ↔ s.getLast? = some c :=
  Text.eq_some_iff_of_markKind h.last hc

theorem firstMark_eq_some_iff {c : Char} (hc : isWord c = false) :
    Text.firstMark s' = some c ↔ Text.firstMark s = some c :=
  Text.eq_some_iff_of_markKind h.firstMark hc

variable {t t' : List Char} (h' : Resembles t t')

include h'

theorem spans_eq_false (hspans : Spans s t = false) : Spans s' t' = false := by
  rw [← Bool.not_eq_true, spans_eq_true_iff] at hspans ⊢
  rw [h'.firstMark_eq_some_iff (by decide), Text.isWord?_eq_of_markKind h.lastMark,
    Text.isWord?_eq_of_markKind h'.firstMark]
  exact fun hs => hspans (hs.imp id (And.imp_left h.ends))

/-- What belongs together does so up to blanks. -/
theorem joins_eq_false {gap : List Char} (hgap : AllBlank gap) (hjoins : Joins s (gap ++ t) = false) :
    Joins s' (gap ++ t') = false := by
  obtain ⟨hmeets, hspans⟩ := joins_eq_false_iff.1 hjoins
  rw [spans_append_gap hgap] at hspans
  rw [joins_eq_false_iff, spans_append_gap hgap]
  refine ⟨?_, h.spans_eq_false h' hspans⟩
  have hhead : isWord? (gap ++ t').head? = isWord? (gap ++ t).head? := by
    cases gap with
    | nil => exact Text.isWord?_eq_of_markKind h'.head
    | cons c gap => rfl
  rwa [Meets, Text.isWord?_eq_of_markKind h.last, hhead]

end Resembles

theorem resembles_of_rewritten (hW : ∀ part new, W part new → Exchanges part new)
    (hspares : SparesMetadata W) (h : Rewritten W prev s s')
    (hends : Text.endsInWord "void" s' = true → Text.endsInWord "void" s = true) : Resembles s s' :=
  ⟨Uncommented.rewritten hW hspares h, h.markKind_head? hW, h.markKind_getLast? hW, h.markKind_firstMark hW,
    h.markKind_lastMark hW, hends⟩

end RenderGraph.Source
