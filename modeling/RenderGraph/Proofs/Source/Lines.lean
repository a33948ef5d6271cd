import Mathlib.Data.List.Forall2
import RenderGraph.Proofs.Source.Stripping
import RenderGraph.Source.Token

/-!
# Lines of bodies and of their tokens

The removal of comments keeps every line break, those inside of block comments too. So each line of what is
kept is what is kept of the line with the same number, and the number that a token bears is that of the
line on which it stands.

## Main definitions

* `Source.Token.StandsIn`: a token stands on the line of its number
* `Source.InOrder`: so do all tokens of a list, which follows the lines

## Main results

* `Source.forall₂_split_stripFrom`: what is kept of a text, line by line
* `Source.inOrder_tokensFrom`: the lines of tokens
* `Source.lines_stripComments`
-/

namespace RenderGraph

/-! ### Lines of a text -/

namespace Text

variable {α : Type} [DecidableEq α] {sep c : α} {cs front : List α}

theorem split_cons_self (sep : α) (cs : List α) : split sep (sep :: cs) = [] :: split sep cs := by
  rw [split, if_pos rfl]

/-- What does not hold the separator goes to the first piece. -/
theorem split_append_of_notMem (h : sep ∉ front) (cs : List α) :
    ∃ piece pieces, split sep cs = piece :: pieces ∧
      split sep (front ++ cs) = (front ++ piece) :: pieces := by
  induction front with
  | nil =>
    obtain ⟨piece, pieces, heq⟩ := List.exists_cons_of_ne_nil (split_ne_nil sep cs)
    exact ⟨piece, pieces, heq, heq⟩
  | cons c front ih =>
    rw [List.mem_cons, not_or] at h
    obtain ⟨piece, pieces, heq, happend⟩ := ih h.2
    refine ⟨piece, pieces, heq, ?_⟩
    rw [List.cons_append, split, if_neg (Ne.symm h.1), happend]
    rfl

end Text

namespace Source

open Text (split)

variable {c : Char} {cs ds : List Char}

/-! ### Lines without comments -/

/-- A character that is kept is kept on its line. -/
private theorem forall₂_split_keep (h : List.Forall₂ List.Sublist (split '\n' ds) (split '\n' cs))
    (c : Char) : List.Forall₂ List.Sublist (split '\n' (c :: ds)) (split '\n' (c :: cs)) := by
  by_cases hc : c = '\n'
  · rw [hc, Text.split_cons_self, Text.split_cons_self]
    exact .cons (List.Sublist.refl _) h
  · have hfront : '\n' ∉ [c] := List.mem_singleton.not.2 (Ne.symm hc)
    obtain ⟨p, ps, hds, hds'⟩ := Text.split_append_of_notMem hfront ds
    obtain ⟨q, qs, hcs, hcs'⟩ := Text.split_append_of_notMem hfront cs
    rw [hds, hcs, List.forall₂_cons] at h
    rw [List.singleton_append] at hds' hcs'
    rw [hds', hcs']
    exact .cons (h.1.cons_cons c) h.2

/-- What is removed is removed from a line. -/
private theorem forall₂_split_remove {front : List Char} (hfront : '\n' ∉ front)
    (h : List.Forall₂ List.Sublist (split '\n' ds) (split '\n' cs)) :
    List.Forall₂ List.Sublist (split '\n' ds) (split '\n' (front ++ cs)) := by
  obtain ⟨q, qs, hcs, hcs'⟩ := Text.split_append_of_notMem hfront cs
  obtain ⟨p, ps, hds⟩ := List.exists_cons_of_ne_nil (Text.split_ne_nil '\n' ds)
  rw [hds, hcs, List.forall₂_cons] at h
  rw [hds, hcs']
  exact .cons (h.1.trans (List.sublist_append_right front q)) h.2

/-- Each line of what is kept is part of the line with the same number. -/
theorem forall₂_split_stripFrom (context : Context) (cs : List Char) :
    List.Forall₂ List.Sublist (split '\n' (stripFrom context cs)) (split '\n' cs) := by
  induction context, cs using scan_induction with
  | nil context => cases context <;> exact .cons (List.Sublist.refl _) .nil
  | keep c cs hc ih =>
    rw [stripFrom_code_cons hc]
    exact forall₂_split_keep ih c
  | line cs hm ih =>
    rw [stripFrom_line hm]
    exact forall₂_split_remove (show '\n' ∉ ['/', '/'] by decide) ih
  | block cs ih =>
    rw [stripFrom]
    exact forall₂_split_remove (show '\n' ∉ ['/', '*'] by decide) ih
  | lineEnd cs ih =>
    rw [stripFrom, if_pos rfl]
    exact forall₂_split_keep ih '\n'
  | inLine c cs hc ih =>
    rw [stripFrom_inLine hc]
    exact forall₂_split_remove (List.mem_singleton.not.2 (Ne.symm hc)) ih
  | blockEnd cs ih =>
    rw [stripFrom]
    exact forall₂_split_remove (show '\n' ∉ ['*', '/'] by decide) ih
  | newline cs ih =>
    rw [stripFrom, if_pos rfl]
    · exact forall₂_split_keep ih '\n'
    · rintro ds ⟨⟩
  | inBlock c cs hc hstar ih =>
    rw [stripFrom_inBlock hc hstar]
    exact forall₂_split_remove (List.mem_singleton.not.2 (Ne.symm hc)) ih

/-! ### Lines of tokens -/

/-- A token stands on the line of its number, if the first line of the text has a given number. -/
def Token.StandsIn (t : Token) (line : Nat) (cs : List Char) : Prop :=
  ∃ i text, t.line = line + i ∧ (split '\n' cs)[i]? = some text ∧ t.text.toList <:+: text

namespace Token.StandsIn

variable {t : Token} {line : Nat}

theorem le_line (h : t.StandsIn line cs) : line ≤ t.line := by
  obtain ⟨i, -, hline, -⟩ := h
  omega

/-- Behind a line break lines have the next numbers. -/
theorem newline (h : t.StandsIn (line + 1) cs) : t.StandsIn line ('\n' :: cs) := by
  obtain ⟨i, text, hline, hget, htext⟩ := h
  refine ⟨i + 1, text, by omega, ?_, htext⟩
  rw [Text.split_cons_self, List.getElem?_cons_succ, hget]

/-- What stands before a text on its first line does not change the numbers. -/
theorem append_left {front : List Char} (hfront : '\n' ∉ front) (h : t.StandsIn line cs) :
    t.StandsIn line (front ++ cs) := by
  obtain ⟨i, text, hline, hget, htext⟩ := h
  obtain ⟨piece, pieces, hcs, happend⟩ := Text.split_append_of_notMem hfront cs
  rw [hcs] at hget
  cases i with
  | zero =>
    obtain rfl : piece = text := by simpa using hget
    refine ⟨0, front ++ piece, hline, by rw [happend]; rfl, ?_⟩
    exact htext.trans (List.suffix_append ..).isInfix
  | succ i => exact ⟨i + 1, text, hline, by rw [happend]; simpa using hget, htext⟩

/-- The first token of a text stands on the first line. -/
theorem of_front {front rest : List Char} (hfront : '\n' ∉ front) (htext : t.text.toList = front)
    (hline : t.line = line) : t.StandsIn line (front ++ rest) := by
  obtain ⟨piece, pieces, -, happend⟩ := Text.split_append_of_notMem hfront rest
  refine ⟨0, front ++ piece, hline, by rw [happend]; rfl, ?_⟩
  rw [htext]
  exact (List.prefix_append front piece).isInfix

end Token.StandsIn

/-- Tokens stand on the lines of their numbers, and those on earlier lines come first. -/
structure InOrder (tokens : List Token) (line : Nat) (cs : List Char) : Prop where
  standsIn : ∀ t ∈ tokens, t.StandsIn line cs
  sorted : tokens.Pairwise fun t u => t.line ≤ u.line

namespace InOrder

variable {tokens : List Token} {line : Nat}

theorem newline (h : InOrder tokens (line + 1) cs) : InOrder tokens line ('\n' :: cs) where
  standsIn t ht := (h.standsIn t ht).newline
  sorted := h.sorted

theorem skip (hc : c ≠ '\n') (h : InOrder tokens line cs) : InOrder tokens line (c :: cs) where
  standsIn t ht := (h.standsIn t ht).append_left (List.mem_singleton.not.2 (Ne.symm hc))
  sorted := h.sorted

/-- A token that is made of the front of a text comes before those of the rest. -/
theorem cons (kind : TokenKind) {front : List Char} (hfront : '\n' ∉ front)
    (h : InOrder tokens line cs) :
    InOrder ({ kind, text := String.ofList front, line } :: tokens) line (front ++ cs) where
  standsIn := List.forall_mem_cons.2 ⟨.of_front hfront String.toList_ofList rfl,
    fun t ht => (h.standsIn t ht).append_left hfront⟩
  sorted := List.pairwise_cons.2 ⟨fun t ht => (h.standsIn t ht).le_line, h.sorted⟩

/-- A token goes on while its characters belong to a class that holds no line break. -/
theorem cons_takeWhile (kind : TokenKind) {p : Char → Bool} (hp : p '\n' = false) (hc : c ≠ '\n')
    (h : InOrder tokens line (cs.dropWhile p)) :
    InOrder ({ kind, text := String.ofList (c :: cs.takeWhile p), line } :: tokens) line (c :: cs) := by
  have hfront : '\n' ∉ c :: cs.takeWhile p := by
    rw [List.mem_cons, not_or]
    refine ⟨Ne.symm hc, fun hmem => ?_⟩
    rw [List.all_eq_true.1 List.all_takeWhile _ hmem] at hp
    cases hp
  have h := h.cons kind hfront
  rwa [List.cons_append, List.takeWhile_append_dropWhile] at h

end InOrder

theorem inOrder_tokensFrom (line : Nat) (cs : List Char) : InOrder (tokensFrom line cs) line cs := by
  fun_induction tokensFrom line cs with
  | case1 => exact ⟨List.forall_mem_nil _, .nil⟩
  | case2 line cs ih => exact ih.newline
  | case3 line c cs hc hblank ih => exact ih.skip hc
  | case4 line c cs hc hblank hopens ih => exact ih.cons_takeWhile .directive (by decide) hc
  | case5 line c cs hc hblank hopens hstart ih => exact ih.cons_takeWhile .identifier (by decide) hc
  | case6 line c cs hc hblank hopens hstart hsymbol ih =>
    exact ih.cons .symbol (List.mem_singleton.not.2 (Ne.symm hc))
  | case7 line c cs hc hblank hopens hstart hsymbol ih => exact ih.skip hc

/-- What is kept of a body has as many lines as the body, and each of them is part of the line with the same
number; each token bears the number of the line on which it stands, and numbers never decrease. -/
theorem lines_stripComments (code : String) :
    let source := split '\n' code.toList
    let kept := split '\n' (stripComments code).toList
    kept.length = source.length ∧
      (∀ i (hk : i < kept.length) (hs : i < source.length), kept[i].Sublist source[i]) ∧
      (∀ t ∈ tokenize (stripComments code), 1 ≤ t.line ∧ t.line ≤ source.length ∧
        ∃ line, kept[t.line - 1]? = some line ∧ t.text.toList <:+: line) ∧
      (tokenize (stripComments code)).Pairwise fun t u => t.line ≤ u.line := by
  intro source kept
  have hkept : kept = split '\n' (stripFrom .code code.toList) :=
    congrArg (split '\n') String.toList_ofList
  have hlines : List.Forall₂ List.Sublist kept source :=
    hkept ▸ forall₂_split_stripFrom .code code.toList
  obtain ⟨hstands, hsorted⟩ := inOrder_tokensFrom 1 (stripComments code).toList
  refine ⟨hlines.length_eq, fun i hk hs => hlines.get hk hs, fun t ht => ?_, hsorted⟩
  obtain ⟨i, line, hline, hget, htext⟩ := hstands t ht
  have hi : i < kept.length := (List.getElem?_eq_some_iff.1 hget).1
  refine ⟨by omega, by rw [← hlines.length_eq]; omega, line, ?_, htext⟩
  rw [hline, Nat.add_sub_cancel_left]
  exact hget

end Source

end RenderGraph
