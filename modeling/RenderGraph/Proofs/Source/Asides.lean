import RenderGraph.Proofs.Source.RewrittenCode
import RenderGraph.Proofs.Source.Weaving

/-!
# Comments that stand aside

Patterns are used on texts with their comments. What a pattern does there is what it does without the
comments, apart from what it does inside of them, if it never reads over the beginning or the end of a comment
and reads no more where a comment is removed. This holds for uses and declarations when every comment stands
aside: no word, use or declaration goes on over it, or begins in it and goes on behind it.

## Main definitions

* `Source.Comment.Aside`: a comment stands aside, and declares none of some functions
* `Source.Placed`: the same in a woven text
* `Source.Parted`: a pattern is used apart around a comment

## Main results

* `Source.Placed.parted`: patterns are used apart around a comment that stands aside
* `Source.Woven.occurs_eq`: what is found with comments is found without them
* `Source.Woven.replaceAll`: places are exchanged in the code and in its comments
-/

namespace RenderGraph.Source

open Text (AllBlank Phrased Meets Cut isWord isWord? firstMark lastMark occurs search)

variable {name : String}

/-! ### Comments that stand aside -/

/-- A comment stands aside: what is kept before it and behind it belongs to no common word, use or
declaration, none of these begins in a comment that its line ends and goes on behind it, and the comment
declares none of some functions. -/
structure Comment.Aside (names : List String) (c : Comment) : Prop where
  apart : Joins c.before c.behind = false
  ended : c.ending = .line → Spans c.text c.behind = false
  silent : ∀ name ∈ names, occurs (voidDeclaration name) c.text = false

instance (names : List String) (c : Comment) : Decidable (c.Aside names) :=
  decidable_of_iff (Joins c.before c.behind = false ∧ (c.ending = .line → Spans c.text c.behind = false) ∧
      ∀ name ∈ names, occurs (voidDeclaration name) c.text = false)
    ⟨fun ⟨apart, ended, silent⟩ => ⟨apart, ended, silent⟩,
      fun ⟨apart, ended, silent⟩ => ⟨apart, ended, silent⟩⟩

/-- A comment of a woven text stands aside, in a place with some property. -/
structure Placed (Outside : List Char → List Char → Prop) (names : List String) (code : List Char)
    (m : Remark) (clear : List Char) : Prop where
  outside : Outside code clear
  apart : Joins code (m.gap ++ clear) = false
  ended : m.ending = .line → Spans m.text clear = false
  silent : ∀ name ∈ names, occurs (voidDeclaration name) m.text = false

/-- What belongs together with the end of a text belongs together with the text. -/
theorem joins_eq_false_of_append {before code behind : List Char} (hmeets : Meets before code = false)
    (h : Joins (before ++ code) behind = false) : Joins code behind = false := by
  cases code with
  | nil => exact joins_eq_false_iff.2 ⟨rfl, rfl⟩
  | cons c code =>
    rw [joins_eq_false_iff] at h ⊢
    refine ⟨?_, ?_⟩
    · rw [← h.1, Meets, Meets, List.getLast?_append_of_ne_nil _ (List.cons_ne_nil c code)]
    · have hspans := h.2
      rw [← Bool.not_eq_true, spans_eq_true_iff] at hspans ⊢
      refine mt (Or.imp (And.imp_left fun hlast => ?_) (And.imp_left fun hends => ?_)) hspans
      · rw [Text.lastMark_append]
        cases hmark : lastMark (c :: code) with
        | none => rw [hmark] at hlast; cases hlast
        | some d => rwa [hmark] at hlast
      · obtain ⟨front, gap, hcode, hfront, hgap⟩ := Text.exists_of_endsInWord hends
        rw [hcode, ← List.append_assoc]
        refine Text.endsInWord_append (by decide) ?_ hgap
        cases front with
        | nil =>
          obtain ⟨hc, -⟩ := List.cons.inj hcode
          rw [Meets, show isWord? (c :: code).head? = true by rw [hc]; rfl, Bool.and_true] at hmeets
          rwa [List.append_nil]
        | cons d front => rwa [List.getLast?_append_of_ne_nil _ (List.cons_ne_nil d front)]

/-- A comment that stands aside does so in the text that is woven of the comments. -/
theorem Comment.Aside.placed {Outside : List Char → List Char → Prop} {names : List String}
    {before code clear : List Char} {m : Remark} (hmeets : Meets before code = false)
    (h : Comment.Aside names
      { before := before ++ code, text := m.text, behind := m.gap ++ clear, ending := m.ending })
    (hout : Outside code clear) : Placed Outside names code m clear where
  outside := hout
  apart := joins_eq_false_of_append hmeets h.apart
  ended hline := by
    have hended := h.ended hline
    rwa [spans_append_gap m.allBlank_gap] at hended
  silent := h.silent

/-- A comment closes before a text that begins like the one behind it. -/
theorem Remark.Closes.of_head? {m : Remark} {raw raw' : List Char} (hm : m.Closes raw)
    (h : Text.markKind raw'.head? = Text.markKind raw.head?) : m.Closes raw' := by
  have hnil (hraw : raw = []) : raw'.head? = none := by
    rw [hraw] at h
    exact Text.markKind_eq_none_iff.1 h
  obtain ⟨ending, text⟩ := m
  cases ending with
  | line =>
    obtain ⟨hline, hmeta, hraw⟩ := hm
    refine ⟨hline, hmeta, fun c hc => ?_⟩
    cases raw with
    | nil =>
      rw [hnil rfl] at hc
      cases hc
    | cons d raw =>
      obtain rfl := hraw d rfl
      rw [(Text.markKind_eq_iff (by decide)).1 h] at hc
      cases hc
      rfl
  | block => exact hm
  | never => exact ⟨hm.1, List.head?_eq_none_iff.1 (hnil hm.2)⟩

/-- A comment stays in its place if what stands around it changes in ways that do not matter. -/
theorem Placed.resembles {Outside Outside' : List Char → List Char → Prop} {names : List String}
    {code code' clear clear' : List Char} {m : Remark} (h : Placed Outside names code m clear)
    (hcode : Resembles code code') (hclear : Resembles clear clear') (hout : Outside' code' clear') :
    Placed Outside' names code' m clear' where
  outside := hout
  apart := hcode.joins_eq_false hclear m.allBlank_gap h.apart
  ended hline := (Resembles.refl m.text).spans_eq_false hclear (h.ended hline)
  silent := h.silent

/-! ### Comments as cuts -/

section Cuts

variable {p : Text.Pattern Unit} {Phrase : List Char → Prop} {Ok : List Char → Remark → List Char → Prop}
  {m : Remark} {raw clear code : List Char}

theorem firstMark_chars (m : Remark) (raw : List Char) : firstMark (m.chars ++ raw) = some '/' := by
  obtain ⟨d, ds, hchars, -⟩ := m.exists_chars_eq
  rw [hchars]
  rfl

/-- No word, use or declaration goes on with a comment. -/
theorem joins_chars (code raw : List Char) (m : Remark) : Joins code (m.chars ++ raw) = false := by
  have hhead : isWord? (m.chars ++ raw).head? = false := by
    obtain ⟨d, ds, hchars, -⟩ := m.exists_chars_eq
    rw [hchars]
    rfl
  rw [joins_eq_false_iff, Meets, Spans, hhead, firstMark_chars,
    show isWord? (some '/') = false from rfl, Bool.and_false, Bool.and_false, Bool.or_false]
  exact ⟨rfl, Bool.and_eq_false_iff.2 (Or.inr rfl)⟩

variable (hp : Phrased p Phrase) (ht : ∀ phrase, Phrase phrase → Tight phrase)

include hp ht

/-- A phrase goes on behind a comment only over the end of a line. -/
theorem cut_remark (hslash : ∀ phrase, Phrase phrase → '/' ∉ phrase)
    (hended : m.ending = .line → Spans m.text clear = false) (hm : m.Closes raw) (hw : Woven Ok raw clear) :
    Cut p m.chars raw := by
  obtain ⟨ending, text⟩ := m
  cases ending with
  | line =>
    obtain ⟨-, -, hraw⟩ := hm
    have hhead : isWord? raw.head? = false := by
      cases raw with
      | nil => rfl
      | cons c raw => rw [hraw c rfl]; rfl
    refine hp.cut (by rw [Meets, hhead, Bool.and_false]) ?_
    rw [Remark.chars_line]
    intro before x z hfront hbefore hx hz hprefix hphrase
    have hword := hp.head _ hphrase
    rw [List.head?_append_of_ne_nil _ hx] at hword
    -- The phrase begins with a word, so both slashes stand before it.
    obtain ⟨before', rfl, hbefore'⟩ : ∃ before', text = before' ++ x ∧ isWord? before'.getLast? = false := by
      rcases before with - | ⟨a, - | ⟨b, before⟩⟩
      · obtain rfl : '/' :: '/' :: text = x := hfront
        cases hword
      · obtain ⟨-, rfl⟩ := List.cons.inj hfront
        cases hword
      · obtain ⟨-, hfront⟩ := List.cons.inj hfront
        obtain ⟨-, rfl⟩ := List.cons.inj hfront
        refine ⟨before, rfl, ?_⟩
        cases before with
        | nil => rfl
        | cons d before => rwa [List.getLast?_cons_cons, List.getLast?_cons_cons] at hbefore
    have hclear := hw.prefix_clear (fun hmem => hslash _ hphrase (List.mem_append_right x hmem)) hprefix
    obtain ⟨rest, rfl⟩ := hclear
    have hjoins := ht _ hphrase before' x z rest rfl hx hz hbefore'
    obtain ⟨c, z, rfl⟩ := List.exists_cons_of_ne_nil hz
    obtain ⟨rest', rfl⟩ := hprefix
    have hc := hraw c rfl
    rw [Joins, hended rfl, Bool.or_false, Meets, hc] at hjoins
    rw [List.cons_append, show isWord? ('\n' :: _).head? = false from rfl, Bool.and_false] at hjoins
    cases hjoins
  | block =>
    have hlast : isWord? (lastMark (Remark.chars ⟨.block, text⟩)) = false := by
      rw [Remark.chars_block, show '/' :: '*' :: (text ++ ['*', '/']) =
        ('/' :: '*' :: text ++ ['*']) ++ ['/'] by simp, Text.lastMark_append]
      rfl
    refine cut_of_joins_eq_false hp ht (joins_eq_false_iff.2 ⟨?_, ?_⟩)
    · rw [Remark.chars_block, Meets, ← List.cons_append, ← List.cons_append,
        List.getLast?_append_of_ne_nil _ (List.cons_ne_nil _ _)]
      rfl
    · rw [← Bool.not_eq_true]
      intro hspans
      rw [isWord?_lastMark_of_spans hspans] at hlast
      cases hlast
  | never =>
    obtain ⟨-, rfl⟩ := hm
    refine cut_of_joins_eq_false hp ht (joins_eq_false_iff.2 ⟨Text.meets_nil _, ?_⟩)
    simp [Spans, firstMark, isWord?]

end Cuts

/-! ### Declarations in texts -/

section Declarations

variable (hne : name.toList ≠ []) (hname : IsIdent name)

include hne hname

/-- A text holds a declaration if and only if it stands there behind no word. -/
theorem occurs_voidDeclaration_iff {cs : List Char} : occurs (voidDeclaration name) cs = true ↔
    ∃ before phrase rest, cs = before ++ (phrase ++ rest) ∧ isWord? before.getLast? = false ∧
      Declares name phrase := by
  have hp := phrased_voidDeclaration hne hname
  constructor
  · intro h
    obtain ⟨⟨before, ⟨⟩, rest⟩, hr⟩ := Option.isSome_iff_exists.1 h
    obtain ⟨behind, rfl, hread⟩ := Text.exists_of_search hr
    rw [Option.or_none] at hread
    obtain ⟨hprev, phrase, hphrase, rfl, -⟩ := hp.read_iff.1 hread
    exact ⟨before, phrase, rest, rfl, hprev, hphrase⟩
  · rintro ⟨before, phrase, rest, rfl, hprev, hphrase⟩
    refine Text.isSome_search ?_
    rw [Option.or_none, voidDeclaration_append hne hname hprev hphrase]
    rfl

end Declarations

/-! ### Patterns in woven texts -/

/-- A pattern is used apart on the code before a comment, on the comment and on what stands behind it, and
also where the comment is removed. -/
structure Parted (p : Text.Pattern Unit) (code : List Char) (m : Remark) (raw clear : List Char) : Prop where
  before : Cut p code (m.chars ++ raw)
  behind : Cut p m.chars raw
  kept : Cut p code (m.gap ++ clear)

section Patterns

variable {p : Text.Pattern Unit} {Phrase : List Char → Prop} {m : Remark} {raw clear code : List Char}
  {Outside : List Char → List Char → Prop} {names : List String}
  {Ok Ok' : List Char → Remark → List Char → Prop}
  (hp : Phrased p Phrase)

include hp

/-- A pattern is used apart around a comment that stands aside. -/
theorem Placed.parted (h : Placed Outside names code m clear)
    (ht : ∀ phrase, Phrase phrase → Tight phrase) (hslash : ∀ phrase, Phrase phrase → '/' ∉ phrase)
    (hm : m.Closes raw) (hw : Woven Ok raw clear) : Parted p code m raw clear where
  before := cut_of_joins_eq_false hp ht (joins_chars code raw m)
  behind := cut_remark hp ht hslash h.ended hm hw
  kept := cut_of_joins_eq_false hp ht h.apart

/-- A text holds what the pattern reads if and only if it does without its comments. -/
theorem Woven.occurs_eq
    (hok : ∀ code m raw clear, m.Closes raw → Ok code m clear → Woven Ok raw clear →
      Parted p code m raw clear ∧ search p none m.chars = none)
    (h : Woven Ok raw clear) : occurs p raw = occurs p clear := by
  induction h with
  | plain hk => rfl
  | @remark code m raw clear hk hlast hm hplaced h ih =>
    obtain ⟨hcut, hnone⟩ := hok code m raw clear hm hplaced h
    have hgap := hp.search_append_of_isWord m.allBlank_gap.isWord_eq_false clear
    unfold occurs at ih ⊢
    rw [hcut.before.search_append hp, hcut.kept.search_append hp]
    cases search p none code with
    | some r => rfl
    | none =>
      dsimp only
      rw [hcut.behind.search_append hp, hnone, hgap]
      simpa using ih

/-- Places are exchanged in the code of a text and in its comments. -/
theorem Woven.replaceAll {f : Unit → List Char → List Char}
    (hcode : ∀ code, Uncommented code → Uncommented (Text.replaceAll p f code))
    (hslash : ∀ code, (Text.replaceAll p f code).getLast? = some '/' → code.getLast? = some '/')
    (hok : ∀ code m raw clear, m.Closes raw → Ok code m clear → Woven Ok raw clear →
      Parted p code m raw clear ∧ ∃ m' : Remark, Text.replaceAll p f m.chars = m'.chars ∧ m'.gap = m.gap ∧
        m'.Closes (Text.replaceAll p f raw) ∧
        Ok' (Text.replaceAll p f code) m' (Text.replaceAll p f clear))
    (h : Woven Ok raw clear) : Woven Ok' (Text.replaceAll p f raw) (Text.replaceAll p f clear) := by
  induction h with
  | plain hk => exact .plain (hcode _ hk)
  | @remark code m raw clear hk hlast hm hplaced h ih =>
    obtain ⟨hcut, m', hchars, hgap, hm', hplaced'⟩ := hok code m raw clear hm hplaced h
    rw [hcut.before.replaceAll_append hp, hcut.behind.replaceAll_append hp, hcut.kept.replaceAll_append hp,
      hp.replaceAll_append_of_isWord f m.allBlank_gap.isWord_eq_false, hchars, ← hgap]
    exact .remark (hcode _ hk) (mt (hslash _) hlast) hm' hplaced' ih

/-- A pattern is used apart on the text of a comment. -/
private theorem cut_closing (ht : ∀ phrase, Phrase phrase → Tight phrase) (m : Remark) :
    Cut p m.text m.closing := by
  refine cut_of_joins_eq_false hp ht (joins_eq_false_iff.2 ?_)
  unfold Remark.closing
  split
  · simp [Meets, Spans, firstMark, isWord?, show isWord '*' = false from by decide,
      show Text.isBlank '*' = false from by decide]
  · simp [Spans, firstMark, isWord?]

/-- In a comment, places are exchanged in the text. -/
theorem replaceAll_chars (ht : ∀ phrase, Phrase phrase → Tight phrase) (f : Unit → List Char → List Char)
    (m : Remark) : Text.replaceAll p f m.chars = m.opening ++ (Text.replaceAll p f m.text ++ m.closing) := by
  have hclosing := hp.replaceAll_append_of_isWord f m.isWord_closing []
  rw [List.append_nil, show Text.replaceAll p f [] = [] from rfl, List.append_nil] at hclosing
  rw [Remark.chars, hp.replaceAll_append_of_isWord f m.isWord_opening,
    (cut_closing hp ht m).replaceAll_append hp, hclosing]

/-- A comment holds what its text holds. -/
theorem search_chars (ht : ∀ phrase, Phrase phrase → Tight phrase) (h : occurs p m.text = false) :
    search p none m.chars = none := by
  have hclosing := hp.search_append_of_isWord m.isWord_closing []
  rw [List.append_nil, search, hp.eq_none_of_nil] at hclosing
  have htext : search p none m.text = none := Option.isSome_eq_false_iff.1 h |> Option.isNone_iff_eq_none.1
  rw [Remark.chars, hp.search_append_of_isWord m.isWord_opening, (cut_closing hp ht m).search_append hp,
    htext, hclosing]
  rfl

end Patterns

/-! ### The entry function in woven texts -/

theorem Declares.notMem (hname : IsIdent name) {phrase : List Char} (h : Declares name phrase) {c : Char}
    (hc : Text.isIdentChar c = false) (hblank : Text.isBlank c = false) (hne : c ≠ '(') : c ∉ phrase := by
  obtain ⟨gap, gap', -, hgap, hgap', rfl⟩ := h
  have hvoid : IsIdent "void" := by decide
  have hword {w : String} (h : IsIdent w) : c ∉ w.toList := fun hmem => Bool.eq_false_iff.1 hc (h c hmem)
  have hblank {cs : List Char} (h : AllBlank cs) : c ∉ cs := fun hmem => Bool.eq_false_iff.1 hblank (h c hmem)
  simp only [List.mem_append, List.mem_singleton, not_or]
  exact ⟨hword hvoid, hblank hgap, hword hname, hblank hgap', hne⟩

/-- An entry function is looked for apart around a comment that stands aside, and is not found in it. -/
theorem Placed.declares {Outside : List Char → List Char → Prop} {names : List String} {m : Remark}
    {raw clear code : List Char} {Ok : List Char → Remark → List Char → Prop}
    (h : Placed Outside names code m clear) (hmem : name ∈ names) (hne : name.toList ≠ [])
    (hname : IsIdent name) (hm : m.Closes raw) (hw : Woven Ok raw clear) :
    Parted (voidDeclaration name) code m raw clear ∧ search (voidDeclaration name) none m.chars = none := by
  have hp := phrased_voidDeclaration hne hname
  have ht (phrase : List Char) (hphrase : Declares name phrase) := tight_declares hne hname hphrase
  exact ⟨h.parted hp ht (fun _ h => h.notMem hname (by decide) (by decide) (by decide)) hm hw,
    search_chars hp ht (h.silent name hmem)⟩

end RenderGraph.Source
