import RenderGraph.Proofs.Source.Stripping
import RenderGraph.Proofs.Text.Rewriting
import RenderGraph.Source.Declaration

/-!
# Texts with comments woven in

A text is what is kept of it, with comments woven in: some code without comments, a comment, and so on, up to
code or up to a comment that the text does not close. Removing the comments gives the code, and the breaks of
lines inside of block comments.

## Main definitions

* `Source.Remark`: a comment as it is written, and what it leaves behind
* `Source.Woven`: a text as code with comments woven in
* `Source.Comment`, `Source.comments`: the comments of a text, with what is kept around each of them

## Main results

* `Source.Woven.stripChars_eq`: without its comments, the text is the code
* `Source.woven_of_comments`: a text is woven of its comments
-/

namespace RenderGraph.Source

/-! ### Comments as they are written -/

/-- How a comment ends: with its line, with a mark of its own, or with the text. -/
inductive Ending
  | line
  | block
  | never
  deriving DecidableEq, Repr

/-- A comment as it is written. -/
structure Remark where
  ending : Ending
  text : List Char
  deriving DecidableEq, Repr

/-- The breaks of lines in a text. -/
def breaks (cs : List Char) : List Char :=
  cs.filter (· = '\n')

namespace Remark

/-- The marks with which a comment opens. -/
def opening (m : Remark) : List Char :=
  if m.ending = .line then ['/', '/'] else ['/', '*']

/-- The marks with which a comment closes, if any. -/
def closing (m : Remark) : List Char :=
  if m.ending = .block then ['*', '/'] else []

/-- The characters of a comment. -/
def chars (m : Remark) : List Char :=
  m.opening ++ (m.text ++ m.closing)

theorem chars_line (text : List Char) : chars ⟨.line, text⟩ = '/' :: '/' :: text := by
  simp [chars, opening, closing]

theorem chars_block (text : List Char) : chars ⟨.block, text⟩ = '/' :: '*' :: (text ++ ['*', '/']) :=
  rfl

theorem chars_never (text : List Char) : chars ⟨.never, text⟩ = '/' :: '*' :: text := by
  simp [chars, opening, closing]

/-- What stays of a comment when it is removed. -/
def gap (m : Remark) : List Char :=
  if m.ending = .line then [] else breaks m.text

/-- The comment ends where its text does, before a given rest. -/
def Closes (m : Remark) (rest : List Char) : Prop :=
  match m.ending with
  | .line => '\n' ∉ m.text ∧ opensMetadata m.text = false ∧ ∀ c ∈ rest.head?, c = '\n'
  | .block => ¬ ['*', '/'] <:+: m.text
  | .never => ¬ ['*', '/'] <:+: m.text ∧ rest = []

end Remark

/-- A comment opens with a slash, and a slash or a star behind it. -/
theorem Remark.exists_chars_eq (m : Remark) : ∃ d ds, m.chars = '/' :: d :: ds ∧ (d = '/' ∨ d = '*') := by
  obtain ⟨ending, text⟩ := m
  cases ending with
  | line => exact ⟨'/', _, rfl, Or.inl rfl⟩
  | block => exact ⟨'*', _, rfl, Or.inr rfl⟩
  | never => exact ⟨'*', _, rfl, Or.inr rfl⟩

private theorem isWord_marks : Text.isWord '/' = false ∧ Text.isWord '*' = false := by
  decide

theorem Remark.isWord_opening (m : Remark) : ∀ c ∈ m.opening, Text.isWord c = false := by
  unfold Remark.opening
  split <;> simp [isWord_marks]

theorem Remark.isWord_closing (m : Remark) : ∀ c ∈ m.closing, Text.isWord c = false := by
  unfold Remark.closing
  split <;> simp [isWord_marks]

theorem allBlank_breaks (cs : List Char) : Text.AllBlank (breaks cs) := by
  intro c hc
  have : c = '\n' := by simpa [breaks] using (List.mem_filter.1 hc).2
  rw [this]
  decide

theorem breaks_eq_nil_iff {cs : List Char} : breaks cs = [] ↔ '\n' ∉ cs := by
  rw [breaks, List.filter_eq_nil_iff]
  refine ⟨fun h hmem => h _ hmem (by decide), fun h c hc hn => ?_⟩
  obtain rfl : c = '\n' := by simpa using hn
  exact h hc

theorem Remark.allBlank_gap (m : Remark) : Text.AllBlank m.gap := by
  unfold Remark.gap
  split
  · exact List.forall_mem_nil _
  · exact allBlank_breaks _

variable {c : Char} {k text rest cs : List Char}

/-- What holds no character with which the second text begins stands in the first one. -/
theorem prefix_of_notMem {part : List Char} (h : part <+: k ++ c :: rest) (hc : c ∉ part) : part <+: k := by
  obtain ⟨z, hz⟩ := h
  rcases List.append_eq_append_iff.1 hz with ⟨behind, hk, -⟩ | ⟨behind, rfl, hbehind⟩
  · exact ⟨behind, hk.symm⟩
  · cases behind with
    | nil => exact ⟨[], by simp⟩
    | cons d behind =>
      obtain ⟨rfl, -⟩ := List.cons.inj hbehind
      exact absurd (by simp) hc

/-! ### Code -/

/-- Code that does not end with a slash opens no comment with what stands behind it. -/
theorem opensComment_append (h : Uncommented (c :: k)) (hlast : (c :: k).getLast? ≠ some '/')
    (rest : List Char) : opensComment c (k ++ rest) = false := by
  by_cases hc : c = '/'
  · subst hc
    have hopen := (uncommented_cons_iff.1 h).1
    cases k with
    | nil => exact absurd rfl hlast
    | cons d k =>
      by_cases hd : d = '/'
      · have hm : opensMetadata k = true := by simpa [opensComment, hd] using hopen
        have hm' : opensMetadata (k ++ rest) = true := by
          rw [opensMetadata_eq_true_iff] at hm ⊢
          exact hm.imp (·.trans (List.prefix_append k rest)) (·.trans (List.prefix_append k rest))
        simp [opensComment, hd, hm']
      · simpa [opensComment, hd] using hopen
  · exact opensComment_of_ne hc _

private theorem getLast?_ne_of_cons (hlast : (c :: k).getLast? ≠ some '/') : k.getLast? ≠ some '/' := by
  intro h
  rw [List.getLast?_cons, h] at hlast
  exact hlast rfl

/-- Code that does not end with a slash is kept. -/
theorem stripFrom_append (h : Uncommented k) (hlast : k.getLast? ≠ some '/') (rest : List Char) :
    stripFrom .code (k ++ rest) = k ++ stripFrom .code rest := by
  induction k with
  | nil => rfl
  | cons c k ih =>
    rw [List.cons_append, stripFrom_code_cons (opensComment_append h hlast rest),
      ih (uncommented_cons_iff.1 h).2 (getLast?_ne_of_cons hlast)]
    rfl

/-- Around a character that belongs to no mark of a comment, code is code apart. -/
theorem uncommented_append_cons_iff (hc : c ∉ ['/', '*', '[', 'I', 't', 'e', 'm']) :
    Uncommented (k ++ c :: rest) ↔ Uncommented (k ++ [c]) ∧ Uncommented rest := by
  simp only [List.mem_cons, List.not_mem_nil, or_false, not_or] at hc
  have hmeta (cs : List Char) : opensMetadata (cs ++ c :: rest) = opensMetadata (cs ++ [c]) := by
    have hbegins {part ds : List Char} (hpart : c ∉ part) : part <+: cs ++ c :: ds ↔ part <+: cs :=
      ⟨(prefix_of_notMem · hpart), (·.trans (List.prefix_append cs _))⟩
    rw [Bool.eq_iff_iff, opensMetadata_eq_true_iff, opensMetadata_eq_true_iff, hbegins (by simp [hc]),
      hbegins (by simp [hc]), hbegins (by simp [hc]), hbegins (by simp [hc])]
  have hopens (d : Char) (cs : List Char) :
      opensComment d (cs ++ c :: rest) = opensComment d (cs ++ [c]) := by
    cases cs with
    | nil =>
      rw [List.nil_append, List.nil_append, opensComment, opensComment]
      simp [hc]
    | cons e cs =>
      rw [List.cons_append, List.cons_append, opensComment, opensComment, List.head?_cons, List.head?_cons,
        List.drop_succ_cons, List.drop_succ_cons, List.drop_zero, List.drop_zero, hmeta]
  induction k with
  | nil =>
    rw [List.nil_append, List.nil_append, uncommented_cons_iff, uncommented_cons_iff]
    simp [opensComment_of_ne hc.1, uncommented_nil]
  | cons d k ih =>
    rw [List.cons_append, List.cons_append, uncommented_cons_iff, uncommented_cons_iff, hopens, and_assoc]
    exact and_congr_right fun _ => ih

/-! ### Inside of comments -/

/-- A metadata directive opens on its line. -/
private theorem opensMetadata_line (h : opensMetadata text = false) (hrest : ∀ c ∈ rest.head?, c = '\n') :
    opensMetadata (text ++ rest) = false := by
  cases rest with
  | nil => rwa [List.append_nil]
  | cons d rest =>
    obtain rfl := hrest d rfl
    rw [← Bool.not_eq_true, opensMetadata_eq_true_iff] at h ⊢
    exact fun h' => h (h'.imp (prefix_of_notMem · (by decide)) (prefix_of_notMem · (by decide)))

private theorem stripFrom_line_append (h : '\n' ∉ text) (hrest : ∀ c ∈ rest.head?, c = '\n') :
    stripFrom .lineComment (text ++ rest) = stripFrom .code rest := by
  induction text with
  | nil =>
    cases rest with
    | nil => rfl
    | cons c rest =>
      obtain rfl := hrest c rfl
      rw [List.nil_append, stripFrom_code_cons (opensComment_of_ne (by decide) _), stripFrom, if_pos rfl]
  | cons c text ih =>
    rw [List.mem_cons, not_or] at h
    rw [List.cons_append, stripFrom_inLine (Ne.symm h.1), ih h.2]

/-- In a block comment without a closing mark no star stands before a slash. -/
private theorem head?_append_ne (h : ¬ ['*', '/'] <:+: c :: text) {rest : List Char}
    (hrest : rest.head? ≠ some '/') (hc : c = '*') : (text ++ rest).head? ≠ some '/' := by
  cases text with
  | nil => exact hrest
  | cons d text =>
    rintro ⟨⟩
    exact h ⟨[], text, by rw [hc]; rfl⟩

private theorem head?_ne (h : ¬ ['*', '/'] <:+: c :: text) (hc : c = '*') : text.head? ≠ some '/' := by
  rw [← List.append_nil text]
  exact head?_append_ne h (by simp) hc

private theorem not_infix_of_cons (h : ¬ ['*', '/'] <:+: c :: text) : ¬ ['*', '/'] <:+: text :=
  fun h' => h (h'.trans (List.suffix_cons c text).isInfix)

/-- A block comment leaves its breaks of lines, whether it is closed or not. -/
private theorem stripFrom_blockComment (h : ¬ ['*', '/'] <:+: text) (rest : List Char) :
    stripFrom .blockComment text = breaks text ∧
      stripFrom .blockComment (text ++ '*' :: '/' :: rest) = breaks text ++ stripFrom .code rest := by
  induction text with
  | nil => exact ⟨rfl, by rw [List.nil_append, stripFrom]; rfl⟩
  | cons c text ih =>
    obtain ⟨ihnever, ihblock⟩ := ih (not_infix_of_cons h)
    by_cases hn : c = '\n'
    · subst hn
      rw [List.cons_append, stripFrom, stripFrom, if_pos rfl, if_pos rfl, ihnever, ihblock]
      · exact ⟨rfl, rfl⟩
      · rintro _ ⟨⟩
      · rintro _ ⟨⟩
    · have hbreaks : breaks (c :: text) = breaks text := by simp [breaks, hn]
      rw [List.cons_append, stripFrom_inBlock hn (head?_ne h),
        stripFrom_inBlock hn (head?_append_ne h (by simp)), hbreaks]
      exact ⟨ihnever, ihblock⟩

/-! ### Woven texts -/

/-- A text as code with comments woven in, where each comment is in order with respect to the code since the
comment before it and to everything that is kept behind it. -/
inductive Woven (Ok : List Char → Remark → List Char → Prop) : List Char → List Char → Prop
  | plain {code} : Uncommented code → Woven Ok code code
  | remark {code m raw clear} : Uncommented code → code.getLast? ≠ some '/' → m.Closes raw →
      Ok code m clear → Woven Ok raw clear →
      Woven Ok (code ++ (m.chars ++ raw)) (code ++ (m.gap ++ clear))

/-- A comment is removed up to its breaks of lines. -/
theorem stripFrom_remark {m : Remark} (h : m.Closes rest) :
    stripFrom .code (m.chars ++ rest) = m.gap ++ stripFrom .code rest := by
  obtain ⟨ending, text⟩ := m
  cases ending with
  | line =>
    obtain ⟨hline, hm, hrest⟩ := h
    rw [Remark.chars_line, List.cons_append, List.cons_append,
      stripFrom_line (opensMetadata_line hm hrest), stripFrom_line_append hline hrest]
    rfl
  | block =>
    rw [Remark.chars_block, List.cons_append, List.cons_append, stripFrom, List.append_assoc]
    exact (stripFrom_blockComment h rest).2
  | never =>
    obtain ⟨htext, rfl⟩ := h
    rw [Remark.chars_never, List.append_nil, stripFrom]
    exact ((stripFrom_blockComment htext []).1).trans (List.append_nil _).symm

namespace Woven

variable {Ok Ok' : List Char → Remark → List Char → Prop} {raw clear : List Char}

/-- Without its comments, the text is the code. -/
theorem stripChars_eq (h : Woven Ok raw clear) : stripChars raw = clear := by
  induction h with
  | plain hk => exact hk.stripChars_eq
  | remark hk hlast hm hok h ih =>
    rw [stripChars, stripFrom_append hk hlast, stripFrom_remark hm, ← stripChars, ih]

theorem mono (hok : ∀ k m clear, Ok k m clear → Ok' k m clear) (h : Woven Ok raw clear) :
    Woven Ok' raw clear := by
  induction h with
  | plain hk => exact .plain hk
  | remark hk hlast hm hok' h ih => exact .remark hk hlast hm (hok _ _ _ hok') ih

/-- What holds no slash and stands at the beginning of the text belongs to the code. -/
theorem prefix_clear (h : Woven Ok raw clear) {part : List Char} (hslash : '/' ∉ part) (hp : part <+: raw) :
    part <+: clear := by
  cases h with
  | plain hk => exact hp
  | @remark code m raw clear hk hlast hm hok h =>
    obtain ⟨d, ds, hchars, -⟩ := m.exists_chars_eq
    rw [hchars, List.cons_append] at hp
    exact (prefix_of_notMem hp hslash).trans (List.prefix_append _ _)

end Woven

/-! ### The comments of a text -/

/-- A comment of a text, with what is kept of the text before it and behind it. -/
structure Comment where
  before : List Char
  text : List Char
  behind : List Char
  ending : Ending
  deriving DecidableEq, Repr

/-- The comments from a given context on, behind some text of which a part is kept. Inside of a comment, a
part of its text has been read. -/
def commentsFrom : Context → List Char → List Char → List Char → List Comment
  | .code, _, _, [] => []
  | .lineComment, before, text, [] => [{ before, text, behind := [], ending := .line }]
  | .blockComment, before, text, [] => [{ before, text, behind := breaks text, ending := .never }]
  | .code, before, _, '/' :: '/' :: cs =>
    if opensMetadata cs then commentsFrom .code (before ++ ['/', '/']) [] cs
    else commentsFrom .lineComment before [] cs
  | .code, before, _, '/' :: '*' :: cs => commentsFrom .blockComment before [] cs
  | .code, before, _, c :: cs => commentsFrom .code (before ++ [c]) [] cs
  | .lineComment, before, text, c :: cs =>
    if c = '\n' then
      { before, text, behind := c :: stripFrom .code cs, ending := .line } ::
        commentsFrom .code (before ++ [c]) [] cs
    else commentsFrom .lineComment before (text ++ [c]) cs
  | .blockComment, before, text, '*' :: '/' :: cs =>
    { before, text, behind := breaks text ++ stripFrom .code cs, ending := .block } ::
      commentsFrom .code (before ++ breaks text) [] cs
  | .blockComment, before, text, c :: cs => commentsFrom .blockComment before (text ++ [c]) cs

/-- The comments of a body. -/
def comments (code : String) : List Comment :=
  commentsFrom .code [] [] code.toList

section Scan

variable {before seen : List Char}

private theorem commentsFrom_cons (h : opensComment c cs = false) :
    commentsFrom .code before seen (c :: cs) = commentsFrom .code (before ++ [c]) [] cs := by
  by_cases hline : c = '/' ∧ cs.head? = some '/'
  · obtain ⟨rfl, hhead⟩ := hline
    obtain ⟨ds, rfl⟩ := List.head?_eq_some_iff.1 hhead
    have hm : opensMetadata ds = true := by simpa [opensComment] using h
    rw [commentsFrom, if_pos hm]
    rcases opensMetadata_eq_true_iff.1 hm with ⟨rest, rfl⟩ | ⟨rest, rfl⟩ <;> simp [commentsFrom]
  · rw [commentsFrom]
    · rintro ds rfl rfl
      exact hline ⟨rfl, rfl⟩
    · rintro ds rfl rfl
      simp [opensComment] at h

private theorem commentsFrom_append (h : Uncommented k) (hlast : k.getLast? ≠ some '/') (rest : List Char) :
    commentsFrom .code before [] (k ++ rest) = commentsFrom .code (before ++ k) [] rest := by
  induction k generalizing before with
  | nil => rw [List.nil_append, List.append_nil]
  | cons c k ih =>
    rw [List.cons_append, commentsFrom_cons (opensComment_append h hlast rest),
      ih (uncommented_cons_iff.1 h).2 (getLast?_ne_of_cons hlast), List.append_assoc]
    rfl

private theorem commentsFrom_line_append (h : '\n' ∉ text) (hrest : ∀ c ∈ rest.head?, c = '\n') :
    commentsFrom .lineComment before seen (text ++ rest) =
      { before, text := seen ++ text, behind := stripFrom .code rest, ending := .line } ::
        commentsFrom .code before [] rest := by
  induction text generalizing seen with
  | nil =>
    cases rest with
    | nil => simp [commentsFrom, stripFrom]
    | cons c rest =>
      obtain rfl := hrest c rfl
      rw [List.nil_append, stripFrom_code_cons (opensComment_of_ne (by decide) _),
        commentsFrom_cons (opensComment_of_ne (by decide) _), commentsFrom, if_pos rfl, List.append_nil]
  | cons c text ih =>
    rw [List.mem_cons, not_or] at h
    rw [List.cons_append, commentsFrom, if_neg (Ne.symm h.1), ih h.2, List.append_assoc]
    rfl

private theorem commentsFrom_inBlock (h : c = '*' → cs.head? ≠ some '/') :
    commentsFrom .blockComment before seen (c :: cs) =
      commentsFrom .blockComment before (seen ++ [c]) cs := by
  rw [commentsFrom]
  rintro ds rfl rfl
  exact h rfl rfl

private theorem commentsFrom_blockComment (h : ¬ ['*', '/'] <:+: text) (rest : List Char) :
    commentsFrom .blockComment before seen text =
        [{ before, text := seen ++ text, behind := breaks (seen ++ text), ending := .never }] ∧
      commentsFrom .blockComment before seen (text ++ '*' :: '/' :: rest) =
        { before, text := seen ++ text, behind := breaks (seen ++ text) ++ stripFrom .code rest,
          ending := .block } :: commentsFrom .code (before ++ breaks (seen ++ text)) [] rest := by
  induction text generalizing seen with
  | nil => simp [commentsFrom]
  | cons c text ih =>
    have ih := @ih (seen ++ [c]) (not_infix_of_cons h)
    rw [List.append_assoc, List.singleton_append] at ih
    rwa [List.cons_append, commentsFrom_inBlock (head?_ne h),
      commentsFrom_inBlock (head?_append_ne h (by simp))]

/-- The first comment behind some code, and those behind it. -/
private theorem commentsFrom_remark {m : Remark} (hk : Uncommented k) (hlast : k.getLast? ≠ some '/')
    (hm : m.Closes rest) : commentsFrom .code before [] (k ++ (m.chars ++ rest)) =
      { before := before ++ k, text := m.text, behind := m.gap ++ stripFrom .code rest,
        ending := m.ending } :: commentsFrom .code (before ++ k ++ m.gap) [] rest := by
  rw [commentsFrom_append hk hlast]
  obtain ⟨ending, text⟩ := m
  cases ending with
  | line =>
    obtain ⟨hline, hmeta, hrest⟩ := hm
    rw [Remark.chars_line, List.cons_append, List.cons_append, commentsFrom,
      if_neg (by rw [opensMetadata_line hmeta hrest]; simp), commentsFrom_line_append hline hrest]
    simp [Remark.gap]
  | block =>
    rw [Remark.chars_block, List.cons_append, List.cons_append, commentsFrom, List.append_assoc]
    exact (commentsFrom_blockComment hm rest).2
  | never =>
    obtain ⟨htext, rfl⟩ := hm
    rw [Remark.chars_never, List.append_nil, commentsFrom]
    refine (commentsFrom_blockComment htext []).1.trans ?_
    simp [stripFrom, Remark.gap]

end Scan

/-! ### How texts are woven -/

/-- A text either holds no mark that closes a block comment, or has a first one. -/
private theorem exists_close (cs : List Char) : ¬ ['*', '/'] <:+: cs ∨
    ∃ text rest, cs = text ++ '*' :: '/' :: rest ∧ ¬ ['*', '/'] <:+: text := by
  induction cs with
  | nil => exact Or.inl (by simp)
  | cons c cs ih =>
    by_cases hclose : ['*', '/'] <+: c :: cs
    · obtain ⟨rest, hrest⟩ := hclose
      exact Or.inr ⟨[], rest, hrest.symm, by simp⟩
    · rcases ih with h | ⟨text, rest, rfl, htext⟩
      · exact Or.inl fun h' => (List.infix_cons_iff.1 h').elim hclose h
      · refine Or.inr ⟨c :: text, rest, rfl, fun h' => (List.infix_cons_iff.1 h').elim (fun h' => ?_) htext⟩
        exact hclose (h'.trans ⟨'*' :: '/' :: rest, rfl⟩)

/-- A character that opens no comment is code before a comment. -/
private theorem uncommented_cons_of_opensComment {code : List Char} {m : Remark} {rest : List Char}
    (hc : opensComment c (code ++ (m.chars ++ rest)) = false) (hk : Uncommented code)
    (hlast : code.getLast? ≠ some '/') :
    Uncommented (c :: code) ∧ (c :: code).getLast? ≠ some '/' := by
  obtain ⟨d, ds, hchars, hd⟩ := m.exists_chars_eq
  rw [hchars] at hc
  rw [uncommented_cons_iff]
  by_cases hslash : c = '/'
  · subst hslash
    cases code with
    | nil => rcases hd with rfl | rfl <;> simp [opensComment, opensMetadata] at hc
    | cons e code =>
      refine ⟨⟨?_, hk⟩, by rwa [List.getLast?_cons_cons]⟩
      by_cases he : e = '/'
      · have hm : opensMetadata (code ++ '/' :: d :: (ds ++ rest)) = true := by
          simpa [opensComment, he] using hc
        rw [opensMetadata_eq_true_iff] at hm
        have hm' := hm.imp (prefix_of_notMem · (by decide)) (prefix_of_notMem · (by decide))
        simp [opensComment, he, opensMetadata_eq_true_iff.2 hm']
      · simpa [opensComment, he] using hc
  · refine ⟨⟨opensComment_of_ne hslash _, hk⟩, ?_⟩
    rw [List.getLast?_cons]
    cases hl : code.getLast? with
    | none => simpa using hslash
    | some e => rwa [hl] at hlast

/-- A text either holds no comment, or begins with some code and a comment behind it. -/
private theorem exists_remark (cs : List Char) : Uncommented cs ∨ ∃ code m rest,
    cs = code ++ (Remark.chars m ++ rest) ∧ Uncommented code ∧ code.getLast? ≠ some '/' ∧ m.Closes rest := by
  induction cs with
  | nil => exact Or.inl uncommented_nil
  | cons c cs ih =>
    cases hc : opensComment c cs with
    | true =>
      right
      obtain ⟨rfl, ⟨ds, rfl, hm⟩ | ⟨ds, rfl⟩⟩ := opensComment_eq_true_iff.1 hc
      · have hopens : opensMetadata (Text.line ds) = false := by
          rw [← Bool.not_eq_true, opensMetadata_eq_true_iff] at hm ⊢
          have hline := List.prefix_append (Text.line ds) (Text.behindLine ds)
          rw [Text.line_append_behindLine] at hline
          exact fun h => hm (h.imp (·.trans hline) (·.trans hline))
        refine ⟨[], ⟨.line, Text.line ds⟩, Text.behindLine ds, ?_, uncommented_nil, by simp,
          Text.notMem_line ds, hopens, ?_⟩
        · rw [Remark.chars_line, List.nil_append, List.cons_append, List.cons_append,
            Text.line_append_behindLine]
        · rcases Text.behindLine_eq_nil_or ds with h | h <;> simp [h]
      · rcases exists_close ds with htext | ⟨text, rest, rfl, htext⟩
        · refine ⟨[], ⟨.never, ds⟩, [], ?_, uncommented_nil, by simp, htext, rfl⟩
          rw [Remark.chars_never, List.nil_append, List.append_nil]
        · refine ⟨[], ⟨.block, text⟩, rest, ?_, uncommented_nil, by simp, htext⟩
          simp [Remark.chars_block]
    | false =>
      rcases ih with h | ⟨code, m, rest, rfl, hk, hlast, hm⟩
      · exact Or.inl (uncommented_cons_iff.2 ⟨hc, h⟩)
      · obtain ⟨hk', hlast'⟩ := uncommented_cons_of_opensComment hc hk hlast
        exact Or.inr ⟨c :: code, m, rest, rfl, hk', hlast', hm⟩

/-- Where no word goes on over a comment, none goes on over what is left of it. -/
private theorem meets_gap {before behind gap : List Char} (hgap : Text.AllBlank gap)
    (h : Text.Meets before (gap ++ behind) = false) : Text.Meets (before ++ gap) behind = false := by
  cases hlast : gap.getLast? with
  | none =>
    obtain rfl := List.getLast?_eq_none_iff.1 hlast
    rwa [List.append_nil]
  | some c =>
    rw [Text.Meets, List.getLast?_append, hlast, Option.some_or,
      show Text.isWord? (some c) = Text.isWord c from rfl,
      hgap.isWord_eq_false c (List.mem_of_getLast? hlast), Bool.false_and]

/-- A text is woven of its comments, if each is in order and no word goes on over one. -/
theorem woven_of_comments {P : Comment → Prop} (hmeets : ∀ c, P c → Text.Meets c.before c.behind = false)
    {code : String} (h : ∀ c ∈ comments code, P c) :
    Woven (fun code m clear => ∃ before, Text.Meets before code = false ∧
        P { before := before ++ code, text := m.text, behind := m.gap ++ clear, ending := m.ending })
      code.toList (stripChars code.toList) := by
  have hrest (cs before : List Char) (hbefore : Text.Meets before (stripChars cs) = false)
      (h : ∀ c ∈ commentsFrom .code before [] cs, P c) :
      Woven (fun code m clear => ∃ before, Text.Meets before code = false ∧
        P { before := before ++ code, text := m.text, behind := m.gap ++ clear, ending := m.ending })
        cs (stripChars cs) := by
    induction hlength : cs.length using Nat.strongRecOn generalizing cs before with
    | ind n ih =>
    rcases exists_remark cs with hcs | ⟨code, m, rest, rfl, hk, hlast, hm⟩
    · rw [hcs.stripChars_eq]
      exact .plain hcs
    · rw [commentsFrom_remark hk hlast hm, List.forall_mem_cons] at h
      have hshort : rest.length < n := by
        obtain ⟨d, ds, hchars, -⟩ := m.exists_chars_eq
        rw [← hlength, hchars]
        simp
        omega
      have hstrip : stripChars (code ++ (m.chars ++ rest)) = code ++ (m.gap ++ stripChars rest) := by
        rw [stripChars, stripFrom_append hk hlast, stripFrom_remark hm, ← stripChars]
      have hwoven := ih rest.length hshort rest _ (meets_gap m.allBlank_gap (hmeets _ h.1)) h.2 rfl
      rw [hstrip] at hbefore ⊢
      refine .remark hk hlast hm ⟨before, ?_, h.1⟩ hwoven
      cases code with
      | nil => exact Text.meets_nil before
      | cons c code => exact hbefore
  exact hrest code.toList [] rfl h

end RenderGraph.Source
