import RenderGraph.Source.Comment

/-!
# Texts without comments

What stays of a text when its comments are removed holds no comment. Removing a comment brings together
what stood on both sides of it, but no comment opens there: a slash that is kept stands before the
character that it stood before, or before nothing.

## Main definitions

* `Source.opensComment`: a character and the text behind it open a comment
* `Source.Uncommented`: no comment opens in a text

## Main results

* `Source.uncommented_stripFrom`: nothing that is kept opens a comment
* `Source.stripChars_eq_self_iff`: the texts that are kept as they are
* `Source.stripComments_uncommented`
-/

namespace RenderGraph.Source

/-- A character and the text behind it open a comment that is no metadata directive. -/
def opensComment (c : Char) (cs : List Char) : Bool :=
  c = '/' && (cs.head? = some '*' || (cs.head? = some '/' && !opensMetadata (cs.drop 1)))

variable {c : Char} {cs ds : List Char}

theorem opensComment_of_ne (h : c ≠ '/') (cs : List Char) : opensComment c cs = false := by
  simp [opensComment, h]

/-- A comment is a line comment or a block comment. -/
theorem opensComment_eq_true_iff :
    opensComment c cs = true ↔ c = '/' ∧
      ((∃ ds, cs = '/' :: ds ∧ opensMetadata ds = false) ∨ ∃ ds, cs = '*' :: ds) := by
  cases cs with
  | nil => simp [opensComment]
  | cons d ds =>
    by_cases hd : d = '/'
    · simp [opensComment, hd]
    · simp [opensComment, hd]

/-- A metadata directive opens with a bracket, or with a word and a bracket. -/
theorem opensMetadata_eq_true_iff :
    opensMetadata cs = true ↔ ['['] <+: cs ∨ ['I', 't', 'e', 'm', '['] <+: cs := by
  cases cs with
  | nil => decide
  | cons d ds =>
    rw [opensMetadata, Bool.or_eq_true, List.isPrefixOf_iff_prefix, List.cons_prefix_cons]
    simp [eq_comm]

/-! ### What is kept -/

/-- Outside of comments, a character that opens none is kept. -/
theorem stripFrom_code_cons (h : opensComment c cs = false) :
    stripFrom .code (c :: cs) = c :: stripFrom .code cs := by
  by_cases hline : c = '/' ∧ cs.head? = some '/'
  · obtain ⟨rfl, hhead⟩ := hline
    obtain ⟨ds, rfl⟩ := List.head?_eq_some_iff.1 hhead
    have hm : opensMetadata ds = true := by simpa [opensComment] using h
    -- The second slash opens nothing, since what stands behind it is no slash and no star.
    have hkeep : stripFrom .code ('/' :: ds) = '/' :: stripFrom .code ds := by
      rcases opensMetadata_eq_true_iff.1 hm with ⟨rest, rfl⟩ | ⟨rest, rfl⟩ <;> simp [stripFrom]
    rw [stripFrom, if_pos hm, hkeep]
  · rw [stripFrom]
    · rintro ds rfl rfl
      exact hline ⟨rfl, rfl⟩
    · rintro ds rfl rfl
      simp [opensComment] at h

theorem stripFrom_line (h : opensMetadata cs = false) :
    stripFrom .code ('/' :: '/' :: cs) = stripFrom .lineComment cs := by
  rw [stripFrom, if_neg (by simp [h])]

theorem stripFrom_inLine (h : c ≠ '\n') : stripFrom .lineComment (c :: cs) = stripFrom .lineComment cs := by
  rw [stripFrom, if_neg h]

theorem stripFrom_inBlock (hn : c ≠ '\n') (h : c = '*' → cs.head? ≠ some '/') :
    stripFrom .blockComment (c :: cs) = stripFrom .blockComment cs := by
  rw [stripFrom, if_neg hn]
  rintro ds rfl rfl
  exact h rfl rfl

/-- Texts are read character by character: outside of comments one is kept or a comment opens, and each
kind of comment goes on or ends. -/
theorem scan_induction {P : Context → List Char → Prop} (nil : ∀ context, P context [])
    (keep : ∀ c cs, opensComment c cs = false → P .code cs → P .code (c :: cs))
    (line : ∀ cs, opensMetadata cs = false → P .lineComment cs → P .code ('/' :: '/' :: cs))
    (block : ∀ cs, P .blockComment cs → P .code ('/' :: '*' :: cs))
    (lineEnd : ∀ cs, P .code cs → P .lineComment ('\n' :: cs))
    (inLine : ∀ c cs, c ≠ '\n' → P .lineComment cs → P .lineComment (c :: cs))
    (blockEnd : ∀ cs, P .code cs → P .blockComment ('*' :: '/' :: cs))
    (newline : ∀ cs, P .blockComment cs → P .blockComment ('\n' :: cs))
    (inBlock : ∀ c cs, c ≠ '\n' → (c = '*' → cs.head? ≠ some '/') → P .blockComment cs →
      P .blockComment (c :: cs))
    (context : Context) (cs : List Char) : P context cs := by
  induction hlength : cs.length using Nat.strongRecOn generalizing context cs with
  | ind n ih =>
  cases cs with
  | nil => exact nil context
  | cons c cs =>
    have hrest (context : Context) : P context cs :=
      ih cs.length (by rw [← hlength, List.length_cons]; omega) context cs rfl
    cases context with
    | code =>
      by_cases hc : opensComment c cs = true
      · have hbehind (d : Char) (ds : List Char) (hcs : cs = d :: ds) (context : Context) :
            P context ds :=
          ih ds.length (by rw [← hlength, hcs, List.length_cons, List.length_cons]; omega) context ds rfl
        obtain ⟨rfl, ⟨ds, hcs, hm⟩ | ⟨ds, hcs⟩⟩ := opensComment_eq_true_iff.1 hc
        · exact hcs ▸ line ds hm (hbehind _ ds hcs _)
        · exact hcs ▸ block ds (hbehind _ ds hcs _)
      · exact keep c cs (by simpa using hc) (hrest _)
    | lineComment =>
      by_cases hc : c = '\n'
      · exact hc ▸ lineEnd cs (hrest _)
      · exact inLine c cs hc (hrest _)
    | blockComment =>
      by_cases hc : c = '\n'
      · exact hc ▸ newline cs (hrest _)
      · by_cases hend : c = '*' ∧ cs.head? = some '/'
        · obtain ⟨rfl, hhead⟩ := hend
          obtain ⟨ds, rfl⟩ := List.head?_eq_some_iff.1 hhead
          exact blockEnd ds (ih ds.length (by rw [← hlength, List.length_cons, List.length_cons]; omega)
            _ ds rfl)
        · exact inBlock c cs hc (fun hstar hhead => hend ⟨hstar, hhead⟩) (hrest _)

/-! ### Nothing that is kept opens a comment -/

/-- The mark behind the slashes of a metadata directive is kept. -/
theorem opensMetadata_stripFrom (h : opensMetadata cs = true) :
    opensMetadata (stripFrom .code cs) = true := by
  rw [opensMetadata_eq_true_iff] at h ⊢
  rcases h with ⟨rest, rfl⟩ | ⟨rest, rfl⟩
  · left
    exact ⟨stripFrom .code rest, by simp [stripFrom]⟩
  · right
    exact ⟨stripFrom .code rest, by simp [stripFrom]⟩

/-- A character that opens no comment opens none when comments behind it are removed. -/
theorem opensComment_stripFrom (h : opensComment c cs = false) :
    opensComment c (stripFrom .code cs) = false := by
  by_cases hc : c = '/'
  · subst hc
    cases cs with
    | nil => rfl
    | cons d ds =>
      have hd : opensComment d ds = false := by
        by_cases hd : d = '/'
        · have hm : opensMetadata ds = true := by simpa [opensComment, hd] using h
          rcases opensMetadata_eq_true_iff.1 hm with ⟨rest, rfl⟩ | ⟨rest, rfl⟩ <;> simp [opensComment]
        · exact opensComment_of_ne hd ds
      rw [stripFrom_code_cons hd]
      by_cases hslash : d = '/'
      · have hm : opensMetadata ds = true := by simpa [opensComment, hslash] using h
        simp [opensComment, hslash, opensMetadata_stripFrom hm]
      · simpa [opensComment, hslash] using h
  · exact opensComment_of_ne hc _

/-- No comment opens in the text: there is no opening of a block comment, and two slashes open a metadata
directive. -/
structure Uncommented (cs : List Char) : Prop where
  blocks : ¬ ['/', '*'] <:+: cs
  slashes : ∀ before behind, cs = before ++ '/' :: '/' :: behind → opensMetadata behind = true

theorem uncommented_nil : Uncommented [] where
  blocks := by simp
  slashes before behind h := by simp at h

theorem uncommented_cons_iff :
    Uncommented (c :: cs) ↔ opensComment c cs = false ∧ Uncommented cs := by
  constructor
  · rintro ⟨hblocks, hslashes⟩
    refine ⟨?_, fun h => hblocks (h.trans (List.suffix_cons c cs).isInfix), fun before behind h => ?_⟩
    · rw [← Bool.not_eq_true, opensComment_eq_true_iff]
      rintro ⟨rfl, ⟨ds, rfl, hm⟩ | ⟨ds, rfl⟩⟩
      · have := hslashes [] ds rfl
        rw [hm] at this
        cases this
      · exact hblocks ⟨[], ds, rfl⟩
    · exact hslashes (c :: before) behind (by rw [h, List.cons_append])
  · rintro ⟨hc, hblocks, hslashes⟩
    refine ⟨?_, ?_⟩
    · rw [List.infix_cons_iff]
      rintro (⟨ds, hds⟩ | h)
      · obtain ⟨rfl, rfl⟩ := List.cons.inj hds
        simp [opensComment] at hc
      · exact hblocks h
    · intro before behind h
      cases before with
      | nil =>
        obtain ⟨rfl, rfl⟩ := List.cons.inj h
        simpa [opensComment] using hc
      | cons b before =>
        obtain ⟨rfl, rfl⟩ := List.cons.inj h
        exact hslashes before behind rfl

/-- In what is kept of a text no comment opens. -/
theorem uncommented_stripFrom (context : Context) (cs : List Char) :
    Uncommented (stripFrom context cs) := by
  induction context, cs using scan_induction with
  | nil context => cases context <;> exact uncommented_nil
  | keep c cs hc ih =>
    rw [stripFrom_code_cons hc, uncommented_cons_iff]
    exact ⟨opensComment_stripFrom hc, ih⟩
  | line cs hm ih => rwa [stripFrom_line hm]
  | block cs ih => rwa [stripFrom]
  | lineEnd cs ih =>
    rw [stripFrom, if_pos rfl, uncommented_cons_iff]
    exact ⟨opensComment_of_ne (by decide) _, ih⟩
  | inLine c cs hc ih => rwa [stripFrom_inLine hc]
  | blockEnd cs ih => rwa [stripFrom]
  | newline cs ih =>
    rw [stripFrom, if_pos rfl, uncommented_cons_iff]
    · exact ⟨opensComment_of_ne (by decide) _, ih⟩
    · rintro ds ⟨⟩
  | inBlock c cs hc hstar ih => rwa [stripFrom_inBlock hc hstar]

/-- A text in which no comment opens is kept. -/
theorem Uncommented.stripChars_eq (h : Uncommented cs) : stripChars cs = cs := by
  induction cs with
  | nil => rfl
  | cons c cs ih =>
    obtain ⟨hc, hcs⟩ := uncommented_cons_iff.1 h
    rw [stripChars, stripFrom_code_cons hc]
    exact congrArg (c :: ·) (ih hcs)

/-- The texts without comments are those that are kept as they are. -/
theorem stripChars_eq_self_iff : stripChars cs = cs ↔ Uncommented cs :=
  ⟨fun h => h ▸ uncommented_stripFrom .code cs, Uncommented.stripChars_eq⟩

@[simp]
theorem stripChars_stripChars (cs : List Char) : stripChars (stripChars cs) = stripChars cs :=
  (uncommented_stripFrom .code cs).stripChars_eq

/-- What is kept of a body holds no comment, so that removing comments once more changes nothing, and a
body without comments is kept as it is. -/
theorem stripComments_uncommented (code : String) :
    ¬ "/*".toList <:+: (stripComments code).toList ∧
      (∀ before behind, (stripComments code).toList = before ++ "//".toList ++ behind →
        "[".toList <+: behind ∨ "Item[".toList <+: behind) ∧
      stripComments (stripComments code) = stripComments code ∧
      (stripComments code = code ↔ Uncommented code.toList) := by
  have hchars : (stripComments code).toList = stripChars code.toList := String.toList_ofList
  obtain ⟨hblocks, hslashes⟩ := uncommented_stripFrom .code code.toList
  refine ⟨?_, fun before behind h => ?_, ?_, ?_⟩
  · rw [hchars]
    exact hblocks
  · rw [hchars, List.append_assoc] at h
    exact opensMetadata_eq_true_iff.1 (hslashes before behind h)
  · rw [stripComments, hchars, stripChars_stripChars, ← stripComments]
  · rw [← String.toList_inj, hchars, stripChars_eq_self_iff]

end RenderGraph.Source
