import RenderGraph.Proofs.Text.Phrases

/-!
# Texts with some words exchanged

A text is rewritten when some of its parts, each of which begins with a whole word, are exchanged for others
that begin with a word and end alike. What stands around the parts is kept, so the marks at both ends of the
text stay what they are up to the letters of words, and what is found in the rewritten text can be found in
the text itself as long as it is no part of what was put in.

## Main definitions

* `Text.markKind`: marks up to the letters of words
* `Text.Exchanges`: a part of a text may be exchanged for another
* `Text.Rewritten`: a text with some of its parts exchanged

## Main results

* `Text.rewritten_replaceFrom`: what a pattern exchanges
* `Text.Rewritten.markKind_firstMark`, `Text.Rewritten.markKind_lastMark`: the marks at both ends
* `Text.Rewritten.exists_of_append`, `Text.Rewritten.exists_of_cons`: what is kept is found in the text
-/

namespace RenderGraph.Text

variable {α : Type}

/-! ### Kinds of marks -/

/-- A mark, where the characters of words are all the same. -/
def markKind (c : Option Char) : Option Char :=
  if isWord? c then some 'w' else c

theorem markKind_of_isWord {c : Option Char} (h : isWord? c = true) : markKind c = some 'w' :=
  if_pos h

@[simp]
theorem isWord?_markKind (c : Option Char) : isWord? (markKind c) = isWord? c := by
  unfold markKind
  split
  · next h => rw [h]; decide
  · rfl

theorem markKind_eq_iff {c : Option Char} {d : Char} (hd : isWord d = false) :
    markKind c = some d ↔ c = some d := by
  unfold markKind
  split
  · next h =>
    refine ⟨?_, ?_⟩
    · rintro ⟨⟩
      exact absurd hd (by decide)
    · rintro rfl
      rw [show isWord? (some d) = isWord d from rfl, hd] at h
      cases h
  · rfl

theorem isWord?_eq_of_markKind {c d : Option Char} (h : markKind c = markKind d) :
    isWord? c = isWord? d := by
  rw [← isWord?_markKind c, h, isWord?_markKind]

theorem eq_some_iff_of_markKind {c d : Option Char} (h : markKind c = markKind d) {e : Char}
    (he : isWord e = false) : c = some e ↔ d = some e := by
  rw [← markKind_eq_iff he, h, markKind_eq_iff he]

theorem markKind_eq_none_iff {c : Option Char} : markKind c = none ↔ c = none := by
  cases c with
  | none => exact ⟨fun _ => rfl, fun _ => rfl⟩
  | some c =>
    unfold markKind
    split <;> simp

private theorem markKind_or {a b c d : Option Char} (h : markKind a = markKind b)
    (h' : markKind c = markKind d) : markKind (a.or c) = markKind (b.or d) := by
  cases a with
  | none =>
    rw [show markKind none = none from rfl, eq_comm, markKind_eq_none_iff] at h
    rw [h]
    exact h'
  | some a =>
    cases b with
    | none =>
      rw [show markKind none = none from rfl, markKind_eq_none_iff] at h
      cases h
    | some b => exact h

/-! ### Exchanges -/

/-- A part of a text may be exchanged for another: both begin with a word, they end alike, and the new part
opens no comment. -/
structure Exchanges (part new : List Char) : Prop where
  head : isWord? part.head? = true
  head_new : isWord? new.head? = true
  last : markKind new.getLast? = markKind part.getLast?
  ends : ∀ c ∈ part.getLast?, isBlank c = false
  slash : '/' ∉ new

namespace Exchanges

variable {part new : List Char} (h : Exchanges part new)

include h

theorem ne_nil : part ≠ [] := by
  rintro rfl
  cases h.head

theorem new_ne_nil : new ≠ [] := by
  rintro rfl
  cases h.head_new

/-- Both parts end with marks, and with the same up to the letters of words. -/
theorem markKind_lastMark : markKind (lastMark new) = markKind (lastMark part) := by
  have hlast {cs : List Char} (hb : ∀ c ∈ cs.getLast?, isBlank c = false) : lastMark cs = cs.getLast? := by
    rw [← List.head?_reverse] at hb ⊢
    unfold lastMark firstMark
    generalize cs.reverse = ds at hb ⊢
    cases ds with
    | nil => rfl
    | cons c ds => simp [hb c rfl]
  rw [hlast h.ends, hlast, h.last]
  intro c hc
  cases hw : isWord c with
  | true => exact isBlank_of_isWord hw
  | false =>
    have heq : markKind part.getLast? = some c := by
      rw [← h.last, hc]
      exact (markKind_eq_iff hw).2 rfl
    exact h.ends c ((markKind_eq_iff hw).1 heq)

end Exchanges

/-! ### Rewritten texts -/

variable {W : List Char → List Char → Prop}

/-- A text, behind a given character, with some of its parts exchanged. -/
inductive Rewritten (W : List Char → List Char → Prop) : Option Char → List Char → List Char → Prop
  | nil {prev} : Rewritten W prev [] []
  | keep {prev s s'} (c : Char) : Rewritten W (some c) s s' → Rewritten W prev (c :: s) (c :: s')
  | swap {prev part new s s'} : isWord? prev = false → W part new → Meets part s = false →
      Rewritten W part.getLast? s s' → Rewritten W prev (part ++ s) (new ++ s')

/-- What a pattern reads is exchanged, and everything else is kept. -/
theorem rewritten_replaceFrom {p : Pattern α} {f : α → List Char → List Char}
    (h : ∀ prev cs a rest, p prev cs = some (a, rest) → isWord? prev = false ∧
      ∃ part, part ≠ [] ∧ cs = part ++ rest ∧ W part (f a part) ∧ Meets part rest = false)
    (prev : Option Char) (cs : List Char) : Rewritten W prev cs (replaceFrom p f 0 prev cs) := by
  induction hlength : cs.length using Nat.strongRecOn generalizing prev cs with
  | ind n ih =>
  cases cs with
  | nil => exact .nil
  | cons c cs =>
    cases hr : p prev (c :: cs) with
    | none =>
      rw [replaceFrom, hr]
      exact .keep c (ih cs.length (by rw [← hlength]; simp) (some c) cs rfl)
    | some r =>
      obtain ⟨a, rest⟩ := r
      obtain ⟨hprev, part, hne, hcs, hpart, hmeets⟩ := h _ _ _ _ hr
      rw [hcs] at hr hlength ⊢
      rw [replaceFrom_of_read f hne hr]
      have hshort : rest.length < n := by
        have := List.length_pos_iff.2 hne
        rw [← hlength, List.length_append]
        omega
      exact .swap hprev hpart hmeets (ih rest.length hshort _ rest rfl)

theorem Phrased.rewritten {p : Pattern Unit} {Phrase : List Char → Prop} (hp : Phrased p Phrase)
    {f : Unit → List Char → List Char} (h : ∀ phrase, Phrase phrase → W phrase (f () phrase))
    (cs : List Char) : Rewritten W none cs (replaceAll p f cs) := by
  refine rewritten_replaceFrom (fun prev cs a rest hr => ?_) none cs
  obtain ⟨hprev, phrase, hphrase, hcs, hmeets⟩ := hp.read_iff.1 hr
  exact ⟨hprev, phrase, hp.ne_nil hphrase, hcs, h phrase hphrase, hmeets⟩

namespace Rewritten

variable {prev : Option Char} {s s' : List Char}

/-- Only parts of the text are exchanged. -/
theorem and_infix (h : Rewritten W prev s s') :
    Rewritten (fun part new => W part new ∧ part <:+: s) prev s s' := by
  have hmono {t : List Char} (ht : t <:+: s) (h : Rewritten W prev t s') :
      Rewritten (fun part new => W part new ∧ part <:+: s) prev t s' := by
    clear * - ht h
    induction h with
    | nil => exact .nil
    | @keep prev t t' c h ih => exact .keep c (ih ((List.suffix_cons c t).isInfix.trans ht))
    | @swap prev part new t t' hprev hpart hmeets h ih =>
      exact .swap hprev ⟨hpart, (List.prefix_append part t).isInfix.trans ht⟩ hmeets
        (ih ((List.suffix_append part t).isInfix.trans ht))
  exact hmono (List.infix_refl s) h

/-- A text may be kept as it is. -/
theorem refl (W : List Char → List Char → Prop) (prev : Option Char) (s : List Char) :
    Rewritten W prev s s := by
  induction s generalizing prev with
  | nil => exact .nil
  | cons c s ih => exact .keep c (ih (some c))

/-- What stands around a rewritten text is kept, if no part that is exchanged goes on with a word there. -/
theorem around (h : Rewritten W none s s') {before : List Char} (hbefore : isWord? before.getLast? = false)
    (hW : ∀ part new, W part new → isWord? part.getLast? = false) (behind : List Char) :
    Rewritten W none (before ++ (s ++ behind)) (before ++ (s' ++ behind)) := by
  have hprev : Rewritten W before.getLast? s s' := by
    cases h with
    | nil => exact .nil
    | keep c h => exact .keep c h
    | swap hprev hpart hmeets h => exact .swap hbefore hpart hmeets h
  have hbehind {prev : Option Char} (h : Rewritten W prev s s') :
      Rewritten W prev (s ++ behind) (s' ++ behind) := by
    clear * - h hW
    induction h with
    | nil => exact refl W _ behind
    | keep c h ih => exact .keep c ih
    | swap hprev hpart hmeets h ih =>
      rw [List.append_assoc, List.append_assoc]
      exact .swap hprev hpart (by rw [Meets, hW _ _ hpart, Bool.false_and]) ih
  have hfront {prev : Option Char} {t t' : List Char} (h : Rewritten W (before.getLast?.or prev) t t') :
      Rewritten W prev (before ++ t) (before ++ t') := by
    clear * - h
    induction before generalizing prev with
    | nil => exact h
    | cons c before ih =>
      rw [List.getLast?_cons, Option.some_or, ← Option.or_some] at h
      exact .keep c (ih h)
  exact hfront (by rw [Option.or_none]; exact hbehind hprev)

/-- Characters that the exchanges do not touch are kept. -/
theorem filter_eq {q : Char → Bool} (h : Rewritten W prev s s')
    (hW : ∀ part new, W part new → new.filter q = part.filter q) : s'.filter q = s.filter q := by
  induction h with
  | nil => rfl
  | keep c h ih => rw [List.filter_cons, List.filter_cons, ih]
  | swap hprev hpart hmeets h ih => rw [List.filter_append, List.filter_append, ih, hW _ _ hpart]

/-- A character that is not put in is in the rewritten text only if it was in the text. -/
theorem notMem {c : Char} (hc : ∀ part new, W part new → c ∉ new) (h : Rewritten W prev s s')
    (hs : c ∉ s) : c ∉ s' := by
  induction h with
  | nil => exact hs
  | keep d h ih =>
    rw [List.mem_cons, not_or] at hs ⊢
    exact ⟨hs.1, ih hs.2⟩
  | swap hprev hpart hmeets h ih =>
    rw [List.mem_append, not_or] at hs ⊢
    exact ⟨hc _ _ hpart, ih hs.2⟩

/-- The text before a character that is in no exchanged part is rewritten apart. -/
theorem exists_of_append_cons {c : Char} {a b : List Char} (hc : ∀ part new, W part new → c ∉ part)
    (h : Rewritten W prev (a ++ c :: b) s') :
    ∃ a' b', s' = a' ++ c :: b' ∧ Rewritten W prev a a' ∧ Rewritten W (some c) b b' := by
  generalize hs : a ++ c :: b = u at h
  induction h generalizing a with
  | nil => simp at hs
  | keep d h ih =>
    cases a with
    | nil =>
      obtain ⟨rfl, rfl⟩ := List.cons.inj hs
      exact ⟨[], _, rfl, .nil, h⟩
    | cons e a =>
      obtain ⟨rfl, rfl⟩ := List.cons.inj hs
      obtain ⟨a', b', rfl, ha, hb⟩ := ih rfl
      exact ⟨e :: a', b', rfl, .keep e ha, hb⟩
  | @swap prev part new t t' hprev hpart hmeets h ih =>
    have hbehind {z : List Char} (hz : z ++ c :: b = t) :
        ∃ a' b', new ++ t' = a' ++ c :: b' ∧ Rewritten W prev (part ++ z) a' ∧ Rewritten W (some c) b b' := by
      obtain ⟨a', b', rfl, ha, hb⟩ := ih hz
      refine ⟨new ++ a', b', by rw [List.append_assoc], .swap hprev hpart ?_ ha, hb⟩
      cases z with
      | nil => exact meets_nil part
      | cons d z => rwa [← hz] at hmeets
    rcases List.append_eq_append_iff.1 hs with ⟨z, rfl, hz⟩ | ⟨z, rfl, hz⟩
    · cases z with
      | nil => simpa using hbehind (z := []) hz
      | cons d z =>
        obtain ⟨rfl, -⟩ := List.cons.inj hz
        exact absurd (by simp) (hc _ _ hpart)
    · exact hbehind hz.symm

section Exchanges

variable (hW : ∀ part new, W part new → Exchanges part new)

include hW

/-- The first marks are the same up to the letters of words. -/
theorem markKind_firstMark (h : Rewritten W prev s s') :
    markKind (firstMark s') = markKind (firstMark s) := by
  induction h with
  | nil => rfl
  | @keep prev s s' c h ih =>
    cases hc : isBlank c with
    | true =>
      rw [show c :: s' = [c] ++ s' from rfl, show c :: s = [c] ++ s from rfl, firstMark_append,
        firstMark_append, firstMark_of_allBlank (List.forall_mem_singleton.2 hc)]
      exact ih
    | false => simp [firstMark, hc]
  | @swap prev part new s s' hprev hpart hmeets h ih =>
    have hhead {cs ds : List Char} (hc : isWord? cs.head? = true) :
        isWord? (firstMark (cs ++ ds)) = true := by
      cases cs with
      | nil => cases hc
      | cons c cs => rwa [firstMark_of_isWord (by exact hc)]
    rw [markKind_of_isWord (hhead (hW _ _ hpart).head_new), markKind_of_isWord (hhead (hW _ _ hpart).head)]

/-- The first characters are the same up to the letters of words. -/
theorem markKind_head? (h : Rewritten W prev s s') : markKind s'.head? = markKind s.head? := by
  cases h with
  | nil => rfl
  | keep c h => rfl
  | swap hprev hpart hmeets h =>
    rw [List.head?_append_of_ne_nil _ (hW _ _ hpart).ne_nil,
      List.head?_append_of_ne_nil _ (hW _ _ hpart).new_ne_nil, markKind_of_isWord (hW _ _ hpart).head,
      markKind_of_isWord (hW _ _ hpart).head_new]

/-- The last marks are the same up to the letters of words. -/
theorem markKind_lastMark (h : Rewritten W prev s s') :
    markKind (lastMark s') = markKind (lastMark s) := by
  induction h with
  | nil => rfl
  | @keep prev s s' c h ih =>
    rw [show c :: s' = [c] ++ s' from rfl, show c :: s = [c] ++ s from rfl, lastMark_append,
      lastMark_append]
    exact markKind_or ih rfl
  | swap hprev hpart hmeets h ih =>
    rw [lastMark_append, lastMark_append]
    exact markKind_or ih (hW _ _ hpart).markKind_lastMark

/-- The last characters are the same up to the letters of words. -/
theorem markKind_getLast? (h : Rewritten W prev s s') : markKind s'.getLast? = markKind s.getLast? := by
  induction h with
  | nil => rfl
  | @keep prev s s' c h ih =>
    rw [show c :: s' = [c] ++ s' from rfl, show c :: s = [c] ++ s from rfl, List.getLast?_append,
      List.getLast?_append]
    exact markKind_or ih rfl
  | swap hprev hpart hmeets h ih =>
    rw [List.getLast?_append, List.getLast?_append]
    exact markKind_or ih (hW _ _ hpart).last

/-! ### What is kept -/

/-- What begins no exchanged part is kept: a character that is part of a word, or with which no new part
begins. -/
theorem exists_of_cons {c : Char} (h : Rewritten W prev s (c :: s'))
    (hc : isWord? prev = true ∨ ∀ part new, W part new → new.head? ≠ some c) :
    ∃ t, s = c :: t ∧ Rewritten W (some c) t s' := by
  generalize hs : c :: s' = u at h
  cases h with
  | nil => cases hs
  | keep d h =>
    obtain ⟨rfl, rfl⟩ := List.cons.inj hs
    exact ⟨_, rfl, h⟩
  | @swap _ part new t t' hprev hpart hmeets h =>
    rcases hc with hword | hc
    · rw [hword] at hprev
      cases hprev
    · refine absurd ?_ (hc part new hpart)
      rw [← List.head?_append_of_ne_nil new (hW _ _ hpart).new_ne_nil, ← hs]
      rfl

/-- Where no part may begin, the text is kept. -/
theorem exists_of_kept {c : Char} (h : Rewritten W prev (c :: s) s')
    (hc : isWord? prev = true ∨ isWord c = false) :
    ∃ t, s' = c :: t ∧ Rewritten W (some c) s t := by
  generalize hs : c :: s = u at h
  cases h with
  | nil => cases hs
  | keep d h =>
    obtain ⟨rfl, rfl⟩ := List.cons.inj hs
    exact ⟨_, rfl, h⟩
  | @swap _ part new t t' hprev hpart hmeets h =>
    have hhead := (hW _ _ hpart).head
    rw [← List.head?_append_of_ne_nil part (hW _ _ hpart).ne_nil, ← hs] at hhead
    rcases hc with hword | hc
    · rw [hword] at hprev
      cases hprev
    · rw [show isWord? (c :: s).head? = isWord c from rfl, hc] at hhead
      cases hhead

/-- Nothing is left of nothing. -/
theorem eq_nil (h : Rewritten W prev s []) : s = [] := by
  generalize hs : ([] : List Char) = u at h
  cases h with
  | nil => rfl
  | keep d h => cases hs
  | swap hprev hpart hmeets h =>
    exact absurd (List.append_eq_nil_iff.1 hs.symm).1 (hW _ _ hpart).new_ne_nil

/-- The rest of a word is kept. -/
theorem exists_of_words {w : List Char} (hw : ∀ c ∈ w, isWord c = true)
    (h : Rewritten W prev s (w ++ s')) (hprev : isWord? prev = true) :
    ∃ t, s = w ++ t ∧ Rewritten W (w.getLast?.or prev) t s' := by
  induction w generalizing prev s with
  | nil => exact ⟨s, rfl, h⟩
  | cons c w ih =>
    rw [List.forall_mem_cons] at hw
    obtain ⟨t, rfl, ht⟩ := exists_of_cons hW h (Or.inl hprev)
    obtain ⟨t, rfl, ht⟩ := ih hw.2 ht hw.1
    exact ⟨t, rfl, by rwa [List.getLast?_cons, Option.some_or, ← Option.or_some]⟩

/-- Blanks are kept. -/
theorem exists_of_gap {gap : List Char} (hgap : AllBlank gap) (h : Rewritten W prev s (gap ++ s')) :
    ∃ t, s = gap ++ t ∧ Rewritten W (gap.getLast?.or prev) t s' := by
  induction gap generalizing prev s with
  | nil => exact ⟨s, rfl, h⟩
  | cons c gap ih =>
    rw [AllBlank, List.forall_mem_cons] at hgap
    have hc : ∀ part new, W part new → new.head? ≠ some c := by
      intro part new hpart hhead
      have hword := (hW _ _ hpart).head_new
      rw [hhead] at hword
      rw [isBlank_of_isWord hword] at hgap
      cases hgap.1
    obtain ⟨t, rfl, ht⟩ := exists_of_cons hW h (Or.inr hc)
    obtain ⟨t, rfl, ht⟩ := ih hgap.2 ht
    exact ⟨t, rfl, by rwa [List.getLast?_cons, Option.some_or, ← Option.or_some]⟩

/-- A text that is blank when it is rewritten was so before. -/
theorem eq_of_allBlank (hs : AllBlank s') (h : Rewritten W prev s s') : s = s' := by
  rw [← List.append_nil s'] at h
  obtain ⟨t, rfl, ht⟩ := h.exists_of_gap hW hs
  rw [ht.eq_nil hW, List.append_nil]

omit hW in
/-- A mark that stands in no new part is kept, wherever it stands. -/
theorem exists_of_notMem {c : Char} {a' b' : List Char} (hc : ∀ part new, W part new → c ∉ new)
    (h : Rewritten W prev s (a' ++ c :: b')) : ∃ a b, s = a ++ c :: b ∧ Rewritten W (some c) b b' := by
  generalize hs : a' ++ c :: b' = u at h
  induction h generalizing a' with
  | nil => simp at hs
  | @keep prev t t' d h ih =>
    cases a' with
    | nil =>
      obtain ⟨rfl, rfl⟩ := List.cons.inj hs
      exact ⟨[], t, rfl, h⟩
    | cons e a' =>
      obtain ⟨rfl, rfl⟩ := List.cons.inj hs
      obtain ⟨a, b, rfl, hb⟩ := ih rfl
      exact ⟨e :: a, b, rfl, hb⟩
  | @swap prev part new t t' hprev hpart hmeets h ih =>
    rcases List.append_eq_append_iff.1 hs with ⟨z, rfl, hz⟩ | ⟨z, rfl, rfl⟩
    · cases z with
      | nil =>
        obtain ⟨a, b, hab, hb⟩ := ih (show [] ++ c :: b' = t' from hz)
        exact ⟨part ++ a, b, by rw [hab, List.append_assoc], hb⟩
      | cons d z =>
        obtain ⟨rfl, -⟩ := List.cons.inj hz
        exact absurd (by simp) (hc _ _ hpart)
    · obtain ⟨a, b, rfl, hb⟩ := ih rfl
      exact ⟨part ++ a, b, by rw [List.append_assoc], hb⟩

/-- The beginning of a word is kept if no new part begins alike, and no new part has a word inside. -/
theorem exists_of_append {c : Char} {a' b' : List Char}
    (hnew : ∀ part new, W part new → new.head? ≠ some c ∧ ∀ d ∈ new.dropLast, isWord d = true)
    (ha : isWord? (a'.getLast?.or prev) = false) (h : Rewritten W prev s (a' ++ c :: b')) :
    ∃ a b, s = a ++ c :: b ∧ isWord? (a.getLast?.or prev) = false ∧ Rewritten W (some c) b b' := by
  generalize hs : a' ++ c :: b' = u at h
  induction h generalizing a' with
  | nil => simp at hs
  | @keep prev t t' d h ih =>
    cases a' with
    | nil =>
      obtain ⟨rfl, rfl⟩ := List.cons.inj hs
      exact ⟨[], t, rfl, ha, h⟩
    | cons e a' =>
      obtain ⟨rfl, rfl⟩ := List.cons.inj hs
      rw [List.getLast?_cons, Option.some_or, ← Option.or_some] at ha
      obtain ⟨a, b, rfl, ha', hb⟩ := ih ha rfl
      exact ⟨e :: a, b, rfl, by rwa [List.getLast?_cons, Option.some_or, ← Option.or_some], hb⟩
  | @swap prev part new t t' hprev hpart hmeets h ih =>
    have hlast {cs : List Char} (hne : cs ≠ []) (a : List Char) :
        (cs ++ a).getLast?.or prev = a.getLast?.or cs.getLast? := by
      rw [List.getLast?_append, Option.or_assoc, List.getLast?_eq_some_getLast hne]
      rfl
    have hpart' := (hW _ _ hpart).ne_nil
    -- Behind the new part a word goes on if and only if one does behind the part.
    have hend (a : List Char) (h : isWord? ((new ++ a).getLast?.or prev) = false) :
        isWord? (a.getLast?.or part.getLast?) = false := by
      rw [hlast (hW _ _ hpart).new_ne_nil] at h
      cases hl : a.getLast? with
      | none =>
        rw [hl, Option.none_or] at h
        rwa [Option.none_or, ← isWord?_eq_of_markKind (hW _ _ hpart).last]
      | some d => rwa [hl] at h
    rcases List.append_eq_append_iff.1 hs with ⟨z, hnew', hz⟩ | ⟨z, rfl, rfl⟩
    · cases z with
      | nil =>
        rw [List.append_nil] at hnew'
        obtain ⟨a, b, rfl, ha', hb⟩ := ih (hend [] (by rwa [List.append_nil, hnew']))
          (show [] ++ c :: b' = t' from hz)
        exact ⟨part ++ a, b, by rw [List.append_assoc], by rwa [hlast hpart'], hb⟩
      | cons d z =>
        obtain ⟨rfl, -⟩ := List.cons.inj hz
        -- Inside of the new part, the character would stand behind another one of a word.
        cases a' with
        | nil => exact absurd (by rw [hnew']; rfl) (hnew _ _ hpart).1
        | cons e a' =>
          have hne := List.cons_ne_nil e a'
          rw [List.getLast?_eq_some_getLast hne, Option.some_or] at ha
          have hinside : (e :: a').getLast hne ∈ new.dropLast := by
            rw [hnew', List.dropLast_append_cons]
            exact List.mem_append_left _ (List.getLast_mem hne)
          rw [show isWord? (some _) = isWord _ from rfl, (hnew _ _ hpart).2 _ hinside] at ha
          cases ha
    · obtain ⟨a, b, rfl, ha', hb⟩ := ih (hend z ha) rfl
      exact ⟨part ++ a, b, by rw [List.append_assoc], by rwa [hlast hpart'], hb⟩

end Exchanges

end Rewritten

end RenderGraph.Text
