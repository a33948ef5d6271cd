import Mathlib.Data.List.Basic
import RenderGraph.Proofs.Text.Searching

/-!
# Phrases, and where a text can be cut

Some patterns read a phrase: a few words and marks with blanks between them, which begins with a whole word
and ends with one or with a mark. Such a pattern can be used apart on both parts of a text unless a phrase
goes over the cut.

## Main definitions

* `Text.Phrased`: a pattern that reads phrases
* `Text.firstMark`, `Text.lastMark`: the outermost characters of a text that are not blank
* `Text.Meets`: a word goes on from one text to another
* `Text.Cut`: a pattern reads in a text what it reads there when more text stands behind

## Main results

* `Text.Phrased.cut`: two texts are a cut if no phrase goes over it
* `Text.Cut.replaceAll_append`, `Text.Cut.search_append`: a pattern is used apart on both sides of a cut
-/

namespace RenderGraph.Text

/-! ### What the parts of a pattern read -/

/-- The text consists of blanks. -/
def AllBlank (cs : List Char) : Prop :=
  ∀ c ∈ cs, isBlank c = true

/-- What follows some blanks is read behind them. -/
theorem exists_of_blanks1 {β : Type} {next : List Char → Option β} {cs : List Char} {r : β}
    (h : blanks1 next cs = some r) : ∃ gap rest, AllBlank gap ∧ cs = gap ++ rest ∧ next rest = some r := by
  induction cs with
  | nil => cases h
  | cons c cs ih =>
    rw [blanks1] at h
    split at h
    · next hc =>
      rw [Option.orElse_eq_orElse, Option.orElse_eq_or, Option.or_eq_some_iff] at h
      rcases h with h | ⟨-, h⟩
      · obtain ⟨gap, rest, hgap, rfl, hr⟩ := ih h
        exact ⟨c :: gap, rest, List.forall_mem_cons.2 ⟨hc, hgap⟩, rfl, hr⟩
      · exact ⟨[c], cs, List.forall_mem_singleton.2 hc, rfl, h⟩
    · cases h

theorem exists_of_blanks0 {β : Type} {next : List Char → Option β} {cs : List Char} {r : β}
    (h : blanks0 next cs = some r) : ∃ gap rest, AllBlank gap ∧ cs = gap ++ rest ∧ next rest = some r := by
  rw [blanks0, Option.orElse_eq_orElse, Option.orElse_eq_or, Option.or_eq_some_iff] at h
  rcases h with h | ⟨-, h⟩
  · exact exists_of_blanks1 h
  · exact ⟨[], cs, List.forall_mem_nil _, rfl, h⟩

theorem exists_of_word {β : Type} {next : List Char → Option β} {w : String} {cs : List Char} {r : β}
    (h : word w next cs = some r) : ∃ rest, cs = w.toList ++ rest ∧ next rest = some r := by
  obtain ⟨rest, hrest, h⟩ := Option.bind_eq_some_iff.1 h
  exact ⟨rest, after?_eq_some_iff.1 hrest, h⟩

section Results

variable {β γ : Type} {g : β → γ} {next : List Char → Option β} {next' : List Char → Option γ}
  (h : ∀ cs, next' cs = (next cs).map g)

include h

theorem word_map (w : String) (cs : List Char) : word w next' cs = (word w next cs).map g := by
  rw [word, word, Option.map_bind]
  exact congrArg _ (funext h)

theorem blanks1_map (cs : List Char) : blanks1 next' cs = (blanks1 next cs).map g := by
  induction cs with
  | nil => rfl
  | cons c cs ih =>
    rw [blanks1, blanks1]
    split
    · rw [ih, h, Option.orElse_eq_orElse, Option.orElse_eq_or, Option.orElse_eq_orElse, Option.orElse_eq_or,
        Option.map_or]
    · rfl

theorem blanks0_map (cs : List Char) : blanks0 next' cs = (blanks0 next cs).map g := by
  rw [blanks0, blanks0, blanks1_map h, h, Option.orElse_eq_orElse, Option.orElse_eq_or,
    Option.orElse_eq_orElse, Option.orElse_eq_or, Option.map_or]

end Results

section Parts

variable {next : List Char → Option (Unit × List Char)} {Phrase : List Char → Prop}

/-- A part of a pattern reads what has a property, whatever stands behind. -/
def ReadsAs (next : List Char → Option (Unit × List Char)) (Phrase : List Char → Prop) : Prop :=
  ∀ cs rest, next cs = some ((), rest) ↔ ∃ phrase, Phrase phrase ∧ cs = phrase ++ rest

/-- What is read does not begin with a blank. -/
def StartsMarked (Phrase : List Char → Prop) : Prop :=
  ∀ phrase, Phrase phrase → ∃ c cs, phrase = c :: cs ∧ isBlank c = false

namespace ReadsAs

theorem congr {Phrase' : List Char → Prop} (h : ReadsAs next Phrase)
    (hiff : ∀ phrase, Phrase phrase ↔ Phrase' phrase) : ReadsAs next Phrase' := by
  intro cs rest
  simp only [h cs rest, hiff]

theorem done : ReadsAs (done ()) (· = []) := by
  intro cs rest
  simp [Text.done]

theorem word (h : ReadsAs next Phrase) (w : String) :
    ReadsAs (word w next) fun phrase => ∃ z, Phrase z ∧ phrase = w.toList ++ z := by
  intro cs rest
  rw [Text.word, Option.bind_eq_some_iff]
  simp only [after?_eq_some_iff, h _ rest]
  constructor
  · rintro ⟨_, rfl, z, hz, rfl⟩
    exact ⟨_, ⟨z, hz, rfl⟩, by rw [List.append_assoc]⟩
  · rintro ⟨_, ⟨z, hz, rfl⟩, rfl⟩
    exact ⟨z ++ rest, by rw [List.append_assoc], z, hz, rfl⟩

/-- Where a blank is, nothing is read that does not begin with one. -/
private theorem eq_none_of_isBlank (h : ReadsAs next Phrase) (hm : StartsMarked Phrase) {c : Char}
    (hc : isBlank c = true) (cs : List Char) : next (c :: cs) = none := by
  rw [Option.eq_none_iff_forall_ne_some]
  rintro ⟨⟨⟩, rest⟩ hr
  obtain ⟨phrase, hphrase, hcs⟩ := (h _ _).1 hr
  obtain ⟨d, ds, rfl, hd⟩ := hm phrase hphrase
  obtain ⟨rfl, -⟩ := List.cons.inj hcs
  rw [hc] at hd
  cases hd

/-- Where something is read, there are no blanks before it. -/
private theorem blanks1_eq_none (h : ReadsAs next Phrase) (hm : StartsMarked Phrase) {cs : List Char}
    {r : Unit × List Char} (hr : next cs = some r) : Text.blanks1 next cs = none := by
  cases cs with
  | nil => rfl
  | cons c cs =>
    rw [Text.blanks1, if_neg]
    intro hc
    rw [h.eq_none_of_isBlank hm hc] at hr
    cases hr

theorem blanks1 (h : ReadsAs next Phrase) (hm : StartsMarked Phrase) : ReadsAs (blanks1 next)
    fun phrase => ∃ gap z, gap ≠ [] ∧ AllBlank gap ∧ Phrase z ∧ phrase = gap ++ z := by
  intro cs rest
  induction cs with
  | nil =>
    refine ⟨fun hr => (nomatch hr), ?_⟩
    rintro ⟨_, ⟨gap, z, hne, -, -, rfl⟩, hcs⟩
    simp [hne] at hcs
  | cons c cs ih =>
    rw [Text.blanks1]
    constructor
    · intro hr
      split at hr
      · next hc =>
        rw [Option.orElse_eq_orElse, Option.orElse_eq_or, Option.or_eq_some_iff] at hr
        rcases hr with hr | ⟨-, hr⟩
        · obtain ⟨_, ⟨gap, z, -, hgap, hz, rfl⟩, rfl⟩ := ih.1 hr
          exact ⟨c :: gap ++ z, ⟨c :: gap, z, List.cons_ne_nil _ _,
            List.forall_mem_cons.2 ⟨hc, hgap⟩, hz, rfl⟩, rfl⟩
        · obtain ⟨z, hz, rfl⟩ := (h _ _).1 hr
          exact ⟨c :: z, ⟨[c], z, List.cons_ne_nil _ _, List.forall_mem_singleton.2 hc, hz, rfl⟩, rfl⟩
      · cases hr
    · rintro ⟨_, ⟨gap, z, hne, hgap, hz, rfl⟩, hcs⟩
      cases gap with
      | nil => exact absurd rfl hne
      | cons d gap =>
        obtain ⟨rfl, rfl⟩ := List.cons.inj hcs
        rw [AllBlank, List.forall_mem_cons] at hgap
        rw [if_pos hgap.1, Option.orElse_eq_orElse, Option.orElse_eq_or, Option.or_eq_some_iff]
        cases gap with
        | nil =>
          have hr := (h (z ++ rest) rest).2 ⟨z, hz, rfl⟩
          exact Or.inr ⟨h.blanks1_eq_none hm hr, hr⟩
        | cons e gap => exact Or.inl (ih.2 ⟨_, ⟨_, z, List.cons_ne_nil _ _, hgap.2, hz, rfl⟩, rfl⟩)

theorem blanks0 (h : ReadsAs next Phrase) (hm : StartsMarked Phrase) : ReadsAs (blanks0 next)
    fun phrase => ∃ gap z, AllBlank gap ∧ Phrase z ∧ phrase = gap ++ z := by
  intro cs rest
  rw [Text.blanks0, Option.orElse_eq_orElse, Option.orElse_eq_or, Option.or_eq_some_iff,
    h.blanks1 hm cs rest]
  constructor
  · rintro (⟨phrase, ⟨gap, z, -, hgap, hz, hphrase⟩, hcs⟩ | ⟨-, hr⟩)
    · exact ⟨phrase, ⟨gap, z, hgap, hz, hphrase⟩, hcs⟩
    · obtain ⟨z, hz, hcs⟩ := (h _ _).1 hr
      exact ⟨z, ⟨[], z, List.forall_mem_nil _, hz, rfl⟩, hcs⟩
  · rintro ⟨_, ⟨gap, z, hgap, hz, rfl⟩, rfl⟩
    cases gap with
    | nil =>
      have hr := (h (z ++ rest) rest).2 ⟨z, hz, rfl⟩
      exact Or.inr ⟨h.blanks1_eq_none hm hr, hr⟩
    | cons c gap => exact Or.inl ⟨_, ⟨_, z, List.cons_ne_nil _ _, hgap, hz, rfl⟩, rfl⟩

/-- Reads what stands before a mark, and the mark. -/
theorem upTo (h : ReadsAs next Phrase) (w : Char) :
    ReadsAs (fun cs => Text.word w.toString next (cs.dropWhile (· != w)))
      fun phrase => ∃ m z, w ∉ m ∧ Phrase z ∧ phrase = m ++ (w :: z) := by
  intro cs rest
  have hmark : w.toString.toList = [w] := by simp
  rw [h.word w.toString]
  constructor
  · rintro ⟨_, ⟨z, hz, rfl⟩, hcs⟩
    refine ⟨cs.takeWhile (· != w) ++ (w :: z), ⟨_, z, fun hmem => ?_, hz, rfl⟩, ?_⟩
    · simpa using List.all_eq_true.1 List.all_takeWhile w hmem
    · rw [List.append_assoc, List.cons_append]
      rw [hmark] at hcs
      rw [show w :: (z ++ rest) = [w] ++ z ++ rest from rfl, ← hcs, List.takeWhile_append_dropWhile]
  · rintro ⟨_, ⟨m, z, hm, hz, rfl⟩, rfl⟩
    refine ⟨[w] ++ z, ⟨z, hz, by rw [hmark]⟩, ?_⟩
    have hpass : ∀ c ∈ m, (c != w) = true := fun c hc => bne_iff_ne.2 fun he => hm (he ▸ hc)
    rw [List.append_assoc, List.dropWhile_append_of_pos hpass]
    simp

end ReadsAs

end Parts

/-! ### Marks -/

/-- The ranges of blanks beyond ASCII are apart from those of words. -/
private theorem wordsBeyondAscii_apart : (blanks.ranges.all fun r => r.2 ≤ 127 ||
    wordsBeyondAscii.ranges.all fun w => r.2 < w.1 || w.2 < r.1) = true := by
  decide +kernel

/-- The characters of words are not blank. -/
theorem isBlank_of_isWord {c : Char} (h : isWord c = true) : isBlank c = false := by
  rw [isWord, Bool.or_eq_true, Bool.and_eq_true, decide_eq_true_eq] at h
  rcases h with h | ⟨hascii, hword⟩
  · exact isBlank_of_isIdentChar h
  · refine Bool.eq_false_iff.2 fun hb => ?_
    obtain ⟨r, hr, hlo, hhi⟩ := (blanks.contains_iff c).1 hb
    obtain ⟨w, hw, hlo', hhi'⟩ := (wordsBeyondAscii.contains_iff c).1 hword
    have hapart := List.all_eq_true.1 wordsBeyondAscii_apart r hr
    simp only [Bool.or_eq_true, decide_eq_true_eq, List.all_eq_true] at hapart
    have hdisjoint := hapart.resolve_left (by omega) w hw
    omega

theorem AllBlank.isWord_eq_false {cs : List Char} (h : AllBlank cs) : ∀ c ∈ cs, isWord c = false := by
  refine fun c hc => Bool.eq_false_iff.2 fun hw => ?_
  have hb := h c hc
  rw [isBlank_of_isWord hw] at hb
  cases hb

theorem isWord_of_isIdentChar {c : Char} (h : isIdentChar c = true) : isWord c = true := by
  rw [isWord, h, Bool.true_or]

/-- The first character that is not blank. -/
def firstMark (cs : List Char) : Option Char :=
  cs.find? (!isBlank ·)

/-- The last character that is not blank. -/
def lastMark (cs : List Char) : Option Char :=
  firstMark cs.reverse

theorem firstMark_append (cs ds : List Char) :
    firstMark (cs ++ ds) = (firstMark cs).or (firstMark ds) :=
  List.find?_append

theorem lastMark_append (cs ds : List Char) :
    lastMark (cs ++ ds) = (lastMark ds).or (lastMark cs) := by
  rw [lastMark, List.reverse_append, firstMark_append, lastMark, lastMark]

theorem firstMark_append_of_eq_some {cs : List Char} {c : Char} (h : firstMark cs = some c)
    (ds : List Char) : firstMark (cs ++ ds) = some c := by
  rw [firstMark_append, h, Option.some_or]

theorem firstMark_of_allBlank {cs : List Char} (h : AllBlank cs) : firstMark cs = none :=
  List.find?_eq_none.2 fun c hc => by simp [h c hc]

theorem lastMark_of_allBlank {cs : List Char} (h : AllBlank cs) : lastMark cs = none :=
  firstMark_of_allBlank fun c hc => h c (List.mem_reverse.1 hc)

/-- A text that begins with a word has this as its first mark. -/
theorem firstMark_of_isWord {cs : List Char} (h : isWord? cs.head? = true) : firstMark cs = cs.head? := by
  cases cs with
  | nil => rfl
  | cons c cs =>
    have hc : isBlank c = false := isBlank_of_isWord h
    simp [firstMark, hc]

theorem lastMark_of_isWord {cs : List Char} (h : isWord? cs.getLast? = true) :
    lastMark cs = cs.getLast? := by
  rw [← List.head?_reverse] at h ⊢
  exact firstMark_of_isWord h

/-- A word goes on from one text to another. -/
def Meets (front back : List Char) : Bool :=
  isWord? front.getLast? && isWord? back.head?

@[simp]
theorem meets_nil (front : List Char) : Meets front [] = false :=
  Bool.and_false _

/-- A text begins with one run of characters of a kind. -/
theorem eq_of_append_eq_append {q : Char → Bool} {u v s t : List Char} (hu : ∀ c ∈ u, q c = true)
    (hv : ∀ c ∈ v, q c = true) (hs : s.head?.any q = false) (ht : t.head?.any q = false)
    (h : u ++ s = v ++ t) : u = v ∧ s = t := by
  have hdrop {w r : List Char} (hw : ∀ c ∈ w, q c = true) (hr : r.head?.any q = false) :
      (w ++ r).dropWhile q = r := by
    rw [List.dropWhile_append_of_pos hw]
    cases r with
    | nil => rfl
    | cons c r => exact List.dropWhile_cons_of_neg (by rw [show q c = false from hr]; simp)
  have heq : s = t := by rw [← hdrop hu hs, h, hdrop hv ht]
  subst heq
  exact ⟨List.append_cancel_right h, rfl⟩

/-- A text ends with one run of characters of a kind. -/
theorem eq_of_append_eq_append_right {q : Char → Bool} {u v s t : List Char} (hu : ∀ c ∈ u, q c = true)
    (hv : ∀ c ∈ v, q c = true) (hs : s.getLast?.any q = false) (ht : t.getLast?.any q = false)
    (h : s ++ u = t ++ v) : s = t ∧ u = v := by
  have hreverse := congrArg List.reverse h
  rw [List.reverse_append, List.reverse_append] at hreverse
  rw [← List.head?_reverse] at hs ht
  have hsplit := eq_of_append_eq_append (fun c hc => hu c (List.mem_reverse.1 hc))
    (fun c hc => hv c (List.mem_reverse.1 hc)) hs ht hreverse
  exact ⟨List.reverse_injective hsplit.2, List.reverse_injective hsplit.1⟩

theorem any_getLast?_append {q : Char → Bool} {s u : List Char} (hne : u ≠ [])
    (hu : ∀ c ∈ u, q c = false) : (s ++ u).getLast?.any q = false := by
  rw [List.getLast?_append_of_ne_nil _ hne, List.getLast?_eq_some_getLast hne]
  exact hu _ (List.getLast_mem hne)

/-! ### Patterns that read phrases -/

/-- The pattern reads phrases of a kind, which begin with a whole word and do not end inside of one. -/
structure Phrased (p : Pattern Unit) (Phrase : List Char → Prop) : Prop where
  head : ∀ phrase, Phrase phrase → isWord? phrase.head? = true
  read_iff : ∀ {prev cs rest}, p prev cs = some ((), rest) ↔ isWord? prev = false ∧
    ∃ phrase, Phrase phrase ∧ cs = phrase ++ rest ∧ Meets phrase rest = false

/-- The pattern reads in the first text what it reads there when the second stands behind. -/
structure Cut (p : Pattern Unit) (front back : List Char) : Prop where
  reads : ∀ before cs, front = before ++ cs → cs ≠ [] →
    p before.getLast? (cs ++ back) = (p before.getLast? cs).map fun r => (r.1, r.2 ++ back)
  meets : Meets front back = false

/-- A pattern that begins with a word and does not end with one reads phrases. -/
theorem ReadsAs.phrased {next : List Char → Option (Unit × List Char)} {Phrase : List Char → Prop}
    (h : ReadsAs next Phrase) (hhead : ∀ phrase, Phrase phrase → isWord? phrase.head? = true)
    (hlast : ∀ phrase, Phrase phrase → isWord? phrase.getLast? = false) :
    Phrased (wordStart next) Phrase where
  head := hhead
  read_iff {prev cs rest} := by
    unfold wordStart
    split
    · next hprev => simp [hprev]
    · next hprev =>
      rw [h, Bool.eq_false_iff.2 hprev]
      constructor
      · rintro ⟨phrase, hphrase, hcs⟩
        refine ⟨rfl, phrase, hphrase, hcs, ?_⟩
        rw [Meets, hlast phrase hphrase, Bool.false_and]
      · rintro ⟨-, phrase, hphrase, hcs, -⟩
        exact ⟨phrase, hphrase, hcs⟩

/-- A whole word is a phrase. -/
theorem phrased_wholeWord {w : String} (hne : w.toList ≠ []) (hw : ∀ c ∈ w.toList, isWord c = true) :
    Phrased (wholeWord w) (· = w.toList) where
  head := by
    rintro _ rfl
    rw [List.head?_eq_some_head hne]
    exact hw _ (List.head_mem hne)
  read_iff {prev cs rest} := by
    have hlast : isWord? w.toList.getLast? = true := by
      rw [List.getLast?_eq_some_getLast hne]
      exact hw _ (List.getLast_mem hne)
    have hend (cs' : List Char) : wordEnd () cs' = some ((), rest) ↔
        cs' = rest ∧ Meets w.toList rest = false := by
      unfold wordEnd
      rw [Meets, hlast, Bool.true_and]
      split
      · next h =>
        refine ⟨fun h' => (nomatch h'), ?_⟩
        rintro ⟨rfl, h'⟩
        rw [h] at h'
        cases h'
      · next h =>
        refine ⟨?_, ?_⟩
        · rintro ⟨⟩
          exact ⟨rfl, Bool.eq_false_iff.2 h⟩
        · rintro ⟨rfl, -⟩
          rfl
    unfold wholeWord wordStart
    split
    · next hprev => simp [hprev]
    · next hprev =>
      rw [word, Option.bind_eq_some_iff, Bool.eq_false_iff.2 hprev]
      simp only [after?_eq_some_iff, hend]
      constructor
      · rintro ⟨_, rfl, rfl, hmeets⟩
        exact ⟨trivial, _, rfl, rfl, hmeets⟩
      · rintro ⟨-, _, rfl, rfl, hmeets⟩
        exact ⟨_, rfl, rfl, hmeets⟩

section Phrases

variable {p : Pattern Unit} {Phrase : List Char → Prop} {front back : List Char}
  (hp : Phrased p Phrase)

include hp

namespace Phrased

theorem ne_nil {phrase : List Char} (h : Phrase phrase) : phrase ≠ [] := by
  rintro rfl
  cases hp.head [] h

theorem eq_none_of_nil (prev : Option Char) : p prev [] = none := by
  rw [Option.eq_none_iff_forall_ne_some]
  rintro ⟨⟨⟩, rest⟩ h
  obtain ⟨-, phrase, hphrase, hcs, -⟩ := hp.read_iff.1 h
  exact hp.ne_nil hphrase (List.append_eq_nil_iff.1 hcs.symm).1

/-- Nothing is read where no word begins. -/
theorem eq_none_of_head {prev : Option Char} {cs : List Char} (h : isWord? cs.head? = false) :
    p prev cs = none := by
  rw [Option.eq_none_iff_forall_ne_some]
  rintro ⟨⟨⟩, rest⟩ hr
  obtain ⟨-, phrase, hphrase, rfl, -⟩ := hp.read_iff.1 hr
  rw [List.head?_append_of_ne_nil _ (hp.ne_nil hphrase), hp.head _ hphrase] at h
  cases h

/-- What stands before a text matters only if a word goes on. -/
theorem eq_of_prev {prev : Option Char} {cs : List Char} (h : (isWord? prev && isWord? cs.head?) = false) :
    p prev cs = p none cs := by
  cases hhead : isWord? cs.head? with
  | false => rw [hp.eq_none_of_head hhead, hp.eq_none_of_head hhead]
  | true =>
    rw [hhead, Bool.and_true] at h
    refine Option.ext fun r => ?_
    rw [show r = ((), r.2) from rfl, hp.read_iff, hp.read_iff, h]
    exact Iff.rfl

/-- A text is a cut if no phrase goes over it. -/
theorem cut (hmeets : Meets front back = false)
    (h : ∀ before x z, front = before ++ x → isWord? before.getLast? = false → x ≠ [] → z ≠ [] →
      z <+: back → ¬ Phrase (x ++ z)) : Cut p front back := by
  refine ⟨fun before cs hfront hne => ?_, hmeets⟩
  have hlast (phrase rest : List Char) (hcs : cs = phrase ++ rest) :
      Meets phrase (rest ++ back) = Meets phrase rest := by
    cases rest with
    | nil =>
      have hend : front.getLast? = phrase.getLast? := by
        rw [hfront, hcs, List.append_nil, List.getLast?_append_of_ne_nil]
        rwa [hcs, List.append_nil] at hne
      rw [Meets, hend, ← Meets] at hmeets
      rw [List.nil_append, hmeets, meets_nil]
    | cons c rest => rfl
  cases hread : p before.getLast? cs with
  | some r =>
    obtain ⟨⟨⟩, rest⟩ := r
    obtain ⟨hprev, phrase, hphrase, hcs, hends⟩ := hp.read_iff.1 hread
    refine hp.read_iff.2 ⟨hprev, phrase, hphrase, ?_, ?_⟩
    · rw [hcs, List.append_assoc]
    · rw [hlast phrase rest hcs, hends]
  | none =>
    rw [Option.map_none, Option.eq_none_iff_forall_ne_some]
    rintro ⟨⟨⟩, rest⟩ hr
    obtain ⟨hprev, phrase, hphrase, hcs, hends⟩ := hp.read_iff.1 hr
    rcases List.append_eq_append_iff.1 hcs with ⟨z, rfl, hback⟩ | ⟨rest', hcs', rfl⟩
    · cases z with
      | nil =>
        rw [List.append_nil] at hphrase
        have := hp.read_iff.2 ⟨hprev, cs, hphrase, (List.append_nil cs).symm, meets_nil cs⟩
        rw [hread] at this
        cases this
      | cons c z => exact h before cs _ hfront hprev hne (List.cons_ne_nil c z) ⟨rest, hback.symm⟩ hphrase
    · have := hp.read_iff.2 ⟨hprev, phrase, hphrase, hcs', hlast phrase rest' hcs' ▸ hends⟩
      rw [hread] at this
      cases this

/-- Behind a text with which no word goes on, places are exchanged as in a text of its own. -/
theorem replaceFrom_eq_replaceAll (f : Unit → List Char → List Char) {prev : Option Char}
    {cs : List Char} (h : (isWord? prev && isWord? cs.head?) = false) :
    replaceFrom p f 0 prev cs = replaceAll p f cs := by
  cases cs with
  | nil => rfl
  | cons c cs => rw [replaceAll, replaceFrom, replaceFrom, hp.eq_of_prev h]

theorem search_eq {prev : Option Char} {cs : List Char}
    (h : (isWord? prev && isWord? cs.head?) = false) : search p prev cs = search p none cs := by
  cases cs with
  | nil => rw [search, search, hp.eq_none_of_nil, hp.eq_none_of_nil]
  | cons c cs => rw [search, search, hp.eq_of_prev h]

/-- Where no words are, nothing is exchanged. -/
theorem replaceAll_append_of_isWord (f : Unit → List Char → List Char) {marks : List Char}
    (h : ∀ c ∈ marks, isWord c = false) (cs : List Char) :
    replaceAll p f (marks ++ cs) = marks ++ replaceAll p f cs := by
  have hrest (prev : Option Char) (hprev : isWord? prev = false) :
      replaceFrom p f 0 prev (marks ++ cs) = marks ++ replaceAll p f cs := by
    induction marks generalizing prev with
    | nil => exact hp.replaceFrom_eq_replaceAll f (by rw [hprev, Bool.false_and])
    | cons c marks ih =>
      rw [List.forall_mem_cons] at h
      rw [List.cons_append, replaceFrom, hp.eq_none_of_head (by exact h.1)]
      exact congrArg (c :: ·) (ih h.2 (some c) h.1)
  exact hrest none rfl

/-- Where no words are, nothing is found. -/
theorem search_append_of_isWord {marks : List Char} (h : ∀ c ∈ marks, isWord c = false)
    (cs : List Char) : search p none (marks ++ cs) = (search p none cs).map fun r => (marks ++ r.1, r.2) := by
  have hrest (prev : Option Char) (hprev : isWord? prev = false) :
      search p prev (marks ++ cs) = (search p none cs).map fun r => (marks ++ r.1, r.2) := by
    induction marks generalizing prev with
    | nil =>
      rw [List.nil_append, hp.search_eq (by rw [hprev, Bool.false_and])]
      simp
    | cons c marks ih =>
      rw [List.forall_mem_cons] at h
      rw [List.cons_append, search, hp.eq_none_of_head (by exact h.1)]
      dsimp only
      rw [ih h.2 (some c) h.1, Option.map_map]
      rfl
  exact hrest none rfl

end Phrased

namespace Cut

omit hp in
/-- A pattern that reads only where another one does is used apart where this one is and finds nothing. -/
theorem of_reads {q : Pattern Unit} (hread : ∀ prev cs, p prev cs = none → q prev cs = none)
    (h : Cut p front back) (hnone : search p none front = none) :
    Cut q front back ∧ search q none front = none := by
  have hp {before cs : List Char} (hfront : front = before ++ cs) : p before.getLast? cs = none := by
    rw [← Option.not_isSome_iff_eq_none]
    intro hsome
    rw [← Option.or_none (o := before.getLast?)] at hsome
    have hfound := isSome_search hsome
    rw [← hfront, hnone] at hfound
    cases hfound
  refine ⟨⟨fun before cs hfront hne => ?_, h.meets⟩, search_eq_none_of_reads hread hnone⟩
  rw [hread _ _ (hp hfront), hread, Option.map_none]
  rw [h.reads before cs hfront hne, hp hfront, Option.map_none]

variable (h : Cut p front back)

include h

/-- Places are exchanged apart on both sides of a cut. -/
theorem replaceAll_append (f : Unit → List Char → List Char) :
    replaceAll p f (front ++ back) = replaceAll p f front ++ replaceAll p f back := by
  have hrest (before cs : List Char) (hfront : front = before ++ cs) :
      replaceFrom p f 0 before.getLast? (cs ++ back) =
        replaceFrom p f 0 before.getLast? cs ++ replaceAll p f back := by
    induction hlength : cs.length using Nat.strongRecOn generalizing before cs with
    | ind n ih =>
    cases cs with
    | nil =>
      rw [List.append_nil] at hfront
      rw [List.nil_append, hp.replaceFrom_eq_replaceAll f (hfront ▸ h.meets)]
      rfl
    | cons c cs =>
      have hread := h.reads before (c :: cs) hfront (List.cons_ne_nil c cs)
      cases hr : p before.getLast? (c :: cs) with
      | none =>
        rw [hr, Option.map_none] at hread
        rw [List.cons_append] at hread ⊢
        rw [replaceFrom, replaceFrom, hread, hr]
        have := ih cs.length (by rw [← hlength]; simp) (before ++ [c]) cs (by rw [hfront]; simp) rfl
        rw [List.getLast?_append_of_ne_nil _ (List.cons_ne_nil c [])] at this
        exact congrArg (c :: ·) this
      | some r =>
        obtain ⟨⟨⟩, rest⟩ := r
        obtain ⟨-, phrase, hphrase, hcs, -⟩ := hp.read_iff.1 hr
        have hne := hp.ne_nil hphrase
        rw [hr, Option.map_some] at hread
        rw [hcs, List.append_assoc] at hread ⊢
        rw [hcs] at hr
        rw [replaceFrom_of_read f hne hread, replaceFrom_of_read f hne hr, List.append_assoc]
        have hshort : rest.length < n := by
          have := List.length_pos_iff.2 hne
          rw [← hlength, hcs, List.length_append]
          omega
        have := ih rest.length hshort (before ++ phrase) rest (by rw [hfront, hcs, List.append_assoc]) rfl
        rw [List.getLast?_append_of_ne_nil _ hne] at this
        rw [this]
  exact hrest [] front rfl

/-- The first place stands before the cut, or else behind it. -/
theorem search_append :
    search p none (front ++ back) =
      match search p none front with
      | some r => some (r.1, r.2.1, r.2.2 ++ back)
      | none => (search p none back).map fun r => (front ++ r.1, r.2) := by
  have hrest (before cs : List Char) (hfront : front = before ++ cs) :
      search p before.getLast? (cs ++ back) =
        match search p before.getLast? cs with
        | some r => some (r.1, r.2.1, r.2.2 ++ back)
        | none => (search p none back).map fun r => (cs ++ r.1, r.2) := by
    induction cs generalizing before with
    | nil =>
      rw [List.append_nil] at hfront
      have hnil : search p before.getLast? [] = none := by
        rw [search, hp.eq_none_of_nil, Option.map_none]
      rw [List.nil_append, hp.search_eq (hfront ▸ h.meets), hnil]
      simp
    | cons c cs ih =>
      have hread := h.reads before (c :: cs) hfront (List.cons_ne_nil c cs)
      rw [List.cons_append] at hread ⊢
      rw [search, search, hread]
      cases hr : p before.getLast? (c :: cs) with
      | some r => rfl
      | none =>
        have := ih (before ++ [c]) (by rw [hfront]; simp)
        rw [List.getLast?_append_of_ne_nil _ (List.cons_ne_nil c [])] at this
        rw [Option.map_none]
        dsimp only
        rw [show [c].getLast? = some c from rfl] at this
        rw [this]
        cases search p (some c) cs with
        | some r => rfl
        | none =>
          rw [Option.map_none, Option.map_map]
          rfl
  exact hrest [] front rfl

end Cut

end Phrases

end RenderGraph.Text
