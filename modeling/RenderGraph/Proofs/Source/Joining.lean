import RenderGraph.Proofs.Source.Renaming
import RenderGraph.Proofs.Text.Phrases

/-!
# Uses and declarations that go over a cut

The use of a function is its name and the parenthesis behind it, and the declaration of a function without
result is the use behind the word `void`. Two texts belong together when a word, a use or a declaration may go
on from one to the other. Otherwise they are a cut for the patterns that read these.

## Main definitions

* `Source.Uses`, `Source.Declares`: uses and declarations
* `Source.Joins`: two texts belong together
* `Source.Tight`: the parts of a phrase belong together

## Main results

* `Source.phrased_functionUse`, `Source.phrased_voidDeclaration`: the patterns read uses and declarations
* `Source.tight_uses`, `Source.tight_declares`
* `Source.cut_of_joins_eq_false`: texts that do not belong together are a cut
-/

namespace RenderGraph.Text

/-- The text ends with a given word, up to blanks. -/
def endsInWord (w : String) (cs : List Char) : Bool :=
  let ds := cs.reverse.dropWhile isBlank
  w.toList.reverse.isPrefixOf ds && !isWord? (ds.drop w.toList.length).head?

theorem endsInWord_append {w : String} (hw : isWord? w.toList.getLast? = true) {before gap : List Char}
    (hbefore : isWord? before.getLast? = false) (hgap : AllBlank gap) :
    endsInWord w (before ++ (w.toList ++ gap)) = true := by
  have hds : (before ++ (w.toList ++ gap)).reverse.dropWhile isBlank =
      w.toList.reverse ++ before.reverse := by
    rw [List.reverse_append, List.reverse_append, List.append_assoc, List.dropWhile_append_of_pos
      fun c hc => hgap c (List.mem_reverse.1 hc)]
    rw [← List.head?_reverse] at hw
    cases hrev : w.toList.reverse with
    | nil => rw [hrev] at hw; cases hw
    | cons c cs =>
      rw [hrev] at hw
      exact List.dropWhile_cons_of_neg (by rw [isBlank_of_isWord hw]; simp)
  unfold endsInWord
  dsimp only
  rw [hds, ← List.length_reverse, List.drop_left, List.head?_reverse, hbefore, Bool.and_eq_true,
    List.isPrefixOf_iff_prefix]
  exact ⟨List.prefix_append _ _, rfl⟩

theorem exists_of_endsInWord {w : String} {cs : List Char} (h : endsInWord w cs = true) :
    ∃ before gap, cs = before ++ (w.toList ++ gap) ∧ isWord? before.getLast? = false ∧ AllBlank gap := by
  unfold endsInWord at h
  dsimp only at h
  rw [Bool.and_eq_true, List.isPrefixOf_iff_prefix] at h
  obtain ⟨⟨behind, hbehind⟩, hstart⟩ := h
  rw [← hbehind, ← List.length_reverse, List.drop_left] at hstart
  refine ⟨behind.reverse, (cs.reverse.takeWhile isBlank).reverse, ?_, by simpa using hstart, fun c hc => ?_⟩
  · rw [← List.reverse_inj, List.reverse_append, List.reverse_append, List.reverse_reverse,
      List.reverse_reverse, List.append_assoc, hbehind, List.takeWhile_append_dropWhile]
  · exact List.all_eq_true.1 List.all_takeWhile c (List.mem_reverse.1 hc)

end RenderGraph.Text

namespace RenderGraph.Source

open Text (AllBlank Phrased ReadsAs StartsMarked Meets Cut isWord isWord? firstMark lastMark occurs)

/-! ### Ends that belong together -/

/-- A use of a function, or a declaration of one without result, may go on from one text to another. -/
def Spans (front back : List Char) : Bool :=
  isWord? (lastMark front) && firstMark back == some '(' ||
    Text.endsInWord "void" front && isWord? (firstMark back)

/-- A word, a use or a declaration may go on from one text to another. -/
def Joins (front back : List Char) : Bool :=
  Meets front back || Spans front back

variable {front back gap : List Char}

theorem spans_eq_true_iff : Spans front back = true ↔
    isWord? (lastMark front) = true ∧ firstMark back = some '(' ∨
      Text.endsInWord "void" front = true ∧ isWord? (firstMark back) = true := by
  simp only [Spans, Bool.or_eq_true, Bool.and_eq_true, beq_iff_eq]

/-- What may go on behind a text is the word at its end. -/
theorem isWord?_lastMark_of_spans (h : Spans front back = true) : isWord? (lastMark front) = true := by
  rcases spans_eq_true_iff.1 h with ⟨hlast, -⟩ | ⟨hends, -⟩
  · exact hlast
  · obtain ⟨before, gap, rfl, -, hgap⟩ := Text.exists_of_endsInWord hends
    rw [Text.lastMark_append, Text.lastMark_append, Text.lastMark_of_allBlank hgap]
    rfl

theorem joins_eq_false_iff : Joins front back = false ↔ Meets front back = false ∧ Spans front back = false :=
  Bool.or_eq_false_iff

/-- Blanks before a text do not keep it apart. -/
theorem spans_append_gap (h : AllBlank gap) (front back : List Char) :
    Spans front (gap ++ back) = Spans front back := by
  rw [Spans, Text.firstMark_append, Text.firstMark_of_allBlank h, Option.none_or, ← Spans]

/-- Wherever a phrase is divided, its parts belong together. -/
def Tight (phrase : List Char) : Prop :=
  ∀ before x z rest, phrase = x ++ z → x ≠ [] → z ≠ [] → isWord? before.getLast? = false →
    Joins (before ++ x) (z ++ rest) = true

/-- Texts that do not join are a cut for tight phrases. -/
theorem cut_of_joins_eq_false {p : Text.Pattern Unit} {Phrase : List Char → Prop} (hp : Phrased p Phrase)
    (ht : ∀ phrase, Phrase phrase → Tight phrase) (h : Joins front back = false) : Cut p front back := by
  refine hp.cut (joins_eq_false_iff.1 h).1 ?_
  rintro before x z rfl hbefore hx hz ⟨rest, rfl⟩ hphrase
  rw [ht _ hphrase before x z rest rfl hx hz hbefore] at h
  cases h

/-- A word cannot be divided. -/
theorem tight_of_isWord {phrase : List Char} (h : ∀ c ∈ phrase, isWord c = true) : Tight phrase := by
  rintro before x z rest rfl hx hz -
  rw [List.forall_mem_append] at h
  rw [Joins, Meets, List.getLast?_append_of_ne_nil _ hx, List.head?_append_of_ne_nil _ hz,
    List.getLast?_eq_some_getLast hx, List.head?_eq_some_head hz]
  simp [Text.isWord?, h.1 _ (List.getLast_mem hx), h.2 _ (List.head_mem hz)]

/-- A division of a text of two parts lies in one of them. -/
theorem append_eq_append_cases {x z u v : List Char} (h : u ++ v = x ++ z) :
    (∃ a, x = u ++ a ∧ v = a ++ z) ∨ ∃ c b, u = x ++ c :: b ∧ z = c :: b ++ v := by
  rcases List.append_eq_append_iff.1 h with ⟨a, rfl, hv⟩ | ⟨b, rfl, rfl⟩
  · exact Or.inl ⟨a, rfl, hv⟩
  · cases b with
    | nil => exact Or.inl ⟨[], by simp, rfl⟩
    | cons c b => exact Or.inr ⟨c, b, rfl, rfl⟩

/-- Blanks and a mark behind them are divided before the mark. -/
theorem divide_gap {a z : List Char} {c : Char} (hgap : AllBlank gap) (h : gap ++ [c] = a ++ z) (hz : z ≠ [])
    (hc : Text.isBlank c = false) : AllBlank a ∧ firstMark z = some c := by
  have hmark {b : List Char} (hb : AllBlank b) : firstMark (b ++ [c]) = some c := by
    rw [Text.firstMark_append, Text.firstMark_of_allBlank hb]
    simp [firstMark, hc]
  rcases append_eq_append_cases h with ⟨b, rfl, hlast⟩ | ⟨d, b, rfl, rfl⟩
  · cases b with
    | nil =>
      obtain rfl : [c] = z := hlast
      rw [List.append_nil]
      exact ⟨hgap, hmark (List.forall_mem_nil _)⟩
    | cons d b =>
      obtain ⟨-, hnil⟩ := List.cons.inj hlast
      exact absurd (List.append_eq_nil_iff.1 hnil.symm).2 hz
  · obtain ⟨ha, hb⟩ := List.forall_mem_append.1 hgap
    exact ⟨ha, hmark hb⟩

/-! ### Uses and declarations as phrases -/

/-- The use of a function: its name and an opening parenthesis. -/
def Uses (name : String) (phrase : List Char) : Prop :=
  ∃ gap, AllBlank gap ∧ phrase = name.toList ++ (gap ++ ['('])

/-- The declaration of a function without result. -/
def Declares (name : String) (phrase : List Char) : Prop :=
  ∃ gap gap', gap ≠ [] ∧ AllBlank gap ∧ AllBlank gap' ∧
    phrase = "void".toList ++ (gap ++ (name.toList ++ (gap' ++ ['('])))

variable {name : String}

theorem Declares.getLast?_eq {phrase : List Char} (h : Declares name phrase) :
    phrase.getLast? = some '(' := by
  obtain ⟨gap, gap', -, -, -, rfl⟩ := h
  rw [← List.append_assoc, ← List.append_assoc, ← List.append_assoc, List.getLast?_concat]

section Reading

variable {next : List Char → Option (Unit × List Char)} {Rest : List Char → Prop}

/-- Reads the name of a function and the parenthesis behind it, then what follows. -/
private theorem readsAs_use (h : ReadsAs next Rest) (name : String) :
    ReadsAs (Text.word name (Text.blanks0 (Text.word "(" next)))
      fun phrase => ∃ use z, Uses name use ∧ Rest z ∧ phrase = use ++ z := by
  have hmarked : StartsMarked fun phrase => ∃ z, Rest z ∧ phrase = "(".toList ++ z := by
    rintro _ ⟨z, -, rfl⟩
    exact ⟨'(', z, rfl, by decide⟩
  refine (((h.word "(").blanks0 hmarked).word name).congr fun phrase => ?_
  constructor
  · rintro ⟨_, ⟨gap, _, hgap, ⟨z, hz, rfl⟩, rfl⟩, rfl⟩
    exact ⟨_, z, ⟨gap, hgap, rfl⟩, hz, by simp⟩
  · rintro ⟨_, z, ⟨gap, hgap, rfl⟩, hz, rfl⟩
    exact ⟨_, ⟨gap, _, hgap, ⟨z, hz, rfl⟩, rfl⟩, by simp⟩

end Reading

section Names

variable (hne : name.toList ≠ []) (hname : IsIdent name)

include hname in
private theorem isWord_of_mem {c : Char} (h : c ∈ name.toList) : isWord c = true :=
  Text.isWord_of_isIdentChar (hname c h)

include hne hname in
theorem isWord?_head (behind : List Char) : isWord? (name.toList ++ behind).head? = true := by
  rw [List.head?_append_of_ne_nil _ hne, List.head?_eq_some_head hne]
  exact isWord_of_mem hname (List.head_mem hne)

include hne hname

theorem phrased_functionUse : Phrased (functionUse name) (Uses name) := by
  refine ((readsAs_use ReadsAs.done name).congr fun phrase => ?_).phrased ?_ ?_
  · constructor
    · rintro ⟨use, _, huse, rfl, rfl⟩
      rwa [List.append_nil]
    · exact fun huse => ⟨phrase, [], huse, rfl, (List.append_nil phrase).symm⟩
  · rintro _ ⟨gap, -, rfl⟩
    exact isWord?_head hne hname _
  · rintro _ ⟨gap, -, rfl⟩
    rw [← List.append_assoc, List.getLast?_append_of_ne_nil _ (List.cons_ne_nil _ _)]
    decide

theorem tight_uses {phrase : List Char} (h : Uses name phrase) : Tight phrase := by
  obtain ⟨gap, hgap, rfl⟩ := h
  intro before x z rest h hx hz hbefore
  rcases append_eq_append_cases h with ⟨a, rfl, hrest⟩ | ⟨c, b, hword, rfl⟩
  · -- The parenthesis stands behind the name.
    obtain ⟨hblank, hmark⟩ := divide_gap hgap hrest hz (by decide)
    have hlast : isWord? name.toList.getLast? = true := by
      rw [List.getLast?_eq_some_getLast hne]
      exact isWord_of_mem hname (List.getLast_mem hne)
    rw [Joins, spans_eq_true_iff.2 (Or.inl ⟨?_, Text.firstMark_append_of_eq_some hmark rest⟩), Bool.or_true]
    rw [← List.append_assoc, Text.lastMark_append, Text.lastMark_of_allBlank hblank, Option.none_or,
      Text.lastMark_append, Text.lastMark_of_isWord hlast, List.getLast?_eq_some_getLast hne, Option.some_or,
      ← List.getLast?_eq_some_getLast hne]
    exact hlast
  · have hjoins := tight_of_isWord (fun d hd => isWord_of_mem hname hd) before x (c :: b)
      (gap ++ ['('] ++ rest) hword hx (List.cons_ne_nil c b) hbefore
    rwa [← List.append_assoc] at hjoins

/-- Reads the declaration of a function, then what follows. -/
theorem readsAs_declaration {next : List Char → Option (Unit × List Char)} {Rest : List Char → Prop}
    (h : ReadsAs next Rest) :
    ReadsAs (Text.word "void" (Text.blanks1 (Text.word name (Text.blanks0 (Text.word "(" next)))))
      fun phrase => ∃ decl z, Declares name decl ∧ Rest z ∧ phrase = decl ++ z := by
  have hmarked : StartsMarked fun phrase => ∃ use z, Uses name use ∧ Rest z ∧ phrase = use ++ z := by
    rintro _ ⟨_, z, ⟨gap, -, rfl⟩, -, rfl⟩
    have hhead := isWord?_head hne hname (gap ++ ['('] ++ z)
    cases hcs : name.toList ++ (gap ++ ['('] ++ z) with
    | nil => rw [hcs] at hhead; cases hhead
    | cons c cs =>
      rw [hcs] at hhead
      exact ⟨c, cs, by rw [List.append_assoc, hcs], Text.isBlank_of_isWord hhead⟩
  refine (((readsAs_use h name).blanks1 hmarked).word "void").congr fun phrase => ?_
  constructor
  · rintro ⟨_, ⟨gap, _, hgap, hblank, ⟨_, z, ⟨gap', hblank', rfl⟩, hz, rfl⟩, rfl⟩, rfl⟩
    exact ⟨_, z, ⟨gap, gap', hgap, hblank, hblank', rfl⟩, hz, by simp⟩
  · rintro ⟨_, z, ⟨gap, gap', hgap, hblank, hblank', rfl⟩, hz, rfl⟩
    exact ⟨_, ⟨gap, _, hgap, hblank, ⟨_, z, ⟨gap', hblank', rfl⟩, hz, rfl⟩, rfl⟩, by simp⟩

theorem phrased_voidDeclaration : Phrased (voidDeclaration name) (Declares name) := by
  refine ((readsAs_declaration hne hname ReadsAs.done).congr fun phrase => ?_).phrased ?_ ?_
  · constructor
    · rintro ⟨decl, _, hdecl, rfl, rfl⟩
      rwa [List.append_nil]
    · exact fun hdecl => ⟨phrase, [], hdecl, rfl, (List.append_nil phrase).symm⟩
  · rintro _ ⟨gap, gap', -, -, -, rfl⟩
    rfl
  · intro phrase hphrase
    rw [hphrase.getLast?_eq]
    decide

/-- A declaration is read, whatever stands behind it. -/
theorem voidDeclaration_append {prev : Option Char} {decl : List Char} (hprev : isWord? prev = false)
    (h : Declares name decl) (rest : List Char) :
    voidDeclaration name prev (decl ++ rest) = some ((), rest) := by
  refine (phrased_voidDeclaration hne hname).read_iff.2 ⟨hprev, decl, h, rfl, ?_⟩
  rw [Meets, h.getLast?_eq]
  rfl

theorem tight_declares {phrase : List Char} (h : Declares name phrase) : Tight phrase := by
  obtain ⟨gap, gap', hgap, hblank, hblank', rfl⟩ := h
  have huses : Uses name (name.toList ++ (gap' ++ ['('])) := ⟨gap', hblank', rfl⟩
  have hhead := isWord?_head hne hname (gap' ++ ['('])
  generalize name.toList ++ (gap' ++ ['(']) = use at huses hhead
  intro before x z rest h hx hz hbefore
  -- Between the first word and the name, a declaration goes on with a word.
  have hspans {a b : List Char} (ha : AllBlank a) (hb : AllBlank b) :
      Joins (before ++ ("void".toList ++ a)) (b ++ use ++ rest) = true := by
    have hfirst : isWord? (firstMark (b ++ use ++ rest)) = true := by
      have hmark := Text.firstMark_of_isWord hhead
      rw [List.append_assoc, Text.firstMark_append, Text.firstMark_of_allBlank hb, Option.none_or,
        Text.firstMark_append, hmark]
      cases huse : use.head? with
      | none => rw [huse] at hhead; cases hhead
      | some c => rwa [huse] at hhead
    rw [Joins, spans_eq_true_iff.2 (Or.inr ⟨Text.endsInWord_append (by decide) hbefore ha, hfirst⟩),
      Bool.or_true]
  rcases append_eq_append_cases h with ⟨a, rfl, hrest⟩ | ⟨c, b, hvoid, rfl⟩
  · rcases append_eq_append_cases hrest with ⟨u, rfl, huse⟩ | ⟨c, b, rfl, rfl⟩
    · cases u with
      | nil =>
        obtain rfl : use = z := huse
        rw [List.append_nil]
        exact hspans hblank (List.forall_mem_nil _)
      | cons c u =>
        have hlast : isWord? (before ++ ("void".toList ++ gap)).getLast? = false := by
          rw [List.getLast?_append_of_ne_nil _ (by simp), List.getLast?_append_of_ne_nil _ hgap,
            List.getLast?_eq_some_getLast hgap]
          exact hblank.isWord_eq_false _ (List.getLast_mem hgap)
        have hjoins := tight_uses hne hname huses _ (c :: u) z rest huse (List.cons_ne_nil c u) hz hlast
        rwa [List.append_assoc, List.append_assoc] at hjoins
    · obtain ⟨ha, hb⟩ := List.forall_mem_append.1 hblank
      exact hspans ha hb
  · have hjoins := tight_of_isWord (List.all_eq_true.1 (by decide)) before x (c :: b) (gap ++ use ++ rest)
      hvoid hx (List.cons_ne_nil c b) hbefore
    rwa [← List.append_assoc] at hjoins

end Names

end RenderGraph.Source
