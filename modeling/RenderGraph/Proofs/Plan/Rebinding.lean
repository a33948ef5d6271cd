import RenderGraph.Proofs.Plan.DefineLines

/-!
# Lines that survive a new previous pass

When an iteration gets another previous pass, its program is rewritten as a text: the definition of the
previous pass is exchanged where it is found, and a texture is declared behind an anchor. The pattern of
a definition reads blanks between its words, and these may be the end of a line; so a line is safe only if
the text before it is no such definition without its last word.

## Main definitions

* `Plan.HasLine`: a line stands in a program, between two ends of lines
* `Plan.Guarded`: the text before a line is no definition of the previous pass

## Main results

* `Plan.HasLine.putBehind`: a line survives a line that is put behind an anchor
* `Plan.Guarded.rebindPrevious`: a guarded line survives a new previous pass
-/

namespace RenderGraph.Plan

open Text (blanks0 blanks1 word done isBlank)

/-- A line stands in a program, between two ends of lines. -/
def HasLine (code line : String) : Prop :=
  Mentions code ("\n" ++ line ++ "\n")

theorem hasLine_iff {code line : String} :
    HasLine code line ↔ ∃ front back, code.toList = front ++ '\n' :: (line.toList ++ '\n' :: back) := by
  constructor
  · rintro ⟨front, back, rfl⟩
    exact ⟨front.toList, back.toList, by simp⟩
  · rintro ⟨front, back, h⟩
    refine ⟨String.ofList front, String.ofList back, String.toList_inj.1 ?_⟩
    rw [h]
    simp

/-- A text stands in a program if and only if it is found there. -/
theorem mentions_iff_occurs :
    Mentions code line ↔ Text.occurs (Text.literal line) code.toList = true := by
  rw [Text.occurs_literal_iff]
  constructor
  · rintro ⟨front, back, rfl⟩
    exact ⟨front.toList, back.toList, by simp⟩
  · rintro ⟨front, back, h⟩
    refine ⟨String.ofList front, String.ofList back, ?_⟩
    rw [← String.toList_inj, h]
    simp

/-! ### Lines behind an anchor -/

/-- Two ends of lines enclose a line with no end of line inside it. -/
private theorem exists_of_cut {line front back head rest : List Char} (hl : '\n' ∉ line)
    (h : head ++ '\n' :: rest = front ++ '\n' :: (line ++ '\n' :: back)) (new : List Char) :
    ∃ front' back', head ++ '\n' :: (new ++ '\n' :: rest) =
      front' ++ '\n' :: (line ++ '\n' :: back') := by
  rcases List.append_eq_append_iff.1 h with ⟨mid, rfl, hrest⟩ | ⟨mid, rfl, hfront⟩
  · cases mid with
    | nil =>
      obtain rfl : rest = line ++ '\n' :: back := (List.cons.inj hrest).2
      exact ⟨head ++ '\n' :: new, back, by simp⟩
    | cons c mid =>
      obtain ⟨rfl, rfl⟩ := List.cons.inj hrest
      exact ⟨head ++ '\n' :: (new ++ '\n' :: mid), back, by simp⟩
  · cases mid with
    | nil =>
      obtain rfl : line ++ '\n' :: back = rest := (List.cons.inj hfront).2
      exact ⟨front ++ '\n' :: new, back, by simp⟩
    | cons c mid =>
      obtain ⟨rfl, hmid⟩ := List.cons.inj hfront
      rcases List.append_eq_append_iff.1 hmid with ⟨m, rfl, hm⟩ | ⟨m, rfl, hm⟩
      · cases m with
        | nil =>
          obtain rfl : back = rest := (List.cons.inj hm).2
          exact ⟨front, new ++ '\n' :: back, by simp⟩
        | cons c m =>
          obtain ⟨rfl, rfl⟩ := List.cons.inj hm
          exact ⟨front, m ++ '\n' :: (new ++ '\n' :: rest), by simp⟩
      · cases m with
        | nil =>
          obtain rfl : rest = back := (List.cons.inj hm).2
          exact ⟨front, new ++ '\n' :: rest, by simp⟩
        | cons c m =>
          obtain ⟨rfl, -⟩ := List.cons.inj hm
          simp at hl

/-- A line survives another one that is put behind an anchor. -/
theorem HasLine.putBehind {code line : String} (h : HasLine code line) (hl : '\n' ∉ line.toList)
    (anchor new : String) : HasLine (putBehind (anchor ++ "\n") new code) line := by
  rw [hasLine_iff] at h ⊢
  obtain ⟨front, back, hcode⟩ := h
  unfold Plan.putBehind Text.replaceFirst
  split
  · next before _ rest hs =>
    have heq := Text.eq_of_search_literal hs
    rw [hcode] at heq
    have hcut : (before ++ anchor.toList) ++ '\n' :: rest =
        front ++ '\n' :: (line.toList ++ '\n' :: back) := by
      simpa using heq.symm
    obtain ⟨front', back', hnew⟩ := exists_of_cut hl hcut new.toList
    refine ⟨front', back', ?_⟩
    rw [← hnew]
    simp
  · exact ⟨front, back, by simpa using hcode⟩

/-! ### Definitions of the previous pass -/

/-- What is read of a text either leaves alone what follows the text, or the text has a property. -/
private def EndsBefore (rest : List Char) (next : List Char → Option (Unit × List Char))
    (P : List Char → Prop) : Prop :=
  ∀ cs r, next (cs ++ rest) = some r → rest.length ≤ r.2.length ∨ P cs

namespace EndsBefore

variable {rest : List Char} {next : List Char → Option (Unit × List Char)} {P Q : List Char → Prop}

private theorem behindLine (hr : rest.head? = some '\n') :
    EndsBefore rest (fun cs => done () (Text.behindLine cs)) P := by
  intro cs r h
  cases h
  refine Or.inl ?_
  show rest.length ≤ (Text.behindLine (cs ++ rest)).length
  have hkeep : Text.behindLine rest = rest := by
    cases rest with
    | nil => cases hr
    | cons c rest =>
      cases hr
      rfl
  induction cs with
  | nil => rw [List.nil_append, hkeep]
  | cons c cs ih =>
    unfold Text.behindLine at ih ⊢
    rw [List.cons_append, List.dropWhile_cons]
    split
    · exact ih
    · simp
      omega

private theorem blanks1 (h : EndsBefore rest next P)
    (hP : ∀ c cs, isBlank c = true → P cs → P (c :: cs))
    (hend : P [] ∨ Text.blanks1 next rest = none) : EndsBefore rest (Text.blanks1 next) P := by
  intro cs r hr
  induction cs with
  | nil =>
    refine Or.inr (hend.resolve_right fun hnone => ?_)
    rw [List.nil_append, hnone] at hr
    cases hr
  | cons c cs ih =>
    rw [List.cons_append, Text.blanks1] at hr
    split at hr
    · next hc =>
      refine Or.imp_right (hP c cs hc) ?_
      rcases (Option.orElse_eq_some ..).1 hr with hr | ⟨-, hr⟩
      · exact ih hr
      · exact h cs r hr
    · cases hr

private theorem blanks0 (h : EndsBefore rest next P)
    (hP : ∀ c cs, isBlank c = true → P cs → P (c :: cs))
    (hend : Text.blanks1 next rest = none) : EndsBefore rest (Text.blanks0 next) P := by
  intro cs r hr
  rcases (Option.orElse_eq_some ..).1 hr with hr | ⟨-, hr⟩
  · exact h.blanks1 hP (Or.inr hend) cs r hr
  · exact h cs r hr

private theorem word (h : EndsBefore rest next P) {w : String} (hw : '\n' ∉ w.toList)
    (hr : rest.head? = some '\n') (hQ : ∀ cs, P cs → Q (w.toList ++ cs)) :
    EndsBefore rest (Text.word w next) Q := by
  intro cs r hread
  obtain ⟨behind, hbehind, hread⟩ := Option.bind_eq_some_iff.1 hread
  rw [Text.after?_eq_some_iff] at hbehind
  rcases List.append_eq_append_iff.1 hbehind with ⟨mid, hmid, hrest⟩ | ⟨mid, rfl, rfl⟩
  · cases mid with
    | nil =>
      rw [List.append_nil] at hmid
      refine (h [] r (hrest ▸ hread)).imp_right fun hnil => ?_
      have hq := hQ [] hnil
      rwa [List.append_nil, hmid] at hq
    | cons c mid =>
      -- The word would hold the end of a line.
      rw [hrest] at hr
      obtain rfl : c = '\n' := Option.some.inj hr
      exact absurd (hmid ▸ List.mem_append_right cs List.mem_cons_self) hw
  · exact (h mid r hread).imp_right (hQ mid)

end EndsBefore

/-- The text holds no slash and few underscores. -/
private def Meagre (k : Nat) (cs : List Char) : Prop :=
  '/' ∉ cs ∧ cs.count '_' ≤ k

private instance (k : Nat) (cs : List Char) : Decidable (Meagre k cs) :=
  inferInstanceAs (Decidable (_ ∧ _))

private theorem Meagre.cons {k : Nat} {c : Char} {cs : List Char} (hc : isBlank c = true)
    (h : Meagre k cs) : Meagre k (c :: cs) := by
  have hslash : '/' ≠ c := by
    rintro rfl
    exact absurd hc (by decide)
  have hunderscore : c ≠ '_' := by
    rintro rfl
    exact absurd hc (by decide)
  refine ⟨fun hmem => ?_, ?_⟩
  · rcases List.mem_cons.1 hmem with heq | hmem
    · exact hslash heq
    · exact h.1 hmem
  · rw [List.count_cons_of_ne hunderscore]
    exact h.2

private theorem Meagre.append {k k' : Nat} {cs ds : List Char} (h : Meagre k cs) (h' : Meagre k' ds) :
    Meagre (k + k') (cs ++ ds) := by
  refine ⟨fun hmem => (List.mem_append.1 hmem).elim h.1 h'.1, ?_⟩
  rw [List.count_append]
  exact Nat.add_le_add h.2 h'.2

/-- A definition of the previous pass does not read a line that declares a uniform, unless the text before
the line is nearly a definition. -/
private theorem endsBefore_previousDefine (rest : List Char) (prev : Option Char) :
    EndsBefore ('\n' :: 'u' :: 'n' :: rest) (previousDefine prev) (Meagre 1) := by
  have hblank : isBlank '\n' = true ∧ isBlank 'u' = false := by decide
  have hends (w : String) (next : List Char → Option (Unit × List Char))
      (hw : Text.after? w.toList ('u' :: 'n' :: rest) = none) :
      Text.blanks1 (Text.word w next) ('\n' :: 'u' :: 'n' :: rest) = none := by
    rw [Text.blanks1, if_pos hblank.1, Text.blanks1, hblank.2, if_neg Bool.false_ne_true, Text.word, hw]
    rfl
  have hhead : ('\n' :: 'u' :: 'n' :: rest).head? = some '\n' := rfl
  have hlast : EndsBefore ('\n' :: 'u' :: 'n' :: rest)
      (Text.blanks1 fun cs => done () (Text.behindLine cs)) (Meagre 0) :=
    (EndsBefore.behindLine hhead).blanks1 (fun _ _ => Meagre.cons) (Or.inl (by decide))
  have hname : EndsBefore ('\n' :: 'u' :: 'n' :: rest)
      (Text.word previousPass (Text.blanks1 fun cs => done () (Text.behindLine cs))) (Meagre 1) :=
    hlast.word (by decide) hhead fun cs hcs =>
      (show Meagre 1 previousPass.toList by decide).append hcs
  have hdefine : EndsBefore ('\n' :: 'u' :: 'n' :: rest)
      (Text.word "#define" <| Text.blanks1 <| Text.word previousPass <|
        Text.blanks1 fun cs => done () (Text.behindLine cs)) (Meagre 1) := by
    refine (hname.blanks1 (fun _ _ => Meagre.cons) (Or.inr (hends _ _ rfl))).word (by decide) hhead
      fun cs hcs => ?_
    have h := (show Meagre 0 "#define".toList by decide).append hcs
    rwa [Nat.zero_add] at h
  intro cs r hr
  unfold previousDefine Text.atLineStart at hr
  split at hr
  · exact hdefine.blanks0 (fun _ _ => Meagre.cons) (hends _ _ rfl) cs r hr
  · cases hr

/-! ### Lines behind a definition -/

/-- The text before a line ends with a line of its own that is not nearly a definition of the previous
pass: it holds a slash, or two underscores. -/
def Guarded (code line : String) : Prop :=
  ∃ front guard back : List Char, code.toList = front ++ guard ++ '\n' :: (line.toList ++ '\n' :: back) ∧
    '\n' ∉ guard ∧ ('/' ∈ guard ∨ 2 ≤ guard.count '_')

theorem Guarded.hasLine {code line : String} (h : Guarded code line) : HasLine code line := by
  obtain ⟨front, guard, back, hcode, -⟩ := h
  exact hasLine_iff.2 ⟨front ++ guard, back, hcode⟩

/-- The line of a uniform stands, if it follows the end of a line and nothing was read beyond it. -/
private theorem exists_replaceFrom_uniform (f : Unit → List Char → List Char) (prev : Option Char)
    {line : List Char} (hl : '\n' ∉ line) (rest : List Char) :
    ∃ rest', Text.replaceFrom previousDefine f 0 prev ('\n' :: ('u' :: 'n' :: line ++ '\n' :: rest)) =
      '\n' :: ('u' :: 'n' :: line ++ '\n' :: rest') := by
  have hblank : isBlank '\n' = true ∧ isBlank 'u' = false := by decide
  have hnone (next : List Char → Option (Unit × List Char)) (rest : List Char) :
      Text.blanks1 (Text.word "#define" next) ('u' :: rest) = none := by
    rw [Text.blanks1, hblank.2, if_neg Bool.false_ne_true]
  have hfirst (rest : List Char) : previousDefine prev ('\n' :: 'u' :: rest) = none := by
    unfold previousDefine Text.atLineStart
    split
    · rw [Text.blanks0, Text.blanks1, if_pos hblank.1, hnone]
      rfl
    · rfl
  have hsecond (rest : List Char) : previousDefine (some '\n') ('u' :: rest) = none := by
    unfold previousDefine Text.atLineStart
    rw [if_pos (by rfl), Text.blanks0, hnone]
    rfl
  have hline : '\n' ∉ 'u' :: 'n' :: line := by simpa using hl
  have hrest := replaceFrom_line f hline (hsecond ('n' :: line ++ '\n' :: rest))
  refine ⟨Text.replaceFrom previousDefine f 0 none rest, ?_⟩
  rw [List.cons_append, Text.replaceFrom, hfirst]
  exact congrArg ('\n' :: ·) hrest

/-- No definition can be read from a text into the line of a uniform behind it: wherever a line begins in
the text, the rest of it is not meagre. -/
private def Blocks (prev : Option Char) (front : List Char) : Prop :=
  ∀ before after, front = before ++ after →
    ((before.getLast?).or prev).all (· == '\n') = true → ¬ Meagre 1 after ∨ after = []

namespace Blocks

variable {prev : Option Char} {c : Char} {front : List Char}

private theorem tail (h : Blocks prev (c :: front)) : Blocks (some c) front := by
  intro before after hsplit hstart
  refine h (c :: before) after (by rw [hsplit]; rfl) ?_
  rwa [List.getLast?_cons, Option.some_or, ← Option.or_some]

/-- A definition that begins with the text ends in it. -/
private theorem length_le (h : Blocks prev (c :: front)) {rest : List Char} {r : Unit × List Char}
    (hr : previousDefine prev (c :: front ++ '\n' :: 'u' :: 'n' :: rest) = some r) :
    ('\n' :: 'u' :: 'n' :: rest).length ≤ r.2.length := by
  refine (endsBefore_previousDefine rest prev (c :: front) r hr).resolve_right fun hmeagre => ?_
  refine (h [] (c :: front) rfl ?_).elim (· hmeagre) (List.cons_ne_nil c front)
  unfold previousDefine Text.atLineStart at hr
  split at hr
  · assumption
  · cases hr

/-- Without ends of lines there is no beginning of a line inside a text, and what holds a guard is not
meagre. -/
private theorem of_guard {guard : List Char} (hguard : '\n' ∉ guard)
    (hmany : '/' ∈ guard ∨ 2 ≤ guard.count '_') : Blocks prev (front ++ guard) := by
  intro before after h hstart
  rcases List.append_eq_append_iff.1 h with ⟨mid, rfl, hafter⟩ | ⟨mid, -, rfl⟩
  · -- The text begins inside the guard, behind a character of it, unless it is the guard.
    cases hmid : mid.getLast? with
    | none =>
      rw [List.getLast?_eq_none_iff] at hmid
      subst hmid
      rw [List.nil_append] at hafter
      refine Or.inl fun hmeagre => ?_
      rw [hafter] at hmany
      rcases hmany with hslash | hcount
      · exact hmeagre.1 hslash
      · exact absurd hmeagre.2 (by omega)
    | some c =>
      have hc : c = '\n' := by
        rw [List.getLast?_append, hmid] at hstart
        simpa using hstart
      refine absurd ?_ hguard
      rw [hafter, ← hc]
      exact List.mem_append_left _ (List.mem_of_getLast? hmid)
  · refine Or.inl fun hmeagre => ?_
    rcases hmany with hslash | hcount
    · exact hmeagre.1 (List.mem_append_right _ hslash)
    · have hle := hmeagre.2
      rw [List.count_append] at hle
      omega

end Blocks

/-- The line of a uniform stands, if the text before it blocks definitions. -/
private theorem exists_replaceFrom (f : Unit → List Char → List Char) {line : List Char}
    (hl : '\n' ∉ line) (rest : List Char) {front : List Char} {skip : Nat} {prev : Option Char}
    (hskip : skip ≤ front.length) (hfront : Blocks prev front) :
    ∃ front' rest', Text.replaceFrom previousDefine f skip prev
        (front ++ '\n' :: ('u' :: 'n' :: line ++ '\n' :: rest)) =
      front' ++ '\n' :: ('u' :: 'n' :: line ++ '\n' :: rest') := by
  induction front generalizing skip prev with
  | nil =>
    obtain rfl : skip = 0 := Nat.le_zero.1 hskip
    obtain ⟨rest', h⟩ := exists_replaceFrom_uniform f prev hl rest
    exact ⟨[], rest', h⟩
  | cons c front ih =>
    cases skip with
    | succ skip =>
      rw [List.cons_append, Text.replaceFrom]
      exact ih (Nat.le_of_succ_le_succ hskip) hfront.tail
    | zero =>
      rw [List.cons_append, Text.replaceFrom]
      split
      · next r behind hr =>
        have hread := hfront.length_le hr
        have hskip' : (front ++ '\n' :: ('u' :: 'n' :: line ++ '\n' :: rest)).length -
            behind.length ≤ front.length := by
          rw [List.length_append]
          exact Nat.sub_le_of_le_add (Nat.add_le_add_left hread _)
        obtain ⟨front', rest', h⟩ := ih hskip' hfront.tail
        exact ⟨_, rest', by rw [h, ← List.append_assoc]⟩
      · obtain ⟨front', rest', h⟩ := ih (Nat.zero_le _) hfront.tail
        exact ⟨c :: front', rest', by rw [h]; rfl⟩

/-- A guarded line of a uniform survives a new definition of the previous pass. -/
private theorem Guarded.substitute {code line sampler code' : String} (h : Guarded code line)
    (hl : '\n' ∉ line.toList) (hu : "un".toList <+: line.toList)
    (hs : '\\' ∉ (defineLine sampler).toList)
    (hr : Text.substitute previousDefine (defineLine sampler) code = .ok code') :
    HasLine code' line := by
  obtain ⟨front, guard, back, hcode, hguard, hmany⟩ := h
  obtain ⟨rest, hrest⟩ := hu
  have hline : line.toList = 'u' :: 'n' :: rest := hrest.symm
  rw [Text.substitute_of_notMem _ _ hs] at hr
  obtain rfl := Except.ok.inj hr
  have hnone : '\n' ∉ rest := fun hmem => hl (hline ▸ by simp [hmem])
  have hfront : Blocks none (front ++ guard) := .of_guard hguard hmany
  obtain ⟨front', back', heq⟩ := exists_replaceFrom (fun _ _ => (defineLine sampler).toList) hnone back
    (Nat.zero_le (front ++ guard).length) hfront
  refine hasLine_iff.2 ⟨front', back', ?_⟩
  rw [String.toList_ofList, Text.replaceAll, hcode, hline]
  exact heq

/-- A guarded line of a uniform survives a new previous pass. -/
theorem Guarded.rebindPrevious {code line sampler anchor code' : String} (h : Guarded code line)
    (hl : '\n' ∉ line.toList) (hu : "un".toList <+: line.toList) (hs : '\\' ∉ sampler.toList)
    (hr : rebindPrevious code sampler (anchor ++ "\n") = .ok code') : HasLine code' line := by
  have hdefine : '\\' ∉ (defineLine sampler).toList := by
    simpa [defineLine, previousPass, Source.StageReference.uniform] using hs
  obtain ⟨defined, hdefined, rfl⟩ := rebindPrevious_eq_ok_iff.1 hr
  have hkept : HasLine defined line := by
    split at hdefined
    · exact h.substitute hl hu hdefine hdefined
    · exact Except.ok.inj hdefined ▸ h.hasLine.putBehind hl anchor _
  unfold withSampler
  split
  · exact hkept
  · exact hkept.putBehind hl anchor _

end RenderGraph.Plan
