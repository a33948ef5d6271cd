import RenderGraph.Proofs.Plan.Succession
import RenderGraph.Proofs.Text.Searching

/-!
# Lines that define the previous pass

The pattern of a definition begins with a line and ends with one, though it may read several, as the ends
of lines are blanks. So a program is rewritten line by line: some lines are exchanged for the new
definition, and the others stand as they are and define nothing. No definition reads over a semicolon that
ends a line, so a program can be cut there, and what holds no definition stands.

## Main definitions

* `Plan.linesOf`, `Plan.DefinesPrevious`: the lines of a program, and what they give the previous pass
* `Plan.Exchanged`: a program with another previous pass, line by line

## Main results

* `Plan.exchanged_replaceFrom`: definitions are exchanged line by line
* `Plan.replaceFrom_cut`: they can be exchanged apart before and behind a semicolon that ends a line
-/

namespace RenderGraph.Plan

open Text (blanks0 blanks1 word done isBlank split search replaceFrom)

/-! ### Lines -/

/-- The lines of a program. -/
def linesOf (code : String) : List String :=
  (split '\n' code.toList).map String.ofList

/-- A line defines the previous pass: behind the name stands nothing, or blanks and the value. -/
def DefinesPrevious (line value : String) : Prop :=
  ∃ indent gap rest : List Char,
    line.toList = indent ++ ("#define".toList ++ (gap ++ (previousPass.toList ++ rest))) ∧
      (∀ c ∈ indent, isBlank c = true) ∧ (gap ≠ [] ∧ ∀ c ∈ gap, isBlank c = true) ∧
      (∀ c ∈ rest.head?, isBlank c = true) ∧ value.toList = rest.dropWhile isBlank

/-- Inside a line no definition begins. -/
theorem previousDefine_eq_none {c : Char} (hc : c ≠ '\n') (cs : List Char) :
    previousDefine (some c) cs = none := by
  have hstart : (some c).all (· == '\n') = false := by simpa using hc
  unfold previousDefine Text.atLineStart
  rw [hstart, if_neg Bool.false_ne_true]

/-- The text begins like a line behind the end of another. -/
theorem previousDefine_newline : previousDefine (some '\n') = previousDefine none :=
  rfl

/-- Behind the end of a line, definitions are exchanged as in a text of their own. -/
theorem replaceFrom_newline (f : Unit → List Char → List Char) (cs : List Char) :
    replaceFrom previousDefine f 0 (some '\n') cs = replaceFrom previousDefine f 0 none cs := by
  cases cs with
  | nil => rfl
  | cons c cs => rw [replaceFrom, replaceFrom, previousDefine_newline]

/-- A line that holds no definition stands, and the text behind it is dealt with apart. -/
theorem replaceFrom_line (f : Unit → List Char → List Char) {prev : Option Char} {line : List Char}
    (hl : '\n' ∉ line) {rest : List Char} (h : previousDefine prev (line ++ '\n' :: rest) = none) :
    replaceFrom previousDefine f 0 prev (line ++ '\n' :: rest) =
      line ++ '\n' :: replaceFrom previousDefine f 0 none rest := by
  induction line generalizing prev with
  | nil =>
    rw [List.nil_append] at h ⊢
    rw [replaceFrom, h, replaceFrom_newline]
    rfl
  | cons c line ih =>
    rw [List.mem_cons, not_or] at hl
    rw [List.cons_append] at h ⊢
    rw [replaceFrom, h]
    exact congrArg (c :: ·) (ih hl.2 (previousDefine_eq_none (Ne.symm hl.1) _))

/-- If a definition is found behind a line that holds none, it is found in the text behind the line. -/
private theorem isSome_search_line {prev : Option Char} {line : List Char} (hl : '\n' ∉ line)
    {rest : List Char} (h : previousDefine prev (line ++ '\n' :: rest) = none)
    (hs : (search previousDefine prev (line ++ '\n' :: rest)).isSome = true) :
    (search previousDefine none rest).isSome = true := by
  induction line generalizing prev with
  | nil =>
    rw [List.nil_append] at h hs
    rw [search, h, Option.isSome_map] at hs
    cases rest with
    | nil => exact hs
    | cons c rest =>
      rw [search, previousDefine_newline] at hs
      rwa [search]
  | cons c line ih =>
    rw [List.mem_cons, not_or] at hl
    rw [List.cons_append] at h hs
    rw [search, h, Option.isSome_map] at hs
    exact ih hl.2 (previousDefine_eq_none (Ne.symm hl.1) _) hs

/-! ### What a definition reads -/

/-- What is read ends with the text or before the end of a line, and not with the end of a line. -/
private def EndsLine (next : List Char → Option (Unit × List Char)) : Prop :=
  ∀ cs r, next cs = some r → ∃ define, define ≠ [] ∧ cs = define ++ r.2 ∧
    (r.2 = [] ∨ r.2.head? = some '\n' ∧ define.getLast? ≠ some '\n')

namespace EndsLine

variable {next : List Char → Option (Unit × List Char)}

private theorem append (front : List Char) {cs rest define : List Char} (hne : define ≠ [])
    (hcs : cs = define ++ rest)
    (hend : rest = [] ∨ rest.head? = some '\n' ∧ define.getLast? ≠ some '\n') :
    ∃ define', define' ≠ [] ∧ front ++ cs = define' ++ rest ∧
      (rest = [] ∨ rest.head? = some '\n' ∧ define'.getLast? ≠ some '\n') := by
  refine ⟨front ++ define, List.append_ne_nil_of_right_ne_nil _ hne, by rw [hcs, List.append_assoc], ?_⟩
  rwa [List.getLast?_append_of_ne_nil _ hne]

private theorem value : EndsLine (Text.blanks1 fun cs => done () (Text.behindLine cs)) := by
  intro cs r h
  induction cs with
  | nil => cases h
  | cons c cs ih =>
    rw [Text.blanks1] at h
    split at h
    · next hc =>
      rcases (Option.orElse_eq_some ..).1 h with h | ⟨hnone, h⟩
      · obtain ⟨define, hne, hcs, hend⟩ := ih h
        exact append [c] hne hcs hend
      · cases h
        refine ⟨c :: Text.line cs, List.cons_ne_nil _ _,
          congrArg (c :: ·) (Text.line_append_behindLine cs).symm, ?_⟩
        cases cs with
        | nil => exact Or.inl rfl
        | cons d cs =>
          -- As many blanks as possible are read, so the value begins with another character.
          have hd : isBlank d = false := by
            by_contra hd
            rw [Text.blanks1, if_pos (by simpa using hd)] at hnone
            cases (Option.orElse_eq_none ..).1 hnone |>.2
          have hd' : (d != '\n') = true := by
            by_contra hd'
            obtain rfl : d = '\n' := by simpa using hd'
            exact absurd hd (by decide)
          have hline : Text.line (d :: cs) = d :: Text.line cs := List.takeWhile_cons_of_pos hd'
          refine (Text.behindLine_eq_nil_or (d :: cs)).imp_right fun hhead => ⟨hhead, fun hlast => ?_⟩
          rw [hline, List.getLast?_cons_cons, ← hline] at hlast
          exact Text.notMem_line _ (List.mem_of_getLast? hlast)
    · cases h

private theorem blanks1 (h : EndsLine next) : EndsLine (Text.blanks1 next) := by
  intro cs r hr
  induction cs with
  | nil => cases hr
  | cons c cs ih =>
    rw [Text.blanks1] at hr
    split at hr
    · have hcs : ∃ define, define ≠ [] ∧ cs = define ++ r.2 ∧
          (r.2 = [] ∨ r.2.head? = some '\n' ∧ define.getLast? ≠ some '\n') := by
        rcases (Option.orElse_eq_some ..).1 hr with hr | ⟨-, hr⟩
        · exact ih hr
        · exact h cs r hr
      obtain ⟨define, hne, hcs, hend⟩ := hcs
      exact append [c] hne hcs hend
    · cases hr

private theorem blanks0 (h : EndsLine next) : EndsLine (Text.blanks0 next) := by
  intro cs r hr
  rcases (Option.orElse_eq_some ..).1 hr with hr | ⟨-, hr⟩
  · exact h.blanks1 cs r hr
  · exact h cs r hr

private theorem word (h : EndsLine next) (w : String) : EndsLine (Text.word w next) := by
  intro cs r hr
  obtain ⟨rest, hrest, hr⟩ := Option.bind_eq_some_iff.1 hr
  obtain ⟨define, hne, hcs, hend⟩ := h rest r hr
  rw [Text.after?_eq_some_iff.1 hrest]
  exact append _ hne hcs hend

end EndsLine

/-- A definition ends with the text or before the end of a line. -/
private theorem endsLine_previousDefine (prev : Option Char) : EndsLine (previousDefine prev) := by
  intro cs r hr
  unfold previousDefine Text.atLineStart at hr
  split at hr
  · exact (((EndsLine.value.word previousPass).blanks1.word "#define").blanks0) cs r hr
  · cases hr

/-! ### Where a definition is read -/

section Reads

variable {next : List Char → Option (Unit × List Char)} {cs : List Char}

private theorem isSome_blanks1 (blanks : List Char) (hne : blanks ≠ [])
    (hb : ∀ c ∈ blanks, isBlank c = true) (h : (next cs).isSome = true) :
    (blanks1 next (blanks ++ cs)).isSome = true := by
  induction blanks with
  | nil => exact absurd rfl hne
  | cons c blanks ih =>
    rw [List.cons_append, blanks1, if_pos (hb c List.mem_cons_self)]
    cases blanks with
    | nil => simp [h]
    | cons d blanks =>
      have hrest := ih (List.cons_ne_nil d blanks) fun e he => hb e (List.mem_cons_of_mem c he)
      simpa using Or.inl hrest

private theorem isSome_blanks0 (blanks : List Char) (hb : ∀ c ∈ blanks, isBlank c = true)
    (h : (next cs).isSome = true) :
    (blanks0 next (blanks ++ cs)).isSome = true := by
  rw [blanks0]
  cases blanks with
  | nil => simp [h]
  | cons c blanks => simpa using Or.inl (isSome_blanks1 _ (List.cons_ne_nil c blanks) hb h)

private theorem isSome_word (w : String) (h : (next cs).isSome = true) :
    (word w next (w.toList ++ cs)).isSome = true := by
  rw [word, Text.after?_eq_some_iff.2 rfl]
  exact h

end Reads

/-- A line that defines the previous pass is read as a definition, if it is ended. -/
theorem DefinesPrevious.isSome {line value : String} (h : DefinesPrevious line value)
    (rest : List Char) : (previousDefine none (line.toList ++ '\n' :: rest)).isSome = true := by
  obtain ⟨indent, gap, tail, hline, hindent, ⟨hne, hgap⟩, htail, -⟩ := h
  have hvalue : (blanks1 (fun cs => done () (Text.behindLine cs)) (tail ++ '\n' :: rest)).isSome =
      true := by
    cases tail with
    | nil =>
      exact isSome_blanks1 ['\n'] (List.cons_ne_nil _ _) (List.forall_mem_singleton.2 (by decide)) rfl
    | cons c tail =>
      exact isSome_blanks1 [c] (List.cons_ne_nil _ _) (by simpa using htail) rfl
  have hread := isSome_blanks0 indent hindent
    (isSome_word "#define" (isSome_blanks1 gap hne hgap (isSome_word previousPass hvalue)))
  rw [hline]
  simp only [List.append_assoc]
  exact hread

/-! ### Exchanging definitions line by line -/

/-- A program with every definition of the previous pass exchanged for another line. -/
inductive Exchanged (new : List Char) : List Char → List Char → Prop
  | nil : Exchanged new [] []
  /-- A line that is no definition. -/
  | kept {line rest rest' : List Char} (hl : '\n' ∉ line)
      (h : previousDefine none (line ++ '\n' :: rest) = none) (hrest : Exchanged new rest rest') :
      Exchanged new (line ++ '\n' :: rest) (line ++ '\n' :: rest')
  /-- A definition, which may take up several lines. -/
  | define {define rest rest' : List Char}
      (h : (previousDefine none (define ++ '\n' :: rest)).isSome = true)
      (hrest : Exchanged new rest rest') :
      Exchanged new (define ++ '\n' :: rest) (new ++ '\n' :: rest')
  /-- A definition with which the program ends. -/
  | last {define : List Char} (h : (previousDefine none define).isSome = true) :
      Exchanged new define new

/-- What stands behind the end of a line ends like the whole text. -/
private theorem endsWithLine_of_append {front rest : List Char}
    (h : front ++ '\n' :: rest = [] ∨ (front ++ '\n' :: rest).getLast? = some '\n') :
    rest = [] ∨ rest.getLast? = some '\n' := by
  cases rest with
  | nil => exact Or.inl rfl
  | cons c rest =>
    refine Or.inr (h.resolve_left (by simp) ▸ ?_)
    rw [List.getLast?_append_of_ne_nil _ (List.cons_ne_nil _ _), List.getLast?_cons_cons]

/-- Definitions are exchanged line by line. -/
theorem exchanged_replaceFrom (new : List Char) {cs : List Char}
    (hend : cs = [] ∨ cs.getLast? = some '\n') :
    Exchanged new cs (replaceFrom previousDefine (fun _ _ => new) 0 none cs) := by
  induction hn : cs.length using Nat.strongRecOn generalizing cs with
  | ind n ih =>
    cases hread : previousDefine none cs with
    | none =>
      rcases hend with rfl | hlast
      · exact .nil
      · obtain ⟨line, rest, rfl, hl⟩ := List.eq_append_cons_of_mem (List.mem_of_getLast? hlast)
        rw [replaceFrom_line _ hl hread]
        refine .kept hl hread (ih rest.length ?_ (endsWithLine_of_append (Or.inr hlast)) rfl)
        rw [← hn, List.length_append, List.length_cons]
        omega
    | some r =>
      obtain ⟨define, hne, rfl, hrest⟩ := endsLine_previousDefine none cs r hread
      have hsome : (previousDefine none (define ++ r.2)).isSome = true := by rw [hread]; rfl
      rw [Text.replaceFrom_of_read _ hne hread]
      rcases hrest with hnil | ⟨hhead, hlast⟩
      · rw [hnil, List.append_nil] at hsome ⊢
        simpa [replaceFrom] using Exchanged.last hsome
      · obtain ⟨c, define, rfl⟩ := List.exists_cons_of_ne_nil hne
        obtain ⟨rest, hr⟩ : ∃ rest, r.2 = '\n' :: rest := by
          cases hr : r.2 with
          | nil => rw [hr] at hhead; cases hhead
          | cons d rest => rw [hr] at hhead; exact ⟨rest, by rw [Option.some.inj hhead]⟩
        rw [hr] at hend hsome hn ⊢
        have hnone : previousDefine (c :: define).getLast? ('\n' :: rest) = none := by
          rw [List.getLast?_cons] at hlast ⊢
          exact previousDefine_eq_none (by simpa using hlast) _
        have hkept := replaceFrom_line (fun _ _ => new) (show '\n' ∉ [] by simp) hnone
        rw [List.nil_append] at hkept
        rw [hkept, List.nil_append]
        refine .define hsome (ih rest.length ?_ (endsWithLine_of_append hend) rfl)
        simp only [← hn, List.length_append, List.length_cons]
        omega

namespace Exchanged

variable {new cs ds : List Char}

/-- No line but the new one defines the previous pass. -/
theorem eq_of_definesPrevious (h : Exchanged new cs ds) (hnew : '\n' ∉ new) {line : List Char}
    (hl : line ∈ split '\n' ds) {value : String}
    (hv : DefinesPrevious (String.ofList line) value) : line = new := by
  induction h with
  | nil =>
    rw [split, List.mem_singleton] at hl
    subst hl
    obtain ⟨indent, gap, rest, hline, -⟩ := hv
    simp at hline
  | @kept kept rest rest' hkept hread _ ih =>
    rw [Text.split_append_cons] at hl
    rcases List.mem_append.1 hl with hl | hl
    · rw [Text.split_of_notMem hkept, List.mem_singleton] at hl
      subst hl
      have hsome := hv.isSome rest
      rw [String.toList_ofList, hread] at hsome
      cases hsome
    · exact ih hl
  | define _ _ ih =>
    rw [Text.split_append_cons] at hl
    rcases List.mem_append.1 hl with hl | hl
    · rwa [Text.split_of_notMem hnew, List.mem_singleton] at hl
    · exact ih hl
  | last _ => rwa [Text.split_of_notMem hnew, List.mem_singleton] at hl

/-- If there was a definition, the new line stands. -/
theorem mem_of_isSome (h : Exchanged new cs ds) (hnew : '\n' ∉ new)
    (hs : (search previousDefine none cs).isSome = true) : new ∈ split '\n' ds := by
  have hsplit : new ∈ split '\n' new := by
    rw [Text.split_of_notMem hnew]
    exact List.mem_singleton_self new
  induction h with
  | nil => exact absurd hs (by decide)
  | kept hl hread _ ih =>
    rw [Text.split_append_cons]
    exact List.mem_append_right _ (ih (isSome_search_line hl hread hs))
  | define _ _ ih =>
    rw [Text.split_append_cons]
    exact List.mem_append_left _ hsplit
  | last _ => exact hsplit

end Exchanged

/-! ### Cutting a program behind a semicolon -/

/-- What is read does not depend on what follows a semicolon that ends a line, as it ends before that. -/
private def EndsBeforeCut (next : List Char → Option (Unit × List Char)) : Prop :=
  ∀ front rest, next (front ++ ';' :: '\n' :: rest) =
      (next (front ++ [';', '\n'])).map (fun r => (r.1, r.2 ++ rest)) ∧
    ∀ r, next (front ++ [';', '\n']) = some r → r.2 ≠ []

namespace EndsBeforeCut

variable {next : List Char → Option (Unit × List Char)}

private theorem behindLine : EndsBeforeCut fun cs => done () (Text.behindLine cs) := by
  intro front rest
  have hcut : Text.behindLine (front ++ ';' :: '\n' :: rest) =
        Text.behindLine (front ++ [';', '\n']) ++ rest ∧
      Text.behindLine (front ++ [';', '\n']) ≠ [] := by
    unfold Text.behindLine
    induction front with
    | nil => exact ⟨rfl, by decide⟩
    | cons c front ih =>
      simp only [List.cons_append, List.dropWhile_cons]
      split
      · exact ih
      · simp
  refine ⟨congrArg (done ()) hcut.1, ?_⟩
  rintro r h
  cases h
  exact hcut.2

private theorem blanks1 (h : EndsBeforeCut next) : EndsBeforeCut (Text.blanks1 next) := by
  intro front rest
  induction front with
  | nil =>
    have hblank : isBlank ';' = false := by decide
    have hnone (cs : List Char) : Text.blanks1 next (';' :: cs) = none := by
      rw [Text.blanks1, hblank, if_neg Bool.false_ne_true]
    simp [hnone]
  | cons c front ih =>
    obtain ⟨hmap, hne⟩ := ih
    obtain ⟨hmap', hne'⟩ := h front rest
    rw [List.cons_append, List.cons_append, Text.blanks1, Text.blanks1]
    split
    · rw [hmap, hmap']
      refine ⟨?_, fun r hr => ?_⟩
      · cases Text.blanks1 next (front ++ [';', '\n']) <;> rfl
      · rcases (Option.orElse_eq_some ..).1 hr with hr | ⟨-, hr⟩
        · exact hne r hr
        · exact hne' r hr
    · exact ⟨rfl, fun r hr => by cases hr⟩

private theorem blanks0 (h : EndsBeforeCut next) : EndsBeforeCut (Text.blanks0 next) := by
  intro front rest
  obtain ⟨hmap, hne⟩ := h.blanks1 front rest
  obtain ⟨hmap', hne'⟩ := h front rest
  rw [Text.blanks0, Text.blanks0, hmap, hmap']
  refine ⟨?_, fun r hr => ?_⟩
  · cases Text.blanks1 next (front ++ [';', '\n']) <;> rfl
  · rcases (Option.orElse_eq_some ..).1 hr with hr | ⟨-, hr⟩
    · exact hne r hr
    · exact hne' r hr

/-- A word without semicolons is read before the cut or not at all. -/
private theorem after?_append {w : List Char} (hw : ';' ∉ w) (front rest : List Char) :
    Text.after? w (front ++ ';' :: rest) = (Text.after? w front).map (· ++ ';' :: rest) := by
  induction w generalizing front with
  | nil => rfl
  | cons d w ih =>
    rw [List.mem_cons, not_or] at hw
    cases front with
    | nil => simp [Text.after?, Ne.symm hw.1]
    | cons c front =>
      rw [List.cons_append, Text.after?, Text.after?]
      split
      · exact ih hw.2 front
      · rfl

private theorem word (h : EndsBeforeCut next) {w : String} (hw : ';' ∉ w.toList) :
    EndsBeforeCut (Text.word w next) := by
  intro front rest
  rw [Text.word, Text.word, after?_append hw, after?_append hw]
  cases Text.after? w.toList front with
  | none => exact ⟨rfl, fun r hr => by cases hr⟩
  | some behind => exact h behind rest

end EndsBeforeCut

private theorem endsBeforeCut_previousDefine (prev : Option Char) :
    EndsBeforeCut (previousDefine prev) := by
  intro front rest
  unfold previousDefine Text.atLineStart
  split
  · exact ((((EndsBeforeCut.behindLine.blanks1.word (w := previousPass) (by decide)).blanks1).word
      (w := "#define") (by decide)).blanks0) front rest
  · exact ⟨rfl, fun r hr => by cases hr⟩

private theorem previousDefine_semicolon (prev : Option Char) (cs : List Char) :
    previousDefine prev (';' :: cs) = none := by
  have hblank : isBlank ';' = false := by decide
  unfold previousDefine Text.atLineStart
  split
  · rw [blanks0, blanks1, hblank, if_neg Bool.false_ne_true]
    rfl
  · rfl

/-- Definitions are exchanged apart before and behind a semicolon that ends a line. -/
theorem replaceFrom_cut (new : List Char) (front rest : List Char) {skip : Nat}
    (hskip : skip ≤ front.length + 1) (prev : Option Char) :
    replaceFrom previousDefine (fun _ _ => new) skip prev (front ++ ';' :: '\n' :: rest) =
      replaceFrom previousDefine (fun _ _ => new) skip prev (front ++ [';', '\n']) ++
        replaceFrom previousDefine (fun _ _ => new) 0 none rest := by
  induction front generalizing skip prev with
  | nil =>
    cases skip with
    | succ skip =>
      obtain rfl : skip = 0 := by simpa using hskip
      have hline (rest : List Char) := replaceFrom_line (fun _ _ => new) (show '\n' ∉ [] by simp)
        (previousDefine_eq_none (c := ';') (by decide) ('\n' :: rest))
      rw [List.nil_append, List.nil_append, replaceFrom, replaceFrom]
      exact (hline rest).trans (congrArg (· ++ _) (hline []).symm)
    | zero =>
      have hline (rest : List Char) := replaceFrom_line (fun _ _ => new) (show '\n' ∉ [';'] by decide)
        (previousDefine_semicolon prev ('\n' :: rest))
      exact (hline rest).trans (congrArg (· ++ _) (hline []).symm)
  | cons c front ih =>
    cases skip with
    | succ skip =>
      rw [List.cons_append, List.cons_append, replaceFrom, replaceFrom]
      exact ih (by simpa using hskip) _
    | zero =>
      obtain ⟨hmap, hne⟩ := endsBeforeCut_previousDefine prev (c :: front) rest
      rw [List.cons_append, List.cons_append] at hmap
      rw [List.cons_append] at hne
      rw [List.cons_append, List.cons_append, replaceFrom, replaceFrom, hmap]
      cases hread : previousDefine prev (c :: (front ++ [';', '\n'])) with
      | none => exact congrArg (c :: ·) (ih (Nat.zero_le _) _)
      | some r =>
        have hpos := List.length_pos_of_ne_nil (hne r hread)
        have hlength : (front ++ ';' :: '\n' :: rest).length - (r.2 ++ rest).length =
            (front ++ [';', '\n']).length - r.2.length := by
          simp only [List.length_append, List.length_cons, List.length_nil]
          omega
        have hle : (front ++ [';', '\n']).length - r.2.length ≤ front.length + 1 := by
          simp only [List.length_append, List.length_cons, List.length_nil]
          omega
        dsimp only [Option.map_some]
        rw [hlength, ih hle, List.append_assoc]

end RenderGraph.Plan
