import RenderGraph.Source.Renaming

/-!
# Renaming always succeeds

The names that a body declares are identifiers. So the templates by which they are renamed hold no
backslash if the name put in front holds none, and a template without backslashes can be read.

## Main definitions

* `Text.Reads`: what a reader reads has a property

## Main results

* `Source.exists_renameLocals`, `Source.exists_renameEntry`
-/

namespace RenderGraph.Text

variable {α β : Type} {P : β → Prop}

/-- What a reader reads has a property, whatever the text. -/
def Reads (next : List Char → Option β) (P : β → Prop) : Prop :=
  ∀ cs b, next cs = some b → P b

/-! ### Parts of patterns -/

theorem Reads.blanks1 {next : List Char → Option β} (h : Reads next P) : Reads (blanks1 next) P := by
  intro cs
  induction cs with
  | nil =>
    intro b hb
    simp [Text.blanks1] at hb
  | cons c cs ih =>
    intro b hb
    unfold Text.blanks1 at hb
    split at hb
    · rw [Option.orElse_eq_orElse, Option.orElse_eq_or, Option.or_eq_some_iff] at hb
      rcases hb with hb | ⟨-, hb⟩
      · exact ih b hb
      · exact h cs b hb
    · simp at hb

theorem Reads.blanks0 {next : List Char → Option β} (h : Reads next P) : Reads (blanks0 next) P := by
  intro cs b hb
  rw [Text.blanks0, Option.orElse_eq_orElse, Option.orElse_eq_or, Option.or_eq_some_iff] at hb
  rcases hb with hb | ⟨-, hb⟩
  · exact h.blanks1 cs b hb
  · exact h cs b hb

theorem Reads.word {next : List Char → Option β} (h : Reads next P) (w : String) :
    Reads (word w next) P := by
  intro cs b hb
  obtain ⟨rest, -, hb⟩ := Option.bind_eq_some_iff.1 hb
  exact h rest b hb

theorem Reads.oneOf {next : List Char → Option β} (h : Reads next P) (words : List String) :
    Reads (Source.oneOf words next) P := by
  intro cs b hb
  obtain ⟨w, -, hb⟩ := List.exists_of_findSome?_eq_some hb
  exact h.blanks1.word w cs b hb

/-- An identifier is handed on to what follows. -/
theorem reads_ident {next : List Char → List Char → Option β}
    (h : ∀ name, name ≠ [] → (∀ c ∈ name, isIdentChar c = true) → Reads (next name) P) :
    Reads (ident next) P := by
  intro cs b hb
  unfold ident at hb
  split at hb
  · simp at hb
  · next hne => exact h _ hne (List.all_eq_true.1 List.all_takeWhile) _ b hb

/-! ### Scanning -/

theorem mem_matchesFrom {p : Pattern α} {P : α → Prop}
    (h : ∀ prev cs r, p prev cs = some r → P r.1) {skip : Nat} {prev : Option Char}
    {cs : List Char} {a : α} (ha : a ∈ matchesFrom p skip prev cs) : P a := by
  induction cs generalizing skip prev with
  | nil => simp [matchesFrom] at ha
  | cons c cs ih =>
    cases skip with
    | succ skip =>
      rw [matchesFrom] at ha
      exact ih ha
    | zero =>
      rw [matchesFrom] at ha
      split at ha
      · next hp =>
        rcases List.mem_cons.1 ha with rfl | ha
        · exact h _ _ _ hp
        · exact ih ha
      · exact ih ha

theorem mem_of_mem_distinct [DecidableEq α] {items : List α} {a : α} (h : a ∈ distinct items) :
    a ∈ items := by
  have hg : ∀ (items seen : List α),
      a ∈ items.foldl (fun seen item => if item ∈ seen then seen else seen ++ [item]) seen →
        a ∈ seen ∨ a ∈ items := by
    intro items
    induction items with
    | nil => exact fun seen hs => Or.inl hs
    | cons b items ih =>
      intro seen hs
      rcases ih _ hs with hs | hs
      · dsimp only at hs
        split at hs
        · exact Or.inl hs
        · rcases List.mem_append.1 hs with hs | hs
          · exact Or.inl hs
          · exact Or.inr (List.mem_singleton.1 hs ▸ List.mem_cons_self)
      · exact Or.inr (List.mem_cons_of_mem b hs)
  exact (hg items [] h).resolve_left (by simp)

end RenderGraph.Text

namespace RenderGraph.Source

open Text (isIdentChar Reads)

/-! ### Declared names -/

/-- The text is an identifier. -/
def IsIdent (name : String) : Prop :=
  ∀ c ∈ name.toList, isIdentChar c = true

instance (name : String) : Decidable (IsIdent name) :=
  decidable_of_iff (name.toList.all isIdentChar = true) List.all_eq_true

theorem IsIdent.append {a b : String} (ha : IsIdent a) (hb : IsIdent b) : IsIdent (a ++ b) := by
  rw [IsIdent, String.toList_append, List.forall_mem_append]
  exact ⟨ha, hb⟩

theorem IsIdent.notMem {name : String} (h : IsIdent name) : '\\' ∉ name.toList := by
  intro hm
  exact absurd (h _ hm) (by decide)

private theorem reads_done {name : List Char} (hne : name ≠ []) (h : ∀ c ∈ name, isIdentChar c = true) :
    Reads (Text.done (String.ofList name)) fun r => r.1.toList ≠ [] ∧ IsIdent r.1 := by
  rintro cs b ⟨⟩
  simpa [IsIdent] using ⟨hne, h⟩

/-- Constants have names that are not empty. -/
theorem ne_nil_and_isIdent_of_mem_constants {code name : String} (h : name ∈ constants code) :
    name.toList ≠ [] ∧ IsIdent name := by
  refine Text.mem_matchesFrom (P := fun name => name.toList ≠ [] ∧ IsIdent name) ?_
    (Text.mem_of_mem_distinct h)
  intro prev cs r hr
  unfold constantDeclaration Text.wordStart at hr
  split at hr
  · simp at hr
  · have hreads := Text.reads_ident fun name hne hn => ((reads_done hne hn).word "=").blanks0
    exact ((hreads.oneOf valueTypeNames).blanks1.word "const") cs r hr

/-- Functions have names that are not empty. -/
theorem ne_nil_and_isIdent_of_mem_helpers {code name : String} (h : name ∈ helpers code) :
    name.toList ≠ [] ∧ IsIdent name := by
  refine Text.mem_matchesFrom (P := fun name => name.toList ≠ [] ∧ IsIdent name) ?_
    (List.mem_filter.1 (Text.mem_of_mem_distinct h)).1
  intro prev cs r hr
  unfold functionDeclaration Text.atLineStart at hr
  split at hr
  · have hreads := Text.reads_ident fun name hne hn => ((reads_done hne hn).word "(").blanks0
    exact (hreads.oneOf (valueTypeNames ++ ["void"])).blanks0 cs r hr
  · simp at hr

theorem isIdent_of_mem_constants {code name : String} (h : name ∈ constants code) : IsIdent name :=
  (ne_nil_and_isIdent_of_mem_constants h).2

theorem isIdent_of_mem_helpers {code name : String} (h : name ∈ helpers code) : IsIdent name :=
  (ne_nil_and_isIdent_of_mem_helpers h).2

/-! ### Renaming -/

private theorem exists_foldlM {α β : Type} {f : β → α → Except Fault β} {l : List α}
    (h : ∀ b, ∀ a ∈ l, ∃ c, f b a = .ok c) (b : β) : ∃ c, l.foldlM f b = .ok c := by
  induction l generalizing b with
  | nil => exact ⟨b, rfl⟩
  | cons a l ih =>
    obtain ⟨c, hc⟩ := h b a List.mem_cons_self
    obtain ⟨d, hd⟩ := ih (fun b a ha => h b a (List.mem_cons_of_mem _ ha)) c
    exact ⟨d, by rw [List.foldlM_cons, hc]; exact hd⟩

theorem exists_renameLocals (code : String) {space : String} (h : '\\' ∉ space.toList) :
    ∃ renamed, renameLocals code space = .ok renamed := by
  obtain ⟨c, hc⟩ := exists_foldlM (l := constants code)
    (f := fun code name => renameConstant space name code) (fun code name hn => by
      have ht : '\\' ∉ (space ++ "_" ++ name).toList := by
        simpa using ⟨h, (isIdent_of_mem_constants hn).notMem⟩
      exact ⟨_, Text.substitute_of_notMem _ code ht⟩) code
  obtain ⟨d, hd⟩ := exists_foldlM (l := helpers c)
    (f := fun code name => renameHelper space name code) (fun code name hn => by
      have ht : '\\' ∉ (space ++ "_" ++ name ++ "(").toList := by
        simpa using ⟨h, (isIdent_of_mem_helpers hn).notMem⟩
      exact ⟨_, Text.substitute_of_notMem _ code ht⟩) c
  exact ⟨d, by rw [renameLocals, hc]; exact hd⟩

theorem exists_renameEntry (code : String) {name : String} (h : '\\' ∉ name.toList) :
    ∃ renamed, renameEntry code name = .ok renamed := by
  unfold renameEntry
  split
  · have ht : '\\' ∉ ("void " ++ name ++ "(").toList := by
      simpa using h
    exact ⟨_, Text.substitute_of_notMem _ code ht⟩
  · exact ⟨_, rfl⟩

end RenderGraph.Source
