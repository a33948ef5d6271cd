import RenderGraph.Text.Scan

/-!
# Searching a text

What a search finds is read at its place, and whatever can be read somewhere is found. A text in which a
pattern reads nothing stands when its places are exchanged, and a place that is read is exchanged apart from
the text behind it.

## Main results

* `Text.exists_of_search`, `Text.isSome_search`: a search finds what can be read
* `Text.replaceFrom_of_search_eq_none`, `Text.replaceFrom_of_read`: how places are exchanged
-/

namespace RenderGraph.Text

variable {α : Type}

/-! ### Lines of a text -/

/-- The first line holds no end of a line. -/
theorem notMem_line (cs : List Char) : '\n' ∉ line cs := by
  intro h
  simpa using List.all_eq_true.1 List.all_takeWhile '\n' h

/-- Behind the first line the text ends, or the line does. -/
theorem behindLine_eq_nil_or (cs : List Char) :
    behindLine cs = [] ∨ (behindLine cs).head? = some '\n' := by
  induction cs with
  | nil => exact Or.inl rfl
  | cons c cs ih =>
    rw [behindLine, List.dropWhile_cons]
    split
    · exact ih
    · next hc => exact Or.inr (by simpa using hc)

/-! ### Searching -/

variable {p : Pattern α}

/-- What a search finds is read behind the text before it. -/
theorem exists_of_search {prev : Option Char} {cs before rest : List Char} {a : α}
    (h : search p prev cs = some (before, a, rest)) :
    ∃ behind, cs = before ++ behind ∧ p (before.getLast?.or prev) behind = some (a, rest) := by
  induction cs generalizing prev before with
  | nil =>
    obtain ⟨r, hr, heq⟩ := Option.map_eq_some_iff.1 h
    cases heq
    exact ⟨[], rfl, hr⟩
  | cons c cs ih =>
    unfold search at h
    split at h
    · next r hr =>
      cases h
      exact ⟨c :: cs, rfl, hr⟩
    · obtain ⟨⟨before', a', rest'⟩, hr, heq⟩ := Option.map_eq_some_iff.1 h
      cases heq
      obtain ⟨behind, rfl, hbehind⟩ := ih hr
      refine ⟨behind, rfl, ?_⟩
      rwa [List.getLast?_cons, Option.some_or, ← Option.or_some]

/-- What can be read behind some text is found. -/
theorem isSome_search {prev : Option Char} {front back : List Char}
    (h : (p (front.getLast?.or prev) back).isSome = true) :
    (search p prev (front ++ back)).isSome = true := by
  induction front generalizing prev with
  | nil =>
    obtain ⟨r, hr⟩ := Option.isSome_iff_exists.1 h
    cases back with
    | nil => simpa [search] using h
    | cons c back =>
      change p prev (c :: back) = some r at hr
      rw [List.nil_append, search, hr]
      rfl
  | cons c front ih =>
    rw [List.cons_append, search]
    split
    · rfl
    · rw [Option.isSome_map]
      refine ih ?_
      rwa [List.getLast?_cons, Option.some_or, ← Option.or_some] at h

theorem search_ne_none {front back : List Char} {r : α × List Char} (h : p front.getLast? back = some r) :
    search p none (front ++ back) ≠ none := by
  rw [← Option.isSome_iff_ne_none]
  refine isSome_search ?_
  rw [Option.or_none, h]
  rfl

/-- Where a literal is found, it stands. -/
theorem eq_of_search_literal {w : String} {prev : Option Char} {cs before rest : List Char}
    (h : search (literal w) prev cs = some (before, (), rest)) : cs = before ++ (w.toList ++ rest) := by
  obtain ⟨behind, rfl, hbehind⟩ := exists_of_search h
  obtain ⟨rest', hrest, hdone⟩ := Option.bind_eq_some_iff.1 hbehind
  cases hdone
  rw [after?_eq_some_iff.1 hrest]

theorem occurs_literal_iff {w : String} {cs : List Char} :
    occurs (literal w) cs = true ↔ ∃ front back, cs = front ++ (w.toList ++ back) := by
  constructor
  · intro h
    obtain ⟨⟨before, _, rest⟩, hr⟩ := Option.isSome_iff_exists.1 h
    exact ⟨before, rest, eq_of_search_literal hr⟩
  · rintro ⟨front, back, rfl⟩
    refine isSome_search ?_
    show ((after? w.toList (w.toList ++ back)).bind (done ())).isSome = true
    rw [after?_eq_some_iff.2 rfl]
    rfl

/-- What holds nothing that the pattern reads stands. -/
theorem replaceFrom_of_search_eq_none (f : α → List Char → List Char) {prev : Option Char}
    {cs : List Char} (h : search p prev cs = none) : replaceFrom p f 0 prev cs = cs := by
  induction cs generalizing prev with
  | nil => rfl
  | cons c cs ih =>
    unfold search at h
    split at h
    · cases h
    · next hp =>
      rw [replaceFrom, hp]
      exact congrArg (c :: ·) (ih (Option.map_eq_none_iff.1 h))

/-- What belongs to the last place is passed over. -/
theorem replaceFrom_length_append (f : α → List Char → List Char) (prev : Option Char)
    (front back : List Char) :
    replaceFrom p f front.length prev (front ++ back) =
      replaceFrom p f 0 (front.getLast?.or prev) back := by
  induction front generalizing prev with
  | nil => rfl
  | cons c front ih =>
    rw [List.cons_append, List.length_cons, replaceFrom, ih, List.getLast?_cons, Option.some_or,
      ← Option.or_some]

/-- A place that the pattern reads is exchanged, and the text behind it is dealt with apart. -/
theorem replaceFrom_of_read (f : α → List Char → List Char) {prev : Option Char}
    {front back : List Char} {a : α} (hne : front ≠ []) (h : p prev (front ++ back) = some (a, back)) :
    replaceFrom p f 0 prev (front ++ back) = f a front ++ replaceFrom p f 0 front.getLast? back := by
  cases front with
  | nil => exact absurd rfl hne
  | cons c front =>
    have hskip : (front ++ back).length - back.length = front.length := by
      rw [List.length_append, Nat.add_sub_cancel]
    have htake : (front ++ back).length + 1 - back.length = (c :: front).length := by
      rw [List.length_append, List.length_cons]
      omega
    have hlast : front.getLast?.or (some c) = (c :: front).getLast? := by
      rw [List.getLast?_cons]
      cases front.getLast? <;> rfl
    rw [List.cons_append] at h ⊢
    rw [replaceFrom, h]
    dsimp only
    rw [hskip, htake, replaceFrom_length_append, hlast, ← List.cons_append, List.take_left]

/-! ### Patterns that read where others do -/

variable {β : Type} {q : Pattern β}

/-- A pattern that reads only where another one does leaves what stands before the first place of that one. -/
theorem replaceFrom_of_search (hread : ∀ prev cs, p prev cs = none → q prev cs = none)
    (f : β → List Char → List Char) {prev : Option Char} {cs before rest : List Char} {a : α}
    (h : search p prev cs = some (before, a, rest)) :
    ∃ tail, cs = before ++ tail ∧ p (before.getLast?.or prev) tail = some (a, rest) ∧
      replaceFrom q f 0 prev cs = before ++ replaceFrom q f 0 (before.getLast?.or prev) tail := by
  induction cs generalizing prev before with
  | nil =>
    obtain ⟨r, hr, heq⟩ := Option.map_eq_some_iff.1 h
    cases heq
    exact ⟨[], rfl, hr, rfl⟩
  | cons c cs ih =>
    unfold search at h
    split at h
    · next r hr =>
      cases h
      exact ⟨c :: cs, rfl, hr, rfl⟩
    · next hnone =>
      obtain ⟨⟨before', a', rest'⟩, hr, heq⟩ := Option.map_eq_some_iff.1 h
      cases heq
      obtain ⟨tail, rfl, htail, hreplace⟩ := ih hr
      have hlast : (c :: before').getLast?.or prev = before'.getLast?.or (some c) := by
        rw [List.getLast?_cons, Option.some_or, ← Option.or_some]
      rw [hlast]
      refine ⟨tail, rfl, htail, ?_⟩
      rw [replaceFrom, hread _ _ hnone]
      exact congrArg (c :: ·) hreplace

theorem search_eq_none_of_reads (hread : ∀ prev cs, p prev cs = none → q prev cs = none)
    {prev : Option Char} {cs : List Char} (h : search p prev cs = none) : search q prev cs = none := by
  induction cs generalizing prev with
  | nil =>
    rw [search, Option.map_eq_none_iff] at h ⊢
    exact hread _ _ h
  | cons c cs ih =>
    unfold search at h ⊢
    split at h
    · cases h
    · next hnone =>
      rw [hread _ _ hnone, Option.map_eq_none_iff]
      exact ih (Option.map_eq_none_iff.1 h)

/-- What the pattern does not read at any place of a text stands. -/
theorem replaceFrom_append_of_eq_none (f : β → List Char → List Char) {prev : Option Char}
    {front back : List Char}
    (h : ∀ a x, front = a ++ x → x ≠ [] → q (a.getLast?.or prev) (x ++ back) = none) :
    replaceFrom q f 0 prev (front ++ back) =
      front ++ replaceFrom q f 0 (front.getLast?.or prev) back := by
  induction front generalizing prev with
  | nil => rfl
  | cons c front ih =>
    have hlast (a : List Char) : (c :: a).getLast?.or prev = a.getLast?.or (some c) := by
      rw [List.getLast?_cons, Option.some_or, ← Option.or_some]
    have hnone := h [] (c :: front) rfl (List.cons_ne_nil _ _)
    rw [List.cons_append, replaceFrom, show q prev (c :: (front ++ back)) = none from hnone, hlast]
    refine congrArg (c :: ·) (ih fun a x hx hne => ?_)
    have hrest := h (c :: a) x (congrArg (c :: ·) hx) hne
    rwa [hlast] at hrest

/-- Patterns that read the same exchange the same, if they exchange it alike. -/
theorem replaceFrom_congr {e : α → β} (hq : ∀ prev cs, q prev cs = (p prev cs).map fun r => (e r.1, r.2))
    {f : α → List Char → List Char} {g : β → List Char → List Char}
    (hfg : ∀ prev cs a rest, p prev cs = some (a, rest) →
      f a (cs.take (cs.length - rest.length)) = g (e a) (cs.take (cs.length - rest.length)))
    (skip : Nat) (prev : Option Char) (cs : List Char) :
    replaceFrom p f skip prev cs = replaceFrom q g skip prev cs := by
  induction cs generalizing skip prev with
  | nil => cases skip <;> rfl
  | cons c cs ih =>
    cases skip with
    | succ skip => exact ih skip (some c)
    | zero =>
      rw [replaceFrom, replaceFrom, hq]
      cases hr : p prev (c :: cs) with
      | none => exact congrArg (c :: ·) (ih 0 (some c))
      | some r =>
        have hhead := hfg _ _ _ _ hr
        rw [List.length_cons] at hhead
        rw [Option.map_some]
        dsimp only
        rw [hhead, ih]

/-! ### Pieces -/

section Pieces

variable {γ : Type} [DecidableEq γ] {sep c : γ} {cs piece : List γ}

theorem intercalate_split (sep : γ) (cs : List γ) : [sep].intercalate (split sep cs) = cs := by
  induction cs with
  | nil => rfl
  | cons c cs ih =>
    obtain ⟨piece, pieces, heq⟩ := List.exists_cons_of_ne_nil (split_ne_nil sep cs)
    rw [heq] at ih
    rw [split, heq]
    split
    · next hc => rw [List.intercalate_cons_cons, ih, hc, List.nil_append, List.singleton_append]
    · cases pieces with
      | nil => simpa using ih
      | cons second pieces =>
        rw [List.intercalate_cons_cons] at ih ⊢
        rw [← ih]
        rfl

theorem notMem_of_mem_split (h : piece ∈ split sep cs) : sep ∉ piece := by
  induction cs generalizing piece with
  | nil =>
    rw [split, List.mem_singleton] at h
    simp [h]
  | cons c cs ih =>
    obtain ⟨first, pieces, heq⟩ := List.exists_cons_of_ne_nil (split_ne_nil sep cs)
    rw [split, heq] at h
    rw [heq] at ih
    split at h
    · rcases List.mem_cons.1 h with rfl | h
      · exact List.not_mem_nil
      · exact ih h
    · next hne =>
      rcases List.mem_cons.1 h with rfl | h
      · exact List.not_mem_cons_of_ne_of_not_mem (Ne.symm hne) (ih List.mem_cons_self)
      · exact ih (List.mem_cons_of_mem _ h)

/-- Pieces with separators between them are found again. -/
theorem split_intercalate {pieces : List (List γ)} (hne : pieces ≠ [])
    (h : ∀ piece ∈ pieces, sep ∉ piece) : split sep ([sep].intercalate pieces) = pieces := by
  induction pieces with
  | nil => exact absurd rfl hne
  | cons first pieces ih =>
    rw [List.forall_mem_cons] at h
    cases pieces with
    | nil => simpa using split_of_notMem h.1
    | cons second pieces =>
      rw [List.intercalate_cons_cons, List.append_assoc, List.singleton_append, split_append_cons,
        split_of_notMem h.1, ih (List.cons_ne_nil _ _) h.2, List.singleton_append]

omit [DecidableEq γ] in
theorem mem_of_mem_intercalate {sep : List γ} {groups : List (List γ)} {c : γ}
    (h : c ∈ sep.intercalate groups) : c ∈ sep ∨ ∃ group ∈ groups, c ∈ group := by
  induction groups with
  | nil => cases h
  | cons first groups ih =>
    cases groups with
    | nil => exact Or.inr ⟨first, List.mem_singleton.2 rfl, by simpa using h⟩
    | cons second groups =>
      rw [List.intercalate_cons_cons, List.append_assoc, List.mem_append, List.mem_append] at h
      rcases h with h | h | h
      · exact Or.inr ⟨first, List.mem_cons_self, h⟩
      · exact Or.inl h
      · exact (ih h).imp_right fun ⟨group, hgroup, hmem⟩ =>
          ⟨group, List.mem_cons_of_mem first hgroup, hmem⟩

theorem mem_of_mem_split (hp : piece ∈ split sep cs) (hc : c ∈ piece) : c ∈ cs := by
  induction cs generalizing piece with
  | nil =>
    rw [split, List.mem_singleton] at hp
    exact hp ▸ hc
  | cons d cs ih =>
    obtain ⟨first, pieces, heq⟩ := List.exists_cons_of_ne_nil (split_ne_nil sep cs)
    rw [split, heq] at hp
    rw [heq] at ih
    split at hp
    · rcases List.mem_cons.1 hp with rfl | hp
      · cases hc
      · exact List.mem_cons_of_mem d (ih hp hc)
    · rcases List.mem_cons.1 hp with rfl | hp
      · rcases List.mem_cons.1 hc with rfl | hc
        · exact List.mem_cons_self
        · exact List.mem_cons_of_mem d (ih List.mem_cons_self hc)
      · exact List.mem_cons_of_mem d (ih (List.mem_cons_of_mem _ hp) hc)

end Pieces

end RenderGraph.Text
