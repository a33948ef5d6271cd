import RenderGraph.Text.Blank
import RenderGraph.Text.Word

/-!
# Searching and replacing in texts

A `Pattern` looks at a place in a text: it sees the character before the place and the text after
it, and either reads something there or fails. Texts are scanned from left to right; the first place
where a pattern succeeds wins, and after a success the scan goes on behind what was read.

Readers for the parts of a pattern take the reader of what follows as an argument. A run of blanks
offers every way of ending to that reader, the longest first.

## Main definitions

* `Text.after?`, `Text.blanks0`, `Text.blanks1`: parts of patterns
* `Text.Pattern`, `Text.search`, `Text.matchesOf`, `Text.replaceAll`
* `Text.wholeWord`, `Text.atLineStart`: common patterns
* `Text.split`, `Text.line`, `Text.distinct`
-/

namespace RenderGraph.Text

/-! ### Parts of patterns -/

/-- The text behind a given word at the front of a text. -/
def after? : List Char → List Char → Option (List Char)
  | [], cs => some cs
  | _ :: _, [] => none
  | w :: ws, c :: cs => if w = c then after? ws cs else none

theorem after?_eq_some_iff {w cs rest : List Char} : after? w cs = some rest ↔ cs = w ++ rest := by
  induction w generalizing cs with
  | nil => simp [after?, eq_comm]
  | cons a w ih =>
    cases cs with
    | nil => simp [after?]
    | cons c cs =>
      by_cases h : a = c
      · simp [after?, h, ih]
      · simp [after?, h, eq_comm]

variable {α β : Type}

/-- Reads one or more blanks, then what follows. -/
def blanks1 (next : List Char → Option β) : List Char → Option β
  | [] => none
  | c :: cs => if isBlank c then blanks1 next cs <|> next cs else none

/-- Reads any number of blanks, then what follows. -/
def blanks0 (next : List Char → Option β) (cs : List Char) : Option β :=
  blanks1 next cs <|> next cs

/-- Reads a given word, then what follows. -/
def word (w : String) (next : List Char → Option β) (cs : List Char) : Option β :=
  (after? w.toList cs).bind next

/-- Reads the longest nonempty run of identifier characters, then what follows. -/
def ident (next : List Char → List Char → Option β) (cs : List Char) : Option β :=
  match cs.takeWhile isIdentChar with
  | [] => none
  | name => next name (cs.dropWhile isIdentChar)

/-- Ends a pattern, with what it read. -/
def done (a : α) (rest : List Char) : Option (α × List Char) :=
  some (a, rest)

/-- Ends a pattern that must not be followed by a word character. -/
def wordEnd (a : α) (rest : List Char) : Option (α × List Char) :=
  if isWord? rest.head? then none else some (a, rest)

/-! ### Patterns -/

/-- What a pattern reads at a place, given the character before it and the text after it. -/
abbrev Pattern (α : Type) :=
  Option Char → List Char → Option (α × List Char)

/-- The pattern may stand only where no word character precedes. -/
def wordStart (next : List Char → Option (α × List Char)) : Pattern α :=
  fun prev cs => if isWord? prev then none else next cs

/-- The pattern may stand only at the beginning of a line. -/
def atLineStart (next : List Char → Option (α × List Char)) : Pattern α :=
  fun prev cs => if prev.all (· == '\n') then next cs else none

/-- A given text, anywhere. -/
def literal (w : String) : Pattern Unit :=
  fun _ cs => word w (done ()) cs

/-- A given text that stands as a whole word. -/
def wholeWord (w : String) : Pattern Unit :=
  wordStart (word w (wordEnd ()))

/-! ### Scanning -/

/-- The first place where the pattern succeeds: the text before it, what was read, the text behind
it. -/
def search (p : Pattern α) : Option Char → List Char → Option (List Char × α × List Char)
  | prev, [] => (p prev []).map fun r => ([], r)
  | prev, c :: cs =>
    match p prev (c :: cs) with
    | some r => some ([], r)
    | none => (search p (some c) cs).map fun r => (c :: r.1, r.2)

/-- The pattern succeeds somewhere in the text. -/
def occurs (p : Pattern α) (cs : List Char) : Bool :=
  (search p none cs).isSome

/-- Everything the pattern reads, scanning on behind each success. `skip` counts the characters that
belong to the last one. -/
def matchesFrom (p : Pattern α) : Nat → Option Char → List Char → List α
  | _, _, [] => []
  | skip + 1, _, c :: cs => matchesFrom p skip (some c) cs
  | 0, prev, c :: cs =>
    match p prev (c :: cs) with
    | some (a, rest) => a :: matchesFrom p (cs.length - rest.length) (some c) cs
    | none => matchesFrom p 0 (some c) cs

/-- Everything the pattern reads in a text. -/
def matchesOf (p : Pattern α) (cs : List Char) : List α :=
  matchesFrom p 0 none cs

/-- The text with each place that the pattern reads exchanged for `f` of what it read and of the
place's own text. `skip` counts the characters that belong to the last place. -/
def replaceFrom (p : Pattern α) (f : α → List Char → List Char) :
    Nat → Option Char → List Char → List Char
  | _, _, [] => []
  | skip + 1, _, c :: cs => replaceFrom p f skip (some c) cs
  | 0, prev, c :: cs =>
    match p prev (c :: cs) with
    | some (a, rest) =>
      f a ((c :: cs).take (cs.length + 1 - rest.length)) ++
        replaceFrom p f (cs.length - rest.length) (some c) cs
    | none => c :: replaceFrom p f 0 (some c) cs

/-- The text with each place that the pattern reads exchanged. -/
def replaceAll (p : Pattern α) (f : α → List Char → List Char) (cs : List Char) : List Char :=
  replaceFrom p f 0 none cs

/-- The text with the first place that the pattern reads exchanged. -/
def replaceFirst (p : Pattern α) (new : List Char) (cs : List Char) : List Char :=
  match search p none cs with
  | some (before, _, rest) => before ++ new ++ rest
  | none => cs

/-! ### Lines and fields -/

/-- Each item once, at its first place. -/
def distinct [DecidableEq α] (items : List α) : List α :=
  items.foldl (fun seen item => if item ∈ seen then seen else seen ++ [item]) []

/-- The pieces of a list between the occurrences of a separator. -/
def split [DecidableEq α] (sep : α) : List α → List (List α)
  | [] => [[]]
  | c :: cs =>
    if c = sep then [] :: split sep cs
    else
      match split sep cs with
      | [] => [[c]]
      | piece :: pieces => (c :: piece) :: pieces

theorem split_ne_nil [DecidableEq α] (sep : α) (cs : List α) : split sep cs ≠ [] := by
  cases cs with
  | nil => simp [split]
  | cons c cs =>
    rw [split]
    split
    · simp
    · split <;> simp

theorem split_append_cons [DecidableEq α] (sep : α) (front back : List α) :
    split sep (front ++ sep :: back) = split sep front ++ split sep back := by
  induction front with
  | nil => simp [split]
  | cons c front ih =>
    rw [List.cons_append, split, split, ih]
    split
    · rfl
    · cases h : split sep front with
      | nil => exact absurd h (split_ne_nil sep front)
      | cons piece pieces => rfl

theorem split_of_notMem [DecidableEq α] {sep : α} {piece : List α} (h : sep ∉ piece) :
    split sep piece = [piece] := by
  induction piece with
  | nil => rfl
  | cons c piece ih =>
    rw [List.mem_cons, not_or] at h
    rw [split, if_neg (Ne.symm h.1), ih h.2]

/-- The text up to the end of its first line. -/
def line (cs : List Char) : List Char :=
  cs.takeWhile (· != '\n')

/-- The text from the end of its first line on. -/
def behindLine (cs : List Char) : List Char :=
  cs.dropWhile (· != '\n')

theorem line_append_behindLine (cs : List Char) : line cs ++ behindLine cs = cs :=
  List.takeWhile_append_dropWhile

end RenderGraph.Text
