import RenderGraph.Numeric.Decimal
import RenderGraph.Text.Scan

/-!
# Templates of replacements

What is put in the place of a match is written as a template. Characters stand for themselves, and a
backslash begins an escape: `\n` and its like are control characters, `\\` is a backslash, `\101` is a
character by its octal code, and `\g<0>` is the matched text itself. The patterns of this library have no
numbered or named parts, so `\g<0>` is the only reference that a template may hold. A backslash before a
character that is neither a letter nor a digit is kept together with it; every other escape is refused.

## Main definitions

* `Text.Mark`: the characters of a template, those behind a backslash told apart
* `Text.Template`, `Text.Template.read`, `Text.Template.fill`
* `Text.substitute`: a text with every match exchanged

## Main results

* `Text.Template.read_of_notMem`: a template without backslashes stands for itself
* `Text.Template.fill_map_char`
-/

namespace RenderGraph.Text

/-! ### Marks -/

/-- A character of a template. -/
inductive Mark
  | plain (c : Char)
  /-- A character behind a backslash. -/
  | escaped (c : Char)
  /-- A backslash that ends the template. -/
  | dangling
  deriving DecidableEq, Repr

namespace Mark

/-- The marks of a template. -/
def ofChars : List Char → List Mark
  | [] => []
  | ['\\'] => [dangling]
  | '\\' :: c :: cs => escaped c :: ofChars cs
  | c :: cs => plain c :: ofChars cs

/-- The characters that make up a mark. -/
def chars : Mark → List Char
  | plain c => [c]
  | escaped c => ['\\', c]
  | dangling => ['\\']

/-- The octal digit that a mark stands for. -/
def octal? : Mark → Option Nat
  | plain c => if '0' ≤ c ∧ c ≤ '7' then some (c.toNat - '0'.toNat) else none
  | _ => none

theorem ofChars_of_notMem {cs : List Char} (h : '\\' ∉ cs) : ofChars cs = cs.map plain := by
  induction cs with
  | nil => rfl
  | cons c cs ih =>
    have hc : c ≠ '\\' := fun hc => h (hc ▸ List.mem_cons_self)
    rw [ofChars, ih fun hm => h (List.mem_cons_of_mem c hm), List.map_cons]
    · exact fun hc' _ => hc hc'
    · exact fun _ _ hc' _ => hc hc'

end Mark

/-! ### Templates -/

/-- A piece of a template: a character, or the matched text. -/
inductive Piece
  | char (c : Char)
  | whole
  deriving DecidableEq, Repr

/-- What is put in the place of a match. -/
abbrev Template :=
  List Piece

namespace Template

/-- The template with every reference to the match filled in. -/
def fill (t : Template) (matched : List Char) : List Char :=
  t.flatMap fun
    | .char c => [c]
    | .whole => matched

/-- The number that some octal digits denote. -/
def octal (digits : List Nat) : Nat :=
  digits.foldl (fun n d => 8 * n + d) 0

/-- The control character or backslash that a letter or backslash means behind a backslash. -/
def control? (c : Char) : Option Char :=
  match c with
  | 'a' => some '\x07'
  | 'b' => some '\x08'
  | 't' => some '\t'
  | 'n' => some '\n'
  | 'v' => some '\x0b'
  | 'f' => some '\x0c'
  | 'r' => some '\r'
  | '\\' => some '\\'
  | _ => none

/-- A name, as opposed to a number: word characters that do not begin with a digit. -/
def isName (name : List Char) : Bool :=
  name.all isWord && !name.head?.any isDigit

/-- The pieces that a reference behind `\g` stands for, and how many marks it takes: a number between
angle brackets, which has to be zero. -/
def reference : List Mark → Except Fault (Template × Nat)
  | .plain '<' :: ms =>
    let name := ms.takeWhile (· ≠ .plain '>')
    let text := name.flatMap Mark.chars
    match ms.drop name.length with
    | [] | [_, .dangling] => .error .badTemplate
    | _ =>
      if text.isEmpty then .error .badTemplate
      else if isName text then .error (.unknownGroup (String.ofList text))
      else if Decimal.readInt? (String.ofList text) = some 0 then .ok ([.whole], name.length + 2)
      else .error .badTemplate
  | _ => .error .badTemplate

/-- The pieces that an escape and the marks behind it stand for, and how many of these marks it
takes. -/
def escape (c : Char) (ms : List Mark) : Except Fault (Template × Nat) :=
  if c = 'g' then reference ms
  else if c = '0' then
    let digits := ((ms.take 2).map Mark.octal?).takeWhile Option.isSome
    .ok ([.char (Char.ofNat (octal (digits.map (·.getD 0))))], digits.length)
  else if c.isDigit then
    match ((Mark.plain c :: ms).take 3).mapM Mark.octal? with
    | some [a, b, d] =>
      if octal [a, b, d] < 256 then .ok ([.char (Char.ofNat (octal [a, b, d]))], 2)
      else .error .badTemplate
    | _ => .error .badTemplate
  else
    match control? c with
    | some d => .ok ([.char d], 0)
    | none => if c.isAlpha then .error .badTemplate else .ok ([.char '\\', .char c], 0)

/-- The template that some marks write. -/
def ofMarks : List Mark → Except Fault Template
  | [] => .ok []
  | .dangling :: _ => .error .badTemplate
  | .plain c :: ms => (ofMarks ms).map (.char c :: ·)
  | .escaped c :: ms => do
    let (pieces, taken) ← escape c ms
    let rest ← ofMarks (ms.drop taken)
    pure (pieces ++ rest)
termination_by ms => ms.length
decreasing_by
  · simp
  · simp only [List.length_drop, List.length_cons]
    omega

/-- The template that a text writes. -/
def read (text : String) : Except Fault Template :=
  ofMarks (Mark.ofChars text.toList)

@[simp]
theorem fill_map_char (cs matched : List Char) : fill (cs.map .char) matched = cs := by
  induction cs with
  | nil => rfl
  | cons c cs ih => simpa [fill] using ih

theorem ofMarks_map_plain (cs : List Char) : ofMarks (cs.map .plain) = .ok (cs.map .char) := by
  induction cs with
  | nil => rw [List.map_nil, ofMarks]; rfl
  | cons c cs ih => rw [List.map_cons, ofMarks, ih]; rfl

/-- A template without backslashes stands for itself. -/
theorem read_of_notMem {text : String} (h : '\\' ∉ text.toList) :
    read text = .ok (text.toList.map .char) := by
  rw [read, Mark.ofChars_of_notMem h, ofMarks_map_plain]

end Template

/-! ### Substitution -/

variable {α : Type}

/-- The text with each place that the pattern reads exchanged for what a template makes of it. The
template is read also when the pattern reads nothing. -/
def substitute (p : Pattern α) (template text : String) : Except Fault String := do
  let t ← Template.read template
  pure (String.ofList (replaceAll p (fun _ matched => t.fill matched) text.toList))

theorem substitute_of_notMem (p : Pattern α) {template : String} (text : String)
    (h : '\\' ∉ template.toList) :
    substitute p template text =
      .ok (String.ofList (replaceAll p (fun _ _ => template.toList) text.toList)) := by
  simp [substitute, Template.read_of_notMem h, bind, Except.bind, pure, Except.pure]

end RenderGraph.Text
