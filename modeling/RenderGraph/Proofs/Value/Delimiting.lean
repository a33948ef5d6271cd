import Mathlib.Data.List.Basic
import RenderGraph.Graph.Stage
import RenderGraph.Proofs.Numeric.Marks

/-!
# Where a written value ends

In the written form of a value brackets are balanced and quotes are closed, so a reader that counts the
open brackets finds the end of a value without knowing what follows it. The settings of a feedback buffer
are written between brackets; therefore they can be told from any text that follows them.

## Main definitions

* `Value.Reading`, `Value.closing`: a reader that looks for the end of some open brackets
* `Value.Balanced`: a text that leaves the reader as it was
* `Value.Unquoted`: a text without quotes, brackets and backslashes

## Main results

* `Value.balanced_written`: written values are balanced
* `Feedback.written_append_inj`: the settings of a feedback buffer can be told from what follows
-/

namespace RenderGraph

namespace Value

/-! ### A reader of brackets -/

/-- What the reader is in: neither quotes nor anything else, quotes, or quotes behind a backslash. -/
inductive Reading
  | plain
  | quoted (quote : Char)
  | escaped (quote : Char)

/-- The quotes in use. -/
def quotes : List Char :=
  ['\x27', '\x22']

def openings : List Char :=
  ['(', '[', '\x7b']

def closings : List Char :=
  [')', ']', '\x7d']

/-- The text behind the bracket that closes the outermost of some open brackets, `depth` of which are open
inside it. Brackets between quotes do not count. -/
def closing : Nat → Reading → List Char → Option (List Char)
  | _, _, [] => none
  | depth, .escaped quote, _ :: cs => closing depth (.quoted quote) cs
  | depth, .quoted quote, c :: cs =>
    if c = '\\' then closing depth (.escaped quote) cs
    else if c = quote then closing depth .plain cs
    else closing depth (.quoted quote) cs
  | depth, .plain, c :: cs =>
    if c ∈ quotes then closing depth (.quoted c) cs
    else if c ∈ openings then closing (depth + 1) .plain cs
    else if c ∈ closings then if depth = 0 then some cs else closing (depth - 1) .plain cs
    else closing depth .plain cs

section Steps

variable {depth : Nat} {c : Char} (cs : List Char)

theorem closing_quote (h : c ∈ quotes) :
    closing depth .plain (c :: cs) = closing depth (.quoted c) cs := by
  rw [closing, if_pos h]

theorem closing_opening (h : c ∈ openings) :
    closing depth .plain (c :: cs) = closing (depth + 1) .plain cs := by
  have hquote : ∀ c ∈ openings, c ∉ quotes := by simp [openings, quotes]
  rw [closing, if_neg (hquote c h), if_pos h]

theorem closing_closing (h : c ∈ closings) :
    closing (depth + 1) .plain (c :: cs) = closing depth .plain cs := by
  have hother : ∀ c ∈ closings, c ∉ quotes ∧ c ∉ openings := by simp [closings, quotes, openings]
  rw [closing, if_neg (hother c h).1, if_neg (hother c h).2, if_pos h, if_neg (Nat.succ_ne_zero depth),
    Nat.add_sub_cancel]

theorem closing_outermost (h : c ∈ closings) : closing 0 .plain (c :: cs) = some cs := by
  have hother : ∀ c ∈ closings, c ∉ quotes ∧ c ∉ openings := by simp [closings, quotes, openings]
  rw [closing, if_neg (hother c h).1, if_neg (hother c h).2, if_pos h, if_pos rfl]

end Steps

/-- The text leaves the reader as it was. -/
def Balanced (w : List Char) : Prop :=
  ∀ depth rest, closing depth .plain (w ++ rest) = closing depth .plain rest

/-- The character stands for itself, inside and outside quotes. -/
def IsOrdinary (c : Char) : Prop :=
  c ∉ quotes ∧ c ∉ openings ∧ c ∉ closings ∧ c ≠ '\\'

instance : DecidablePred IsOrdinary :=
  fun _ => inferInstanceAs (Decidable (_ ∧ _))

namespace Balanced

variable {w w' : List Char}

theorem nil : Balanced [] :=
  fun _ _ => rfl

theorem append (h : Balanced w) (h' : Balanced w') : Balanced (w ++ w') := by
  intro depth rest
  rw [List.append_assoc, h, h']

theorem of_ordinary (h : ∀ c ∈ w, IsOrdinary c) : Balanced w := by
  intro depth rest
  induction w with
  | nil => rfl
  | cons c w ih =>
    obtain ⟨hquote, hopening, hclosing, -⟩ := h c List.mem_cons_self
    rw [List.cons_append, closing, if_neg hquote, if_neg hopening, if_neg hclosing]
    exact ih fun d hd => h d (List.mem_cons_of_mem c hd)

/-- A balanced text between brackets. -/
theorem bracket (h : Balanced w) {o c : Char} (ho : o ∈ openings) (hc : c ∈ closings) :
    Balanced (o :: (w ++ [c])) := by
  intro depth rest
  rw [List.cons_append, List.append_assoc, closing_opening _ ho, h]
  exact closing_closing rest hc

/-- The bracket behind a balanced text is found. -/
theorem closing_eq (h : Balanced w) {c : Char} (hc : c ∈ closings) (rest : List Char) :
    closing 0 .plain (w ++ c :: rest) = some rest := by
  rw [h, closing_outermost rest hc]

theorem intercalate {sep : String} (hsep : Balanced sep.toList) {parts : List String}
    (h : ∀ p ∈ parts, Balanced p.toList) : Balanced (sep.intercalate parts).toList := by
  induction parts with
  | nil => exact nil
  | cons p parts ih =>
    cases parts with
    | nil => simpa using h p List.mem_cons_self
    | cons q parts =>
      rw [String.intercalate_cons_cons, String.toList_append, String.toList_append]
      exact ((h p List.mem_cons_self).append hsep).append
        (ih fun r hr => h r (List.mem_cons_of_mem p hr))

end Balanced

/-! ### Quoted texts -/

/-- Letters and digits are ordinary. -/
theorem isOrdinary_of_isAlphanum {c : Char} (h : c.isAlphanum = true) : IsOrdinary c := by
  have hnone : ∀ d ∈ quotes ++ openings ++ closings ++ ['\\'], (!d.isAlphanum) = true :=
    List.all_eq_true.1 (by decide)
  have hc : c ∉ quotes ++ openings ++ closings ++ ['\\'] := by
    intro hmem
    have hother := hnone c hmem
    rw [h] at hother
    cases hother
  simpa only [IsOrdinary, List.mem_append, not_or, List.mem_singleton, and_assoc] using hc

private theorem isAlphanum_of_mem_toDigits {c : Char} {n : Nat} (h : c ∈ Nat.toDigits 16 n) :
    c.isAlphanum = true := by
  have hdigit : ∀ d < 16, (Nat.digitChar d).isAlphanum = true := by decide
  induction n using Nat.strongRecOn with
  | ind n ih =>
    rw [Nat.toDigits_eq_if (by decide)] at h
    split at h
    · next hn =>
      rw [List.mem_singleton] at h
      exact h ▸ hdigit n hn
    · next hn =>
      rcases List.mem_append.1 h with h | h
      · exact ih (n / 16) (by omega) h
      · rw [List.mem_singleton] at h
        exact h ▸ hdigit _ (Nat.mod_lt n (by decide))

private theorem isAlphanum_of_mem_hex {c : Char} {width n : Nat} (h : c ∈ (Text.hex width n).toList) :
    c.isAlphanum = true := by
  rw [Text.hex, String.toList_ofList] at h
  rcases List.mem_append.1 h with h | h
  · rw [List.eq_of_mem_replicate h]
    decide
  · exact isAlphanum_of_mem_toDigits h

section Quoted

variable {depth : Nat} {quote c : Char} {rest : List Char}

/-- Ordinary characters do not end quotes. -/
private theorem closing_ordinary {cs : List Char} (hq : quote ∈ quotes) (h : ∀ c ∈ cs, IsOrdinary c) :
    closing depth (.quoted quote) (cs ++ rest) = closing depth (.quoted quote) rest := by
  induction cs with
  | nil => rfl
  | cons c cs ih =>
    obtain ⟨hquote, -, -, hslash⟩ := h c List.mem_cons_self
    have hne : c ≠ quote := fun heq => hquote (heq ▸ hq)
    rw [List.cons_append, closing, if_neg hslash, if_neg hne]
    exact ih fun d hd => h d (List.mem_cons_of_mem c hd)

/-- A character of a quoted text stands for itself, or a backslash precedes it, or its code. -/
private theorem quotedChar_cases (quote c : Char) :
    (∃ d cs, (Text.quotedChar quote c).toList = '\\' :: d :: cs ∧ ∀ c ∈ cs, IsOrdinary c) ∨
      (Text.quotedChar quote c).toList = [c] ∧ c ≠ quote ∧ c ≠ '\\' := by
  have hcode (width : Nat) (lead : String) (d : Char) (h : lead.toList = ['\\', d]) :
      ∃ d cs, (lead ++ Text.hex width c.toNat).toList = '\\' :: d :: cs ∧ ∀ c ∈ cs, IsOrdinary c := by
    refine ⟨d, (Text.hex width c.toNat).toList, ?_, fun c hc =>
      isOrdinary_of_isAlphanum (isAlphanum_of_mem_hex hc)⟩
    rw [String.toList_append, h, List.cons_append, List.singleton_append]
  have hcontrol (control : String) (d : Char) (h : control.toList = ['\\', d]) :
      ∃ d cs, control.toList = '\\' :: d :: cs ∧ ∀ c ∈ cs, IsOrdinary c :=
    ⟨d, [], h, by simp⟩
  unfold Text.quotedChar
  by_cases hescape : (c = quote || c = '\\') = true
  · rw [if_pos hescape, String.toList_ofList]
    exact .inl ⟨c, [], rfl, by simp⟩
  rw [if_neg hescape]
  simp only [Bool.or_eq_true, decide_eq_true_eq, not_or] at hescape
  by_cases htab : c = '\t'
  · rw [if_pos htab]
    exact .inl (hcontrol "\\t" 't' rfl)
  rw [if_neg htab]
  by_cases hnewline : c = '\n'
  · rw [if_pos hnewline]
    exact .inl (hcontrol "\\n" 'n' rfl)
  rw [if_neg hnewline]
  by_cases hreturn : c = '\r'
  · rw [if_pos hreturn]
    exact .inl (hcontrol "\\r" 'r' rfl)
  rw [if_neg hreturn]
  by_cases hprintable : Text.isPrintable c = true
  · rw [if_pos hprintable]
    exact .inr ⟨String.toList_singleton c, hescape⟩
  rw [if_neg hprintable]
  by_cases hbyte : c.toNat < 0x100
  · rw [if_pos hbyte]
    exact .inl (hcode 2 "\\x" 'x' rfl)
  rw [if_neg hbyte]
  by_cases hshort : c.toNat < 0x10000
  · rw [if_pos hshort]
    exact .inl (hcode 4 "\\u" 'u' rfl)
  · rw [if_neg hshort]
    exact .inl (hcode 8 "\\U" 'U' rfl)

/-- No character of a quoted text ends the quotes. -/
private theorem closing_quotedChar (hq : quote ∈ quotes) :
    closing depth (.quoted quote) ((Text.quotedChar quote c).toList ++ rest) =
      closing depth (.quoted quote) rest := by
  rcases quotedChar_cases quote c with ⟨d, cs, heq, hcs⟩ | ⟨heq, hquote, hslash⟩
  · rw [heq, List.cons_append, List.cons_append, closing, if_pos rfl, closing]
    exact closing_ordinary hq hcs
  · rw [heq, List.singleton_append, closing, if_neg hslash, if_neg hquote]

end Quoted

/-- Quoted texts are balanced, whatever they hold. -/
theorem balanced_quoted (s : String) : Balanced (Text.quoted s).toList := by
  intro depth rest
  unfold Text.quoted
  dsimp only
  generalize hquote : (if (s.contains '\x27' && !s.contains '\x22') = true then '\x22' else '\x27') = quote
  have hq : quote ∈ quotes := by
    rw [← hquote]
    split <;> decide
  have hchars (cs : List Char) (rest : List Char) :
      closing depth (.quoted quote) (cs.flatMap (fun c => (Text.quotedChar quote c).toList) ++ rest) =
        closing depth (.quoted quote) rest := by
    induction cs with
    | nil => rfl
    | cons c cs ih =>
      rw [List.flatMap_cons, List.append_assoc, closing_quotedChar hq, ih]
  have hslash : quote ≠ '\\' := by
    rintro rfl
    exact absurd hq (by decide)
  have hends : quote.toString.toList = [quote] := String.toList_singleton quote
  rw [String.toList_append, String.toList_append, String.toList_join, List.flatMap_map, hends,
    List.append_assoc, List.append_assoc, List.singleton_append, List.singleton_append,
    closing_quote _ hq, hchars, closing, if_neg hslash, if_pos rfl]

/-! ### Numbers -/

/-- The characters of numbers are ordinary. -/
theorem isOrdinary_of_isMark {c : Char} (h : Number.IsMark c) : IsOrdinary c := by
  rcases h with h | h
  · refine isOrdinary_of_isAlphanum ?_
    rw [Char.isAlphanum, h, Bool.or_true]
  · have hothers : ∀ d ∈ ['-', '+', '.', 'e', 'i', 'n', 'f', 'a'], IsOrdinary d :=
      Text.forall_mem_of_all (by decide)
    exact hothers c h

/-- All characters of the text are ordinary. -/
def Unquoted (s : String) : Prop :=
  ∀ c ∈ s.toList, IsOrdinary c

instance (s : String) : Decidable (Unquoted s) :=
  List.decidableBAll IsOrdinary s.toList

namespace Unquoted

variable {s t : String}

theorem append (h : Unquoted s) (h' : Unquoted t) : Unquoted (s ++ t) := by
  rw [Unquoted, String.toList_append]
  exact List.forall_mem_append.2 ⟨h, h'⟩

theorem balanced (h : Unquoted s) : Balanced s.toList :=
  .of_ordinary h

end Unquoted

/-- Numbers are written without quotes and brackets. -/
theorem unquoted_text (n : Number) : Unquoted n.text :=
  fun c hc => isOrdinary_of_isMark (n.marked_text c hc)

/-! ### Values -/

mutual

/-- Written values are balanced. -/
theorem balanced_written : ∀ v : Value, Balanced v.written.toList
  | .null => Unquoted.balanced (by decide)
  | .bool true => Unquoted.balanced (by decide)
  | .bool false => Unquoted.balanced (by decide)
  | .number n => by
    rw [written]
    exact (unquoted_text n).balanced
  | .text s => by
    rw [written]
    exact balanced_quoted s
  | .list items => by
    rw [written, String.toList_append, String.toList_append]
    exact (Balanced.intercalate (Unquoted.balanced (by decide)) (balanced_writtenItems items)).bracket
      (o := '[') (c := ']') (by decide) (by decide)
  | .map fields => by
    rw [written, String.toList_append, String.toList_append]
    exact (Balanced.intercalate (Unquoted.balanced (by decide)) (balanced_writtenFields fields)).bracket
      (o := '\x7b') (c := '\x7d') (by decide) (by decide)
  | .tensor t => by
    rw [written]
    exact Unquoted.balanced ((by decide : Unquoted "array of ").append
      (unquoted_text (.int t.buffer.size)))

theorem balanced_writtenItems : ∀ items : List Value, ∀ p ∈ writtenItems items, Balanced p.toList
  | [] => by simp [writtenItems]
  | v :: vs => by
    rw [writtenItems, List.forall_mem_cons]
    exact ⟨balanced_written v, balanced_writtenItems vs⟩

theorem balanced_writtenFields :
    ∀ fields : List (String × Value), ∀ p ∈ writtenFields fields, Balanced p.toList
  | [] => by simp [writtenFields]
  | (key, v) :: fields => by
    rw [writtenFields, List.forall_mem_cons, String.toList_append, String.toList_append]
    exact ⟨((balanced_quoted key).append (Unquoted.balanced (by decide))).append (balanced_written v),
      balanced_writtenFields fields⟩

end

theorem balanced_writtenTuple (items : List Value) : Balanced (writtenTuple items).toList := by
  have hitems := balanced_writtenItems items
  unfold writtenTuple
  split
  · next item heq =>
    have hitem : Balanced (item ++ ",").toList := by
      rw [String.toList_append]
      exact (hitems item (by simp [heq])).append (Unquoted.balanced (by decide))
    have hlist : ("(" ++ item ++ ",)").toList = '(' :: ((item ++ ",").toList ++ [')']) := by
      simp
    rw [hlist]
    exact hitem.bracket (by decide) (by decide)
  · rw [String.toList_append, String.toList_append]
    exact (Balanced.intercalate (Unquoted.balanced (by decide)) hitems).bracket
      (o := '(') (c := ')') (by decide) (by decide)

/-- What may be absent is balanced if it is balanced when it is present. -/
theorem balanced_writtenOption {α : Type} {write : α → String} (h : ∀ a, Balanced (write a).toList)
    (o : Option α) : Balanced (writtenOption write o).toList := by
  cases o with
  | none => exact Unquoted.balanced (s := "None") (by decide)
  | some a => exact h a

end Value

/-! ### Feedback buffers -/

namespace Feedback

/-- The settings of a feedback buffer stand between brackets. -/
theorem exists_written_eq (f : Feedback) :
    ∃ w : String, f.written = "PingPongConfig(" ++ w ++ ")" ∧ Value.Balanced w.toList := by
  have hbool (b : Bool) := Value.balanced_written (.bool b)
  have hliteral : Value.Balanced "enabled=".toList ∧ Value.Balanced ", buffer_name=".toList ∧
      Value.Balanced ", init_value=".toList ∧ Value.Balanced ", persistent=".toList ∧
      Value.Balanced ", clear_each_frame=".toList := by
    refine ⟨?_, ?_, ?_, ?_, ?_⟩ <;> exact Value.Unquoted.balanced (by decide +kernel)
  obtain ⟨henabled, hname, hinitial, hpersistent, hclear⟩ := hliteral
  refine ⟨"enabled=" ++ (Value.bool f.enabled).written ++
    ", buffer_name=" ++ Value.writtenOption Text.quoted f.bufferName ++
    ", init_value=" ++ Value.writtenOption Value.writtenTuple f.initial ++
    ", persistent=" ++ Value.writtenOption (fun b => (Value.bool b).written) f.persistent ++
    ", clear_each_frame=" ++ Value.writtenOption (fun b => (Value.bool b).written) f.clearEachFrame,
    ?_, ?_⟩
  · have hhead : "PingPongConfig(enabled=" = "PingPongConfig(" ++ "enabled=" := by decide +kernel
    unfold written
    dsimp only
    rw [hhead]
    simp only [String.append_assoc]
  · simp only [String.toList_append]
    exact ((((((((henabled.append (hbool f.enabled)).append hname).append
      (Value.balanced_writtenOption Value.balanced_quoted f.bufferName)).append hinitial).append
      (Value.balanced_writtenOption Value.balanced_writtenTuple f.initial)).append hpersistent).append
      (Value.balanced_writtenOption hbool f.persistent)).append hclear).append
      (Value.balanced_writtenOption hbool f.clearEachFrame)

/-- The settings of a feedback buffer, if there is one, can be told from the text that follows. -/
theorem written_append_inj {f f' : Option Feedback} {s s' : List Char}
    (h : (Value.writtenOption written f).toList ++ s = (Value.writtenOption written f').toList ++ s') :
    Value.writtenOption written f = Value.writtenOption written f' ∧ s = s' := by
  have habsent (f : Feedback) (s s' : List Char) (h : f.written.toList ++ s = "None".toList ++ s') :
      False := by
    obtain ⟨w, hw, -⟩ := f.exists_written_eq
    rw [hw, String.append_assoc, String.toList_append, List.append_assoc] at h
    have hhead := congrArg List.head? h
    have hpresent : "PingPongConfig(".toList.head? = some 'P' := by decide +kernel
    have hnone : "None".toList.head? = some 'N' := rfl
    simp only [List.head?_append, hpresent, hnone, Option.some_or] at hhead
    exact absurd hhead (by decide)
  have hsame : ∀ f f' : Feedback, f.written.toList ++ s = f'.written.toList ++ s' → s = s' := by
    intro f f' h
    obtain ⟨w, hw, hbalanced⟩ := f.exists_written_eq
    obtain ⟨w', hw', hbalanced'⟩ := f'.exists_written_eq
    simp only [hw, hw', String.toList_append, List.append_assoc] at h
    have hclose := congrArg (Value.closing 0 .plain) (List.append_cancel_left h)
    have hbracket : ")".toList = [')'] := rfl
    rw [hbracket, List.singleton_append, List.singleton_append, hbalanced.closing_eq (by decide),
      hbalanced'.closing_eq (by decide)] at hclose
    exact Option.some.inj hclose
  have hs : s = s' := by
    cases f with
    | none =>
      cases f' with
      | none => exact List.append_cancel_left h
      | some f' => exact (habsent f' s' s h.symm).elim
    | some f =>
      cases f' with
      | none => exact (habsent f s s' h).elim
      | some f' => exact hsame f f' h
  subst hs
  exact ⟨String.toList_injective (List.append_cancel_right h), rfl⟩

end Feedback

end RenderGraph
