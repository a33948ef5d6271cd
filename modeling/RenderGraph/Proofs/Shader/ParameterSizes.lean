import RenderGraph.Proofs.Shader.CommentedHeads
import RenderGraph.Proofs.Source.Spelling

/-!
# Array parameters that get a size

The size of an array parameter is set where the brackets stand behind its name. Where they stand behind the
type, as the overloads of a body allow as well, nothing is found and the parameter stands. No other parameter
of the head is changed, so the head is dealt with parameter by parameter.

## Main definitions

* `Shader.Announces`, `Shader.Written`: a parameter is an array port with the brackets behind the name
* `Shader.resized`: a parameter with a given size between its brackets
* `Shader.Fits`: a parameter, and what becomes of it

## Main results

* `Shader.setArraySize_of_written`, `Shader.setArraySize_of_not_written`: one port, one parameter
* `Shader.exists_sizeHead`: all array ports, and all parameters of a head
-/

namespace RenderGraph.Shader

open Source (IsIdent IsName)
open Text (AllBlank Cut Phrased ReadsAs isBlank isWord isWord? occurs replaceAll search)

/-! ### Brackets -/

/-- There is at most one pair of brackets in the text. -/
def Bracketed (cs : List Char) : Prop :=
  cs.filter (fun c => c = '[' || c = ']') ∈ [[], ['[', ']']]

instance (cs : List Char) : Decidable (Bracketed cs) :=
  inferInstanceAs (Decidable (_ ∈ _))

/-- The text has no brackets. -/
def Unbracketed (cs : List Char) : Prop :=
  '[' ∉ cs ∧ ']' ∉ cs

variable {cs front size back : List Char}

theorem filter_eq_nil_iff_unbracketed :
    cs.filter (fun c => c = '[' || c = ']') = [] ↔ Unbracketed cs := by
  simp only [List.filter_eq_nil_iff, Unbracketed, Bool.or_eq_true, decide_eq_true_eq, not_or]
  constructor
  · exact fun h => ⟨fun hmem => (h _ hmem).1 rfl, fun hmem => (h _ hmem).2 rfl⟩
  · exact fun h c hc => ⟨fun he => h.1 (he ▸ hc), fun he => h.2 (he ▸ hc)⟩

/-- Around one pair of brackets there are no others. -/
theorem Bracketed.unbracketed (h : Bracketed (front ++ '[' :: (size ++ ']' :: back))) :
    Unbracketed front ∧ Unbracketed size ∧ Unbracketed back := by
  rw [Bracketed, List.filter_append, List.filter_cons_of_pos (by decide), List.filter_append,
    List.filter_cons_of_pos (by decide), List.mem_pair] at h
  rcases h with h | h
  · simp at h
  · have hlength := congrArg List.length h
    simp only [List.length_append, List.length_cons, List.length_nil] at hlength
    refine ⟨?_, ?_, ?_⟩ <;>
    · rw [← filter_eq_nil_iff_unbracketed, ← List.length_eq_zero_iff]
      omega

/-- A bracket that opens is closed. -/
theorem Bracketed.mem_of_append (h : Bracketed (front ++ '[' :: back)) : ']' ∈ back := by
  rw [Bracketed, List.filter_append, List.filter_cons_of_pos (by decide), List.mem_pair] at h
  rcases h with h | h
  · simp at h
  · cases hfront : front.filter (fun c => c = '[' || c = ']') with
    | nil =>
      rw [hfront, List.nil_append, List.cons_inj_right] at h
      exact List.mem_of_mem_filter (h ▸ List.mem_singleton_self ']')
    | cons c cs =>
      rw [hfront] at h
      simp [List.append_eq_singleton_iff] at h

/-! ### Parameters with brackets behind the name -/

/-- The text declares an array port, up to the bracket that opens behind its name. -/
def Announces (port : Port) (cs : List Char) : Prop :=
  ∃ before gap gap', isWord? before.getLast? = false ∧ gap ≠ [] ∧ AllBlank gap ∧ AllBlank gap' ∧
    cs = before ++ (port.type.element.name.toList ++ (gap ++ (port.id.toList ++ gap')))

/-- The parameter declares an array port with the brackets behind the name. -/
def Written (port : Port) (cs : List Char) : Prop :=
  ∃ front size back, Announces port front ∧ cs = front ++ '[' :: (size ++ ']' :: back)

theorem Written.mem {port : Port} (h : Written port cs) : '[' ∈ cs := by
  obtain ⟨front, size, back, -, rfl⟩ := h
  exact List.mem_append_right front List.mem_cons_self

/-- The text with a length between its brackets. -/
def resized (length : Nat) (cs : List Char) : List Char :=
  cs.takeWhile (· != '[') ++ '[' :: ((toString length).toList ++ cs.dropWhile (· != ']'))

theorem resized_append (hfront : Unbracketed front) (hsize : ']' ∉ size) (length : Nat) :
    resized length (front ++ '[' :: (size ++ ']' :: back)) =
      front ++ '[' :: ((toString length).toList ++ ']' :: back) := by
  have hopen : ∀ c ∈ front, (c != '[') = true := fun c hc => bne_iff_ne.2 fun he => hfront.1 (he ▸ hc)
  have hclose : ∀ c ∈ front, (c != ']') = true := fun c hc => bne_iff_ne.2 fun he => hfront.2 (he ▸ hc)
  have hinner : ∀ c ∈ size, (c != ']') = true := fun c hc => bne_iff_ne.2 fun he => hsize (he ▸ hc)
  rw [resized, List.takeWhile_append_of_pos hopen, List.dropWhile_append_of_pos hclose,
    List.takeWhile_cons_of_neg (by decide), List.dropWhile_cons_of_pos (by decide),
    List.dropWhile_append_of_pos hinner, List.dropWhile_cons_of_neg (by decide), List.append_nil]

/-- The digits of a length are no brackets. -/
theorem unbracketed_toString (length : Nat) : Unbracketed (toString length).toList :=
  ⟨fun hmem => absurd (Number.marked_repr length '[' hmem) (by decide),
    fun hmem => absurd (Number.marked_repr length ']' hmem) (by decide)⟩

theorem bracketed_append (hfront : Unbracketed front) (hsize : Unbracketed size)
    (hback : Unbracketed back) : Bracketed (front ++ '[' :: (size ++ ']' :: back)) := by
  rw [Bracketed, List.filter_append, List.filter_cons_of_pos (by decide), List.filter_append,
    List.filter_cons_of_pos (by decide), filter_eq_nil_iff_unbracketed.2 hfront,
    filter_eq_nil_iff_unbracketed.2 hsize, filter_eq_nil_iff_unbracketed.2 hback]
  decide

/-- What stands before the brackets of a text says which ports it declares. -/
theorem written_append_iff {port : Port} (h : Bracketed (front ++ '[' :: (size ++ ']' :: back))) :
    Written port (front ++ '[' :: (size ++ ']' :: back)) ↔ Announces port front := by
  refine ⟨?_, fun hannounces => ⟨front, size, back, hannounces, rfl⟩⟩
  rintro ⟨front', size', back', hannounces, heq⟩
  have hpass {cs : List Char} (hcs : Unbracketed cs) : ∀ c ∈ cs, (c != '[') = true := fun c hc =>
    bne_iff_ne.2 fun he => hcs.1 (he ▸ hc)
  obtain ⟨rfl, -⟩ := Text.eq_of_append_eq_append (hpass h.unbracketed.1)
    (hpass (heq ▸ h).unbracketed.1) rfl rfl heq
  exact hannounces

/-- Another length leaves the text one with brackets, and what it declares. -/
theorem Written.resized {port : Port} (h : Written port cs) (hb : Bracketed cs) (length : Nat) :
    Bracketed (resized length cs) ∧ (∀ port', Written port' (resized length cs) ↔ Written port' cs) ∧
      ∀ length', Shader.resized length' (resized length cs) = Shader.resized length' cs := by
  obtain ⟨front, size, back, -, rfl⟩ := h
  obtain ⟨hfront, hsize, hback⟩ := hb.unbracketed
  have hlength := unbracketed_toString length
  have hb' := bracketed_append hfront hlength hback
  rw [resized_append hfront hsize.2]
  refine ⟨hb', fun port' => ?_, fun length' => ?_⟩
  · rw [written_append_iff hb', written_append_iff hb]
  · rw [resized_append hfront hlength.2, resized_append hfront hsize.2]

/-- The names of element types are names. -/
theorem isName_element {port : Port} (harray : port.type.isArray = true) :
    IsName port.type.element.name := by
  refine Source.isName_plainName ?_
  cases ht : port.type with
  | array e => cases e <;> rfl
  | _ => rw [ht] at harray; cases harray

/-- A text does not declare two array ports. -/
theorem Announces.unique {port port' : Port} (harray : port.type.isArray = true)
    (harray' : port'.type.isArray = true) (hid : IsName port.id) (hid' : IsName port'.id)
    (h : Announces port cs) (h' : Announces port' cs) : port.id = port'.id ∧ port.type = port'.type := by
  obtain ⟨before, gap, gap₀, hbefore, hne, hgap, hgap₀, rfl⟩ := h
  obtain ⟨before', gap', gap₀', hbefore', hne', hgap', hgap₀', heq⟩ := h'
  have hword {name : String} (h : IsName name) : ∀ c ∈ name.toList, isWord c = true := fun c hc =>
    Text.isWord_of_isIdentChar (h.ident c hc)
  have hlast {name : String} (h : IsName name) (s : List Char) :
      (s ++ name.toList).getLast?.any isBlank = false :=
    Text.any_getLast?_append h.ne_nil fun c hc => Text.isBlank_of_isWord (hword h c hc)
  simp only [← List.append_assoc] at heq
  obtain ⟨heq, -⟩ := Text.eq_of_append_eq_append_right hgap₀ hgap₀' (hlast hid _) (hlast hid' _) heq
  obtain ⟨heq, hids⟩ := Text.eq_of_append_eq_append_right (hword hid) (hword hid')
    (Text.any_getLast?_append hne hgap.isWord_eq_false) (Text.any_getLast?_append hne' hgap'.isWord_eq_false) heq
  obtain ⟨heq, -⟩ := Text.eq_of_append_eq_append_right hgap hgap' (hlast (isName_element harray) _)
    (hlast (isName_element harray') _) heq
  obtain ⟨-, htypes⟩ := Text.eq_of_append_eq_append_right (hword (isName_element harray))
    (hword (isName_element harray')) hbefore hbefore' heq
  refine ⟨String.toList_injective hids, ?_⟩
  have helement := String.toList_injective htypes
  cases ht : port.type with
  | array e =>
    cases ht' : port'.type with
    | array e' =>
      rw [ht, ht'] at helement
      cases e <;> cases e' <;> first | rfl | exact absurd helement (by decide)
    | _ => rw [ht'] at harray'; cases harray'
  | _ => rw [ht] at harray; cases harray

theorem Written.unique {port port' : Port} (h : Written port cs) (hb : Bracketed cs)
    (harray : port.type.isArray = true) (harray' : port'.type.isArray = true) (hid : IsName port.id)
    (hid' : IsName port'.id) (h' : Written port' cs) : port.id = port'.id ∧ port.type = port'.type := by
  obtain ⟨front, size, back, hannounces, rfl⟩ := h
  exact hannounces.unique harray harray' hid hid' ((written_append_iff hb).1 h')

/-! ### Setting one size -/

/-- An array parameter up to the bracket that closes its size. -/
def sizedParameter (type name : String) : Text.Pattern Unit :=
  Text.wordStart <| Text.word type <| Text.blanks1 <| Text.word name <| Text.blanks0 <|
    Text.word "[" fun rest => Text.word "]" (Text.done ()) (rest.dropWhile (· != ']'))

/-- Type, name and a size in brackets behind the name. -/
def Sized (type name : String) (cs : List Char) : Prop :=
  ∃ gap gap' size, gap ≠ [] ∧ AllBlank gap ∧ AllBlank gap' ∧ ']' ∉ size ∧
    cs = type.toList ++ (gap ++ (name.toList ++ (gap' ++ '[' :: (size ++ [']']))))

variable {type name : String}

theorem Sized.getLast?_eq (h : Sized type name cs) : cs.getLast? = some ']' := by
  obtain ⟨gap, gap', size, -, -, -, -, rfl⟩ := h
  have hassoc : type.toList ++ (gap ++ (name.toList ++ (gap' ++ '[' :: (size ++ [']'])))) =
      type.toList ++ (gap ++ (name.toList ++ (gap' ++ '[' :: size))) ++ [']'] := by
    simp
  rw [hassoc, List.getLast?_concat]

theorem sizedParameter_eq (prev : Option Char) (cs : List Char) :
    sizedParameter type name prev cs = (arrayParameter type name prev cs).map fun r => ((), r.2) := by
  unfold sizedParameter arrayParameter Text.wordStart
  split
  · rfl
  · refine Text.word_map (Text.blanks1_map (Text.word_map (Text.blanks0_map (Text.word_map
      (fun rest => ?_) "[")) name)) type cs
    have hhead := List.head?_dropWhile_not (· != ']') rest
    cases hd : rest.dropWhile (· != ']') with
    | nil => rfl
    | cons bracket behind =>
      rw [hd] at hhead
      obtain rfl : bracket = ']' := by simpa using hhead
      rfl

theorem phrased_sizedParameter (htype : IsName type) (hname : IsName name) :
    Phrased (sizedParameter type name) (Sized type name) := by
  have hopen : "[".toList = ['['] := rfl
  have hbracket : Text.StartsMarked fun phrase => ∃ z, (∃ m y, ']' ∉ m ∧ y = [] ∧ z = m ++ ']' :: y) ∧
      phrase = "[".toList ++ z := by
    rintro _ ⟨z, -, rfl⟩
    exact ⟨'[', z, rfl, by decide⟩
  have hmarked {P : List Char → Prop} :
      Text.StartsMarked fun phrase => ∃ z, P z ∧ phrase = name.toList ++ z := by
    rintro _ ⟨z, -, rfl⟩
    have hhead := Source.isWord?_head hname.ne_nil hname.ident z
    cases hcs : name.toList ++ z with
    | nil => rw [hcs] at hhead; cases hhead
    | cons c cs =>
      rw [hcs] at hhead
      exact ⟨c, cs, rfl, Text.isBlank_of_isWord hhead⟩
  have hreads := (((((ReadsAs.done.upTo ']').word "[").blanks0 hbracket).word name).blanks1 hmarked).word
    type
  refine ReadsAs.phrased (hreads.congr fun phrase => ?_) ?_ ?_
  · constructor
    · rintro ⟨_, ⟨gap, _, hne, hgap, ⟨_, ⟨gap', _, hgap', ⟨_, ⟨size, _, hsize, rfl, rfl⟩, rfl⟩, rfl⟩, rfl⟩, rfl⟩, rfl⟩
      exact ⟨gap, gap', size, hne, hgap, hgap', hsize, rfl⟩
    · rintro ⟨gap, gap', size, hne, hgap, hgap', hsize, rfl⟩
      exact ⟨_, ⟨gap, _, hne, hgap, ⟨_, ⟨gap', _, hgap', ⟨_, ⟨size, _, hsize, rfl, rfl⟩, rfl⟩, rfl⟩, rfl⟩, rfl⟩, rfl⟩
  · rintro _ ⟨gap, gap', size, -, -, -, -, rfl⟩
    exact Source.isWord?_head htype.ne_nil htype.ident _
  · intro phrase hphrase
    rw [hphrase.getLast?_eq]
    decide

/-- In front of the size of an array parameter there are only blanks and the characters of names. -/
theorem notMem_of_isName (htype : IsName type) (hname : IsName name) {gap gap' : List Char}
    (hgap : AllBlank gap) (hgap' : AllBlank gap') {c : Char} (hc : Text.isIdentChar c = false)
    (hb : isBlank c = false) : c ∉ type.toList ++ (gap ++ (name.toList ++ gap')) := by
  have hword {name : String} (h : IsName name) : c ∉ name.toList := fun hmem =>
    Bool.eq_false_iff.1 hc (h.ident c hmem)
  have hblank {gap : List Char} (h : AllBlank gap) : c ∉ gap := fun hmem =>
    Bool.eq_false_iff.1 hb (h c hmem)
  simp only [List.mem_append, not_or]
  exact ⟨hword htype, hblank hgap, hword hname, hblank hgap'⟩

theorem unbracketed_of_isName (htype : IsName type) (hname : IsName name) {gap gap' : List Char}
    (hgap : AllBlank gap) (hgap' : AllBlank gap') :
    Unbracketed (type.toList ++ (gap ++ (name.toList ++ gap'))) :=
  ⟨notMem_of_isName htype hname hgap hgap' (by decide) (by decide),
    notMem_of_isName htype hname hgap hgap' (by decide) (by decide)⟩

section Names

variable {port : Port} (harray : port.type.isArray = true) (hid : IsName port.id)

include harray hid

theorem setArraySize_eq (head : List Char) (length : Nat) : setArraySize head port length =
    replaceAll (sizedParameter port.type.element.name port.id) (fun _ => resized length) head := by
  refine Text.replaceFrom_congr (e := fun _ => ()) sizedParameter_eq (fun prev cs size rest hr => ?_) 0
    none head
  obtain ⟨-, gap, gap', inner, hgap, hgap', hinner, rfl, rfl⟩ := exists_of_arrayParameter hr
  have hfront := unbracketed_of_isName (isName_element harray) hid hgap hgap'
  have hassoc : port.type.element.name.toList ++
      (gap ++ (port.id.toList ++ (gap' ++ '[' :: (inner ++ [']'])))) =
        port.type.element.name.toList ++ (gap ++ (port.id.toList ++ gap')) ++ '[' :: (inner ++ [']']) := by
    simp
  rw [List.length_append, Nat.add_sub_cancel, List.take_left, hassoc, resized_append hfront hinner,
    List.append_cons, List.length_append, Nat.add_sub_cancel, List.take_left]
  simp

/-- Nothing is read in a text without brackets. -/
theorem search_sizedParameter_eq_none (prev : Option Char) (h : '[' ∉ cs) :
    search (sizedParameter port.type.element.name port.id) prev cs = none := by
  rw [Option.eq_none_iff_forall_ne_some]
  rintro ⟨before, ⟨⟩, rest⟩ hr
  obtain ⟨_, rfl, hread⟩ := Text.exists_of_search hr
  obtain ⟨-, phrase, ⟨gap, gap', size, -, -, -, -, rfl⟩, rfl, -⟩ :=
    (phrased_sizedParameter (isName_element harray) hid).read_iff.1 hread
  exact h (by simp)

/-- A size is read where the brackets stand behind the name. -/
theorem search_sizedParameter_iff :
    search (sizedParameter port.type.element.name port.id) none cs ≠ none ↔ Written port cs := by
  have hp := phrased_sizedParameter (isName_element harray) hid
  constructor
  · intro h
    obtain ⟨⟨before, ⟨⟩, rest⟩, hr⟩ := Option.ne_none_iff_exists'.1 h
    obtain ⟨_, rfl, hread⟩ := Text.exists_of_search hr
    rw [Option.or_none] at hread
    obtain ⟨hbefore, phrase, ⟨gap, gap', size, hne, hgap, hgap', -, rfl⟩, rfl, -⟩ := hp.read_iff.1 hread
    exact ⟨_, size, rest, ⟨before, gap, gap', hbefore, hne, hgap, hgap', rfl⟩, by simp⟩
  · rintro ⟨_, size, back, ⟨before, gap, gap', hbefore, hne, hgap, hgap', rfl⟩, rfl⟩
    obtain ⟨size', back', hsplit, hsize', -⟩ := exists_first_occurrence size ']' back
    have hsized : Sized port.type.element.name port.id _ := ⟨gap, gap', size', hne, hgap, hgap', hsize', rfl⟩
    have hread := hp.read_iff.2 ⟨hbefore, _, hsized, rfl, by
      rw [Text.Meets, hsized.getLast?_eq]
      exact Bool.false_and (isWord? back'.head?)⟩
    have hsome := Text.search_ne_none hread
    rw [hsplit]
    simpa using hsome

theorem setArraySize_of_not_written (length : Nat) (h : ¬ Written port cs) :
    setArraySize cs port length = cs := by
  rw [← search_sizedParameter_iff harray hid, not_ne_iff] at h
  rw [setArraySize_eq harray hid, replaceAll, Text.replaceFrom_of_search_eq_none _ h]

theorem setArraySize_of_written (length : Nat) (hb : Bracketed cs) (h : Written port cs) :
    setArraySize cs port length = resized length cs := by
  have hp := phrased_sizedParameter (isName_element harray) hid
  rw [← search_sizedParameter_iff harray hid, Option.ne_none_iff_exists'] at h
  obtain ⟨⟨before, ⟨⟩, rest⟩, hr⟩ := h
  obtain ⟨tail, rfl, hread, hreplace⟩ :=
    Text.replaceFrom_of_search (fun _ _ => id) (fun _ => resized length) hr
  rw [Option.or_none] at hread hreplace
  obtain ⟨-, phrase, hsized, rfl, -⟩ := hp.read_iff.1 hread
  have hne := hp.ne_nil hsized
  have hlast := hsized.getLast?_eq
  obtain ⟨gap, gap', size, -, hgap, hgap', hsize, rfl⟩ := hsized
  have hfront := unbracketed_of_isName (isName_element harray) hid hgap hgap'
  have hassoc : port.type.element.name.toList ++ (gap ++ (port.id.toList ++
      (gap' ++ '[' :: (size ++ [']'])))) =
        port.type.element.name.toList ++ (gap ++ (port.id.toList ++ gap')) ++ '[' :: (size ++ [']']) := by
    simp
  rw [hassoc] at hb hread hreplace hlast hne ⊢
  generalize port.type.element.name.toList ++ (gap ++ (port.id.toList ++ gap')) = front at *
  have hwhole : before ++ (front ++ '[' :: (size ++ [']']) ++ rest) =
      before ++ front ++ '[' :: (size ++ ']' :: rest) := by
    simp
  obtain ⟨hbefore, -, hrest⟩ := (hwhole ▸ hb).unbracketed
  rw [setArraySize_eq harray hid, replaceAll, hreplace, Text.replaceFrom_of_read _ hne hread, hlast,
    Text.replaceFrom_of_search_eq_none _ (search_sizedParameter_eq_none harray hid _ hrest.1), hwhole,
    resized_append hfront hsize, resized_append hbefore hsize]
  simp

/-- Around a mark that stands behind closed brackets, sizes are set apart. -/
theorem setArraySize_append_cons (length : Nat) {c : Char} (hword : isWord c = false)
    (hblank : isBlank c = false) (hopen : c ≠ '[') (hclose : c ≠ ']')
    (hb : ∀ a b, front = a ++ '[' :: b → ']' ∈ b) :
    setArraySize (front ++ c :: back) port length =
      setArraySize front port length ++ c :: setArraySize back port length := by
  have hp := phrased_sizedParameter (isName_element harray) hid
  have hmark : Cut (sizedParameter port.type.element.name port.id) front [c] := by
    refine hp.cut (by rw [Text.Meets, List.head?_cons, show isWord? (some c) = false from hword,
      Bool.and_false]) ?_
    rintro before x z - - - hz ⟨rest, hrest⟩ hsized
    cases z with
    | nil => exact hz rfl
    | cons d z =>
      obtain ⟨rfl, hnil⟩ := List.cons.inj hrest
      obtain ⟨rfl, -⟩ := List.append_eq_nil_iff.1 hnil
      have hlast := hsized.getLast?_eq
      rw [List.getLast?_concat, Option.some.injEq] at hlast
      exact hclose hlast
  have hbehind : Cut (sizedParameter port.type.element.name port.id) (front ++ [c]) back := by
    refine hp.cut (by rw [Text.Meets, List.getLast?_concat, show isWord? (some c) = false from hword,
      Bool.false_and]) ?_
    rintro before x z hfront - hx hz - ⟨gap, gap', size, -, hgap, hgap', hsize, heq⟩
    obtain ⟨x, d, rfl⟩ := (List.eq_nil_or_concat' x).resolve_left hx
    obtain ⟨z, e, rfl⟩ := (List.eq_nil_or_concat' z).resolve_left hz
    rw [← List.append_assoc] at hfront
    obtain ⟨rfl, hc⟩ := List.append_inj' hfront rfl
    obtain rfl : c = d := (List.cons.inj hc).1
    have hnone := notMem_of_isName (isName_element harray) hid hgap hgap'
      (Bool.eq_false_iff.2 fun hident => Bool.eq_false_iff.1 hword (Text.isWord_of_isIdentChar hident)) hblank
    simp only [← List.append_assoc] at heq hnone
    rw [List.append_assoc x, List.append_assoc x] at heq
    rcases Source.append_eq_append_cases heq.symm with ⟨a, rfl, hinner⟩ | ⟨d, b, hname, hd⟩
    · cases a with
      | nil => exact hopen (List.cons.inj hinner).1.symm
      | cons d a =>
        -- The size goes on behind the bracket that closes it.
        rw [List.cons_append] at hinner
        obtain ⟨rfl, hend⟩ := List.cons.inj hinner
        rw [← List.append_assoc, ← List.append_assoc] at hend
        obtain ⟨rfl, -⟩ := List.append_inj' hend rfl
        have hmem := hb _ a (List.append_assoc _ _ _).symm
        exact hsize (by simp [hmem])
    · rw [List.singleton_append, List.cons_append, List.cons_append] at hd
      obtain ⟨rfl, -⟩ := List.cons.inj hd
      exact hnone (by rw [hname]; simp)
  have hstands : replaceAll (sizedParameter port.type.element.name port.id) (fun _ => resized length)
      [c] = [c] :=
    Text.replaceFrom_of_search_eq_none _ (search_sizedParameter_eq_none harray hid none
      (by simpa using Ne.symm hopen))
  rw [setArraySize_eq harray hid, setArraySize_eq harray hid, setArraySize_eq harray hid, List.append_cons,
    hbehind.replaceAll_append hp, hmark.replaceAll_append hp, hstands, List.append_assoc,
    List.singleton_append]

theorem setArraySize_of_notMem (length : Nat) (h : '[' ∉ cs) : setArraySize cs port length = cs := by
  rw [setArraySize_eq harray hid, replaceAll,
    Text.replaceFrom_of_search_eq_none _ (search_sizedParameter_eq_none harray hid none h)]

/-- Between the commas of a list of parameters, sizes are set apart. -/
theorem setArraySize_intercalate (length : Nat) {texts : List (List Char)}
    (hb : ∀ t ∈ texts, Bracketed t) :
    setArraySize ([','].intercalate texts ++ [')']) port length =
      [','].intercalate (texts.map (setArraySize · port length)) ++ [')'] := by
  have hapart {t : List Char} (ht : Bracketed t) {c : Char} (hc : c = ',' ∨ c = ')') (back : List Char) :
      setArraySize (t ++ c :: back) port length =
        setArraySize t port length ++ c :: setArraySize back port length := by
    have hclosed (a b : List Char) (hab : t = a ++ '[' :: b) : ']' ∈ b := (hab ▸ ht).mem_of_append
    rcases hc with rfl | rfl <;>
    exact setArraySize_append_cons harray hid length (by decide) (by decide) (by decide) (by decide) hclosed
  have hnil : setArraySize [] port length = [] := setArraySize_of_notMem harray hid length List.not_mem_nil
  induction texts with
  | nil => exact setArraySize_of_notMem harray hid length (by decide)
  | cons t texts ih =>
    rw [List.forall_mem_cons] at hb
    cases texts with
    | nil => simpa [hnil] using hapart hb.1 (Or.inr rfl) []
    | cons second texts =>
      rw [List.intercalate_cons_cons, List.append_assoc, List.append_assoc, List.singleton_append,
        hapart hb.1 (Or.inl rfl), ih hb.2]
      simp only [List.map_cons, List.intercalate_cons_cons, List.append_assoc, List.cons_append,
        List.nil_append]

/-- In a head, sizes are set parameter by parameter. -/
theorem setArraySize_head (length : Nat) {texts : List (List Char)} (hfront : '[' ∉ front)
    (hb : ∀ t ∈ texts, Bracketed t) :
    setArraySize (front ++ '(' :: ([','].intercalate texts ++ [')'])) port length =
      front ++ '(' :: ([','].intercalate (texts.map (setArraySize · port length)) ++ [')']) := by
  have hclosed (a b : List Char) (hab : front = a ++ '[' :: b) : ']' ∈ b :=
    absurd (hab ▸ List.mem_append_right a List.mem_cons_self) hfront
  rw [setArraySize_append_cons harray hid length (by decide) (by decide) (by decide) (by decide) hclosed,
    setArraySize_of_notMem harray hid length hfront, setArraySize_intercalate harray hid length hb]

theorem bracketed_setArraySize (length : Nat) (hb : Bracketed cs) :
    Bracketed (setArraySize cs port length) := by
  by_cases h : Written port cs
  · rw [setArraySize_of_written harray hid length hb h]
    exact (h.resized hb length).1
  · rwa [setArraySize_of_not_written harray hid length h]

end Names

/-! ### Setting all sizes -/

/-- What becomes of a parameter: where it declares one of the array ports with the brackets behind the name,
the capacity of the port is its size, and otherwise it stands. -/
structure Fits (inputs : List Port) (uniforms : Keyed BoundValue) (fallback : Number)
    (t t' : List Char) : Prop where
  sized : ∀ port ∈ inputs, port.type.isArray = true → Written port t →
    ∃ length, portCapacity port uniforms fallback = .ok length ∧ t' = resized length t
  kept : (∀ port ∈ inputs, port.type.isArray = true → ¬ Written port t) → t' = t

section Fits

variable {inputs : List Port} {uniforms : Keyed BoundValue} {fallback : Number} {port : Port}
  {t t' : List Char} {length : Nat}

/-- A port that is no array changes nothing. -/
theorem Fits.cons_of_not_isArray (harray : port.type.isArray = false)
    (h : Fits inputs uniforms fallback t t') : Fits (port :: inputs) uniforms fallback t t' where
  sized := List.forall_mem_cons.2 ⟨fun harray' => absurd harray' (by simp [harray]), h.sized⟩
  kept hnone := h.kept fun port' hport' => hnone port' (List.mem_cons_of_mem _ hport')

/-- The size of one port is set first, and then those of the others. -/
theorem Fits.cons (harray : port.type.isArray = true) (hid : IsName port.id)
    (hids : ∀ port ∈ inputs, port.type.isArray = true → IsName port.id)
    (hcapacity : portCapacity port uniforms fallback = .ok length) (hb : Bracketed t)
    (h : Fits inputs uniforms fallback (setArraySize t port length) t') :
    Fits (port :: inputs) uniforms fallback t t' := by
  by_cases hw : Written port t
  · rw [setArraySize_of_written harray hid length hb hw] at h
    obtain ⟨-, hiff, hresized⟩ := hw.resized hb length
    -- All ports that the parameter declares have one capacity.
    have hall : ∀ port' ∈ inputs, port'.type.isArray = true → Written port' t →
        portCapacity port' uniforms fallback = .ok length := by
      intro port' hport' harray' hw'
      obtain ⟨hid', htype'⟩ := hw.unique hb harray harray' hid (hids port' hport' harray') hw'
      rw [← hcapacity, portCapacity, portCapacity, hid', htype']
    have ht' : t' = resized length t := by
      by_cases hother : ∃ port' ∈ inputs, port'.type.isArray = true ∧ Written port' t
      · obtain ⟨port', hport', harray', hw'⟩ := hother
        obtain ⟨length', hlength', heq⟩ := h.sized port' hport' harray' ((hiff port').2 hw')
        obtain rfl : length' = length := by
          simpa using hlength'.symm.trans (hall port' hport' harray' hw')
        rw [heq, hresized]
      · refine h.kept fun port' hport' harray' hw' => ?_
        exact hother ⟨port', hport', harray', (hiff port').1 hw'⟩
    refine ⟨List.forall_mem_cons.2 ⟨fun _ _ => ⟨length, hcapacity, ht'⟩, ?_⟩, fun hnone => ?_⟩
    · exact fun port' hport' harray' hw' => ⟨length, hall port' hport' harray' hw', ht'⟩
    · exact absurd hw (hnone port List.mem_cons_self harray)
  · rw [setArraySize_of_not_written harray hid length hw] at h
    refine ⟨List.forall_mem_cons.2 ⟨fun _ hw' => absurd hw' hw, h.sized⟩, fun hnone => ?_⟩
    exact h.kept fun port' hport' => hnone port' (List.mem_cons_of_mem _ hport')

/-- A size brings in no characters but brackets and digits. -/
theorem Fits.notMem {c : Char} (hmark : ¬ Number.IsMark c) (hopen : c ≠ '[')
    (h : Fits inputs uniforms fallback t t') (ht : c ∉ t) : c ∉ t' := by
  by_cases hw : ∃ port ∈ inputs, port.type.isArray = true ∧ Written port t
  · obtain ⟨port, hport, harray, hw⟩ := hw
    obtain ⟨length, -, rfl⟩ := h.sized port hport harray hw
    have hdigits : c ∉ (toString length).toList := fun hmem => hmark (Number.marked_repr length c hmem)
    simp only [resized, List.mem_append, List.mem_cons, not_or]
    exact ⟨fun hmem => ht ((List.takeWhile_prefix _).subset hmem), hopen, hdigits,
      fun hmem => ht ((List.dropWhile_suffix _).subset hmem)⟩
  · rw [h.kept fun port hport harray hw' => hw ⟨port, hport, harray, hw'⟩]
    exact ht

/-- In a head, every parameter gets the size of its port. -/
theorem exists_sizeHead (hids : ∀ port ∈ inputs, port.type.isArray = true → IsName port.id)
    (hcapacity : ∀ port ∈ inputs, port.type.isArray = true →
      ∃ length, portCapacity port uniforms fallback = .ok length)
    (hfront : '[' ∉ front) {texts : List (List Char)} (hb : ∀ t ∈ texts, Bracketed t) :
    ∃ texts', sizeHead inputs uniforms fallback (front ++ '(' :: ([','].intercalate texts ++ [')'])) =
        .ok (front ++ '(' :: ([','].intercalate texts' ++ [')'])) ∧
      List.Forall₂ (Fits inputs uniforms fallback) texts texts' := by
  induction inputs generalizing texts with
  | nil =>
    refine ⟨texts, rfl, List.forall₂_same.2 fun t _ => ⟨?_, fun _ => rfl⟩⟩
    exact fun port hport => absurd hport List.not_mem_nil
  | cons port inputs ih =>
    rw [List.forall_mem_cons] at hids hcapacity
    cases harray : port.type.isArray with
    | false =>
      obtain ⟨texts', hsize, hfits⟩ := ih hids.2 hcapacity.2 hb
      refine ⟨texts', ?_, hfits.imp fun t t' h => h.cons_of_not_isArray harray⟩
      rw [sizeHead, List.foldlM_cons, harray]
      exact hsize
    | true =>
      obtain ⟨length, hlength⟩ := hcapacity.1 harray
      have hid := hids.1 harray
      have hb' : ∀ t ∈ texts.map (setArraySize · port length), Bracketed t :=
        List.forall_mem_map.2 fun t ht => bracketed_setArraySize harray hid length (hb t ht)
      obtain ⟨texts', hsize, hfits⟩ := ih hids.2 hcapacity.2 hb'
      refine ⟨texts', ?_, ?_⟩
      · rw [sizeHead, List.foldlM_cons, harray, if_pos rfl, hlength]
        rw [← setArraySize_head harray hid length hfront hb] at hsize
        exact hsize
      · rw [List.forall₂_map_left_iff] at hfits
        refine ((List.forall₂_and_left _ _).2 ⟨hb, hfits⟩).imp fun t t' h => ?_
        exact .cons harray hid hids.2 hlength h.1 h.2

end Fits

end RenderGraph.Shader
