import RenderGraph.Proofs.Numeric.Marks
import RenderGraph.Proofs.Outcome
import RenderGraph.Proofs.Shader.Heads

/-!
# Sizes of array parameters in commented bodies

The sizes of array parameters are set in the head of the first entry function. When comments stand aside and
outside of heads, this is the first head of the code without its comments as well. The head then holds no
comment, and what is set inside of it changes nothing around it.

## Main definitions

* `Shader.firstHead?`, `Shader.exchangeHead`: the first head of a text, and its exchange
* `Shader.sizeHead`: a head with the sizes of its array parameters set
* `Shader.Sizes`: an array parameter, and the same with a size

## Main results

* `Shader.setArraySizes_eq`: the sizes are set by an exchange of the first head
* `Shader.woven_exchangeHead`: the first head is exchanged alike with comments and without
* `Shader.yields_sizeHead`: sizes in a head change nothing around it
-/

namespace RenderGraph.Shader

open Source (IsIdent Woven Placed Resembles Declares SparesMetadata entryDeclaration)
open Text (AllBlank Exchanges Rewritten Meets isWord isWord? search)

variable {cs front behind : List Char}

/-! ### The first head of a text -/

/-- The head of the first entry function of a text, with the text before it and behind it, if its parentheses
are closed. -/
def firstHead? (cs : List Char) : Option (List Char × List Char × List Char) :=
  (search entryDeclaration none cs).bind fun (before, _, rest) =>
    (closeParentheses 1 rest).map fun (parameters, behind) =>
      (before, (cs.drop before.length).take (cs.length - before.length - rest.length) ++ parameters, behind)

/-- The text with the head of its first entry function exchanged. -/
def exchangeHead (f : List Char → Except Fault (List Char)) (cs : List Char) :
    Except Fault (List Char) :=
  match firstHead? cs with
  | none => .ok cs
  | some (before, head, behind) => (f head).map fun head => before ++ (head ++ behind)

/-- The head of an entry function with the sizes of its array parameters set. -/
def sizeHead (inputs : List Port) (uniforms : Keyed BoundValue) (fallback : Number) (head : List Char) :
    Except Fault (List Char) :=
  inputs.foldlM (fun head port =>
    if port.type.isArray then do
      let length ← portCapacity port uniforms fallback
      pure (setArraySize head port length)
    else pure head) head

theorem setArraySizes_eq (code : String) (inputs : List Port) (uniforms : Keyed BoundValue)
    (fallback : Number) : setArraySizes code inputs uniforms fallback =
      (exchangeHead (sizeHead inputs uniforms fallback) code.toList).map String.ofList := by
  unfold setArraySizes exchangeHead firstHead?
  dsimp only
  cases search entryDeclaration none code.toList with
  | none => exact congrArg Except.ok String.ofList_toList.symm
  | some r =>
    obtain ⟨before, ⟨⟩, rest⟩ := r
    rw [Option.bind_some]
    dsimp only
    cases closeParentheses 1 rest with
    | none => exact congrArg Except.ok String.ofList_toList.symm
    | some r =>
      obtain ⟨parameters, behind⟩ := r
      rw [Option.map_some]
      dsimp only
      change sizeHead inputs uniforms fallback _ >>=
        (fun head => pure (String.ofList (before ++ head ++ behind))) = _
      cases sizeHead inputs uniforms fallback _ with
      | error e => rfl
      | ok head => exact congrArg (fun cs => Except.ok (String.ofList cs)) (List.append_assoc ..)

private theorem phrased_entryDeclaration : Text.Phrased entryDeclaration (Declares "run") :=
  Source.phrased_voidDeclaration (by decide) (by decide)

/-- What stands between two parts of a text. -/
private theorem take_drop (before decl rest : List Char) :
    ((before ++ (decl ++ rest)).drop before.length).take
      ((before ++ (decl ++ rest)).length - before.length - rest.length) = decl := by
  rw [List.drop_left, List.length_append, Nat.add_sub_cancel_left, List.length_append, Nat.add_sub_cancel,
    List.take_left]

theorem firstHead?_eq_some {before decl parameters : List Char}
    (hs : search entryDeclaration none (before ++ (decl ++ (parameters ++ behind))) =
      some (before, (), parameters ++ behind))
    (hclose : closeParentheses 1 (parameters ++ behind) = some (parameters, behind)) :
    firstHead? (before ++ (decl ++ (parameters ++ behind))) = some (before, decl ++ parameters, behind) := by
  rw [firstHead?, hs, Option.bind_some]
  dsimp only
  rw [hclose, Option.map_some, take_drop]

/-- The first head is a declaration and the parameters behind it, and stands behind no word. -/
theorem exists_of_firstHead? {before head : List Char} (h : firstHead? cs = some (before, head, behind)) :
    cs = before ++ (head ++ behind) ∧ isWord? before.getLast? = false ∧
      ∃ decl parameters, head = decl ++ parameters ∧ Declares "run" decl ∧
        closeParentheses 1 (parameters ++ behind) = some (parameters, behind) := by
  obtain ⟨⟨before', ⟨⟩, rest⟩, hr, h⟩ := Option.bind_eq_some_iff.1 h
  obtain ⟨⟨parameters, behind'⟩, hclose, h⟩ := Option.map_eq_some_iff.1 h
  cases h
  obtain ⟨tail, rfl, hread⟩ := Text.exists_of_search hr
  rw [Option.or_none] at hread
  obtain ⟨hprev, decl, hdecl, rfl, -⟩ := phrased_entryDeclaration.read_iff.1 hread
  obtain ⟨rfl, -⟩ := closeParentheses_append hclose
  rw [take_drop]
  exact ⟨by simp, hprev, decl, parameters, rfl, hdecl, hclose⟩

theorem getLast?_of_firstHead? {before head : List Char} (h : firstHead? cs = some (before, head, behind)) :
    head.getLast? = some ')' := by
  obtain ⟨-, -, decl, parameters, rfl, -, hclose⟩ := exists_of_firstHead? h
  rw [List.getLast?_append, getLast?_of_closeParentheses hclose, Option.some_or]

theorem exchangeHead_of_eq_some (f : List Char → Except Fault (List Char)) {before head : List Char}
    (h : firstHead? cs = some (before, head, behind)) :
    exchangeHead f cs = (f head).map fun head' => before ++ (head' ++ behind) := by
  rw [exchangeHead, h]

/-- A head that is found in the first part of a text is found in the text. -/
theorem firstHead?_append_of_eq_some {code tail before head : List Char}
    (hcut : Text.Cut entryDeclaration code tail) (h : firstHead? code = some (before, head, behind)) :
    firstHead? (code ++ tail) = some (before, head, behind ++ tail) := by
  obtain ⟨⟨before', ⟨⟩, rest⟩, hr, h⟩ := Option.bind_eq_some_iff.1 h
  obtain ⟨⟨parameters, behind'⟩, hclose, h⟩ := Option.map_eq_some_iff.1 h
  cases h
  rw [firstHead?, hcut.search_append phrased_entryDeclaration, hr, Option.bind_some]
  dsimp only
  rw [(closeParentheses_append hclose).2 tail, Option.map_some]
  dsimp only
  obtain ⟨rest', rfl, hread⟩ := Text.exists_of_search hr
  rw [Option.or_none] at hread
  obtain ⟨-, phrase, -, rfl, -⟩ := phrased_entryDeclaration.read_iff.1 hread
  rw [List.append_assoc, List.append_assoc, take_drop, take_drop]

/-- Where no entry function is found in the first part of a text, the head is exchanged behind it. -/
theorem exchangeHead_append {code tail : List Char} (f : List Char → Except Fault (List Char))
    (h : search entryDeclaration none (code ++ tail) =
      (search entryDeclaration none tail).map fun r => (code ++ r.1, r.2)) :
    exchangeHead f (code ++ tail) = (exchangeHead f tail).map (code ++ ·) := by
  have hfirst : firstHead? (code ++ tail) = (firstHead? tail).map fun r => (code ++ r.1, r.2) := by
    rw [firstHead?, h, firstHead?]
    cases search entryDeclaration none tail with
    | none => rfl
    | some r =>
      obtain ⟨before, ⟨⟩, rest⟩ := r
      rw [Option.map_some, Option.bind_some, Option.bind_some, Option.map_map]
      dsimp only
      congr 1
      funext r
      simp only [Function.comp_apply, List.length_append, List.drop_length_add_append, Nat.add_sub_add_left]
  rw [exchangeHead, exchangeHead, hfirst]
  cases firstHead? tail with
  | none => rfl
  | some r =>
    obtain ⟨before, head, behind⟩ := r
    dsimp only [Option.map_some]
    cases f head with
    | error e => rfl
    | ok head' => exact congrArg Except.ok (List.append_assoc ..)

/-- Where all heads are closed, there is a first one if an entry function is declared. -/
theorem search_eq_none_of_firstHead? {names : List String} {clear : List Char} (hmem : "run" ∈ names)
    (hcloses : ClosesHeads names cs clear) (h : firstHead? cs = none) :
    search entryDeclaration none cs = none := by
  cases hr : search entryDeclaration none cs with
  | none => rfl
  | some r =>
    obtain ⟨before, ⟨⟩, rest⟩ := r
    rw [firstHead?, hr, Option.bind_some, Option.map_eq_none_iff] at h
    obtain ⟨tail, rfl, hread⟩ := Text.exists_of_search hr
    rw [Option.or_none] at hread
    obtain ⟨hbefore, decl, hdecl, rfl, -⟩ := phrased_entryDeclaration.read_iff.1 hread
    obtain ⟨parameters, behind, hclose, -⟩ := hcloses "run" hmem before decl rest rfl hbefore hdecl
    rw [hclose] at h
    cases h

/-- Heads end where they did when a head is exchanged for one that ends as well. -/
theorem ClosesHeads.exchanged {names : List String} {before head head' clear : List Char}
    (hnames : ∀ name ∈ names, IsIdent name) (hmem : "run" ∈ names)
    (hfirst : firstHead? cs = some (before, head, behind)) (hlast : head'.getLast? = some ')')
    (h : ClosesHeads names cs clear) : EndsHeads names (before ++ (head' ++ behind)) clear := by
  intro name hname a decl rest hcode ha hdecl
  obtain ⟨front, rfl⟩ := List.getLast?_eq_some_iff.1 hlast
  have hheadlast := getLast?_of_firstHead? hfirst
  obtain ⟨rfl, hbefore, decl₀, parameters₀, rfl, hdecl₀, hclose₀⟩ := exists_of_firstHead? hfirst
  have hbody : AllBlank behind → Text.firstMark clear ≠ some '\x7b' := by
    obtain ⟨parameters, behind', hclose, hbody⟩ :=
      h "run" hmem before decl₀ (parameters₀ ++ behind) (by simp) hbefore hdecl₀
    rw [hclose₀] at hclose
    cases hclose
    exact hbody
  have hnone : ')' ∉ decl := hdecl.notMem (hnames name hname) (by decide) (by decide) (by decide)
  have hsplit : (before ++ front) ++ ')' :: behind = (a ++ decl) ++ rest := by
    rw [List.append_assoc a, ← hcode]
    simp
  have hinside {z : List Char} (hrest : rest = z ++ ')' :: behind) : ∃ parameters behind',
      rest = parameters ++ ')' :: behind' ∧ ')' ∉ parameters ∧
        (AllBlank behind' → Text.firstMark clear ≠ some '\x7b') := by
    obtain ⟨p, b, hpb, hp, hb⟩ := exists_first_occurrence z ')' behind
    exact ⟨p, b, hrest.trans hpb, hp, fun hblank => hbody fun c hc => hblank c (hb.subset hc)⟩
  rcases List.append_eq_append_iff.1 hsplit with ⟨z, hz, hrest⟩ | ⟨z, -, hrest⟩
  · cases z with
    | nil => exact hinside (z := []) hrest.symm
    | cons c z =>
      -- The declaration stands behind the head.
      obtain ⟨rfl, hbehind⟩ := List.cons.inj hrest
      obtain ⟨w, rfl, rfl⟩ : ∃ w, a = before ++ front ++ ')' :: w ∧ z = w ++ decl := by
        rcases List.append_eq_append_iff.1 hz with ⟨w, -, rfl⟩ | ⟨w, rfl, hw⟩
        · exact absurd (by simp) hnone
        · cases w with
          | nil =>
            obtain rfl : ')' :: z = decl := hw
            exact absurd (by simp) hnone
          | cons c w =>
            obtain ⟨rfl, rfl⟩ := List.cons.inj hw
            exact ⟨w, rfl, rfl⟩
      rw [hbehind, List.append_assoc] at h
      refine h.endsHeads name hname (before ++ (decl₀ ++ parameters₀) ++ w) decl rest (by simp) ?_ hdecl
      cases hw : w.getLast? with
      | none =>
        obtain rfl := List.getLast?_eq_none_iff.1 hw
        rw [List.append_nil, List.getLast?_append, hheadlast]
        rfl
      | some d =>
        rw [List.getLast?_append, List.getLast?_cons, hw] at ha
        rwa [List.getLast?_append, hw]
  · exact hinside hrest

/-! ### Sizes in a head -/

/-- An array parameter, and the same with a size. -/
def Sizes (port : Port) (part new : List Char) : Prop :=
  ∃ gap gap' size : List Char, ∃ length : Nat, AllBlank gap ∧ AllBlank gap' ∧ size.getLast? = some ']' ∧
    part = port.type.element.name.toList ++ (gap ++ (port.id.toList ++ (gap' ++ '[' :: size))) ∧
    new = port.type.element.name.toList ++
      (gap ++ (port.id.toList ++ (gap' ++ '[' :: ((toString length).toList ++ [']']))))

section Sizes

variable {port : Port} (harray : port.type.isArray = true) (hid : '/' ∉ port.id.toList)

include harray in
/-- The name of an element type begins with a letter, but not with that of a directive. -/
private theorem exists_element_name : ∃ c cs, port.type.element.name.toList = c :: cs ∧ isWord c = true ∧
    c ≠ 'I' ∧ '/' ∉ c :: cs := by
  have hall : ∀ e : DataType, e.isArray = false → (e.name.toList.head?.any fun c => isWord c && c != 'I') =
      true ∧ '/' ∉ e.name.toList := by
    intro e he
    cases e with
    | array e => cases he
    | _ => decide +kernel
  have helement : port.type.element.isArray = false := by
    cases ht : port.type with
    | array e => cases e <;> rfl
    | _ => rw [ht] at harray; cases harray
  obtain ⟨hhead, hslash⟩ := hall _ helement
  cases hname : port.type.element.name.toList with
  | nil => rw [hname] at hhead; cases hhead
  | cons c cs =>
    rw [hname] at hhead hslash
    simp only [List.head?_cons, Option.any_some, Bool.and_eq_true, bne_iff_ne] at hhead
    exact ⟨c, cs, rfl, hhead.1, hhead.2, hslash⟩

theorem Sizes.getLast?_eq {part new : List Char} (h : Sizes port part new) :
    part.getLast? = some ']' ∧ new.getLast? = some ']' := by
  obtain ⟨gap, gap', size, length, -, -, hsize, rfl, rfl⟩ := h
  have hne : size ≠ [] := by
    rintro rfl
    cases hsize
  constructor
  · rw [List.getLast?_append_of_ne_nil _ (by simp), List.getLast?_append_of_ne_nil _ (by simp),
      List.getLast?_append_of_ne_nil _ (by simp), List.getLast?_append_of_ne_nil _ (by simp),
      List.getLast?_cons, hsize]
    rfl
  · rw [List.getLast?_append_of_ne_nil _ (by simp), List.getLast?_append_of_ne_nil _ (by simp),
      List.getLast?_append_of_ne_nil _ (by simp), List.getLast?_append_of_ne_nil _ (by simp),
      List.getLast?_cons, List.getLast?_concat]
    rfl

include harray hid in
theorem Sizes.exchanges {part new : List Char} (h : Sizes port part new) : Exchanges part new where
  head := by
    obtain ⟨c, cs, hname, hc, -, -⟩ := exists_element_name harray
    obtain ⟨gap, gap', size, length, -, -, -, rfl, -⟩ := h
    rw [hname]
    exact hc
  head_new := by
    obtain ⟨c, cs, hname, hc, -, -⟩ := exists_element_name harray
    obtain ⟨gap, gap', size, length, -, -, -, -, rfl⟩ := h
    rw [hname]
    exact hc
  last := by rw [h.getLast?_eq.1, h.getLast?_eq.2]
  ends c hc := by
    rw [h.getLast?_eq.1] at hc
    cases hc
    decide
  slash := by
    obtain ⟨c, cs, hname, -, -, hslash⟩ := exists_element_name harray
    obtain ⟨gap, gap', size, length, hgap, hgap', -, -, rfl⟩ := h
    have hdigits : '/' ∉ (toString length).toList := fun hmem =>
      absurd (Number.marked_repr length '/' hmem) (by decide)
    have hblank {gap : List Char} (h : AllBlank gap) : '/' ∉ gap := fun hmem =>
      absurd (h '/' hmem) (by decide)
    rw [← hname] at hslash
    simp only [List.mem_append, List.mem_cons, not_or]
    exact ⟨hslash, hblank hgap, hid, hblank hgap', by decide, hdigits, by decide, List.not_mem_nil⟩

include harray in
theorem Sizes.sparesMetadata : SparesMetadata (Sizes port) := by
  rintro part new s ⟨gap, gap', size, length, -, -, -, rfl, -⟩ - hopens
  obtain ⟨c, cs, hname, -, hne, -⟩ := exists_element_name harray
  rw [hname, List.cons_append, List.cons_append, List.cons_prefix_cons] at hopens
  exact hne hopens.1.symm

omit harray hid in
/-- What is read as an array parameter. -/
theorem exists_of_arrayParameter {type name : String} {prev : Option Char} {cs size rest : List Char}
    (h : arrayParameter type name prev cs = some (size, rest)) :
    isWord? prev = false ∧ ∃ gap gap' inner, AllBlank gap ∧ AllBlank gap' ∧ ']' ∉ inner ∧
      size = inner ++ [']'] ∧
      cs = type.toList ++ (gap ++ (name.toList ++ (gap' ++ '[' :: size))) ++ rest := by
  unfold arrayParameter Text.wordStart at h
  split at h
  · cases h
  · next hprev =>
    obtain ⟨_, rfl, h₁⟩ := Text.exists_of_word h
    obtain ⟨gap, _, hgap, rfl, h₂⟩ := Text.exists_of_blanks1 h₁
    obtain ⟨_, rfl, h₃⟩ := Text.exists_of_word h₂
    obtain ⟨gap', _, hgap', rfl, h₄⟩ := Text.exists_of_blanks0 h₃
    obtain ⟨inner, rfl, h₅⟩ := Text.exists_of_word h₄
    have hsplit : inner.takeWhile (· != ']') ++ inner.dropWhile (· != ']') = inner :=
      List.takeWhile_append_dropWhile
    have hhead := List.head?_dropWhile_not (· != ']') inner
    have hnone : ']' ∉ inner.takeWhile (· != ']') := fun hmem => by
      simpa using List.all_eq_true.1 List.all_takeWhile ']' hmem
    generalize inner.takeWhile (· != ']') = m at h₅ hsplit hnone
    cases hd : inner.dropWhile (· != ']') with
    | nil =>
      rw [hd] at h₅
      cases h₅
    | cons bracket behind =>
      rw [hd] at h₅ hsplit hhead
      cases h₅
      obtain rfl : bracket = ']' := by simpa using hhead
      refine ⟨Bool.eq_false_iff.2 hprev, gap, gap', m, hgap, hgap', hnone, rfl, ?_⟩
      rw [← hsplit]
      simp

/-- Setting the size of an array parameter rewrites a head. -/
theorem rewritten_setArraySize (head : List Char) (length : Nat) :
    Rewritten (Sizes port) none head (setArraySize head port length) := by
  refine Text.rewritten_replaceFrom (fun prev cs size rest hr => ?_) none head
  obtain ⟨hprev, gap, gap', inner, hgap, hgap', -, rfl, rfl⟩ := exists_of_arrayParameter hr
  have hlast : (inner ++ [']']).getLast? = some ']' := List.getLast?_concat
  have hsizes : Sizes port (port.type.element.name.toList ++ (gap ++ (port.id.toList ++
      (gap' ++ '[' :: (inner ++ [']'])))))
      (port.type.element.name.toList ++ (gap ++ (port.id.toList ++
        (gap' ++ '[' :: ((toString length).toList ++ [']']))))) :=
    ⟨gap, gap', _, length, hgap, hgap', hlast, rfl, rfl⟩
  refine ⟨hprev, _, by simp, rfl, ?_, ?_⟩
  · have hwhole : port.type.element.name.toList ++ (gap ++ (port.id.toList ++
        (gap' ++ '[' :: (inner ++ [']'])))) =
        port.type.element.name.toList ++ (gap ++ (port.id.toList ++ (gap' ++ ['[']))) ++
          (inner ++ [']']) := by
      simp
    convert hsizes using 1
    rw [hwhole, List.length_append, Nat.add_sub_cancel, List.take_left, String.toList_append]
    simp
  · rw [Meets, hsizes.getLast?_eq.1]
    rfl

end Sizes

/-! ### Heads in woven texts -/

section Woven

variable {f : List Char → Except Fault (List Char)}
  (hf : ∀ head, Yields (f head) (fun head' => ∀ before behind, isWord? before.getLast? = false →
    Resembles (before ++ (head ++ behind)) (before ++ (head' ++ behind))) fun _ => True)

include hf

/-- The text around an exchanged head is kept, and the parenthesis at its end. -/
private theorem resembles_head {before head head' behind : List Char}
    (h : firstHead? cs = some (before, head, behind)) (hhead : f head = .ok head') :
    Resembles cs (before ++ (head' ++ behind)) ∧ head'.getLast? = some ')' := by
  have hlast := getLast?_of_firstHead? h
  obtain ⟨rfl, hbefore, -⟩ := exists_of_firstHead? h
  have hresembles := hf head
  rw [hhead, yields_ok] at hresembles
  refine ⟨hresembles before behind hbefore, ?_⟩
  have halone := hresembles [] [] rfl
  rw [List.nil_append, List.nil_append, List.append_nil, List.append_nil] at halone
  rwa [halone.getLast?_eq_some_iff (by decide)]

theorem resembles_exchangeHead {cs' : List Char} (h : exchangeHead f cs = .ok cs') : Resembles cs cs' := by
  rw [exchangeHead] at h
  cases hfirst : firstHead? cs with
  | none =>
    rw [hfirst] at h
    cases h
    exact Resembles.refl cs
  | some r =>
    obtain ⟨before, head, behind⟩ := r
    rw [← exchangeHead, exchangeHead_of_eq_some f hfirst] at h
    obtain ⟨head', hhead, rfl⟩ := Fault.map_eq_ok_iff.1 h
    exact (resembles_head hf hfirst hhead).1

/-- The first head is the same in a commented text and without its comments, and it is exchanged there. -/
theorem woven_exchangeHead {names : List String} (hnames : ∀ name ∈ names, IsIdent name)
    (hmem : "run" ∈ names) {raw clear : List Char} (h : Woven (Placed (ClosesHeads names) names) raw clear) :
    Yields (exchangeHead f clear)
      (fun clear' => ∃ raw', exchangeHead f raw = .ok raw' ∧
        Woven (Placed (EndsHeads names) names) raw' clear')
      fun e => exchangeHead f raw = .error e := by
  induction h with
  | @plain code hk =>
    cases hcode : exchangeHead f code with
    | error e => exact rfl
    | ok code' => exact ⟨code', rfl, .plain ((resembles_exchangeHead hf hcode).uncommented hk)⟩
  | @remark code m raw clear hk hlast hm hplaced h ih =>
    obtain ⟨hcut, hnone⟩ : Source.Parted entryDeclaration code m raw clear ∧
        search entryDeclaration none m.chars = none :=
      hplaced.declares hmem (by decide) (by decide) hm h
    cases hfirst : firstHead? code with
    | some r =>
      obtain ⟨before, head, behind⟩ := r
      rw [exchangeHead_of_eq_some f (firstHead?_append_of_eq_some hcut.before hfirst),
        exchangeHead_of_eq_some f (firstHead?_append_of_eq_some hcut.kept hfirst), yields_map]
      cases hhead : f head with
      | error e => exact rfl
      | ok head' =>
        obtain ⟨hresembles, hparenthesis⟩ := resembles_head hf hfirst hhead
        have hassoc (tail : List Char) :
            before ++ (head' ++ (behind ++ tail)) = before ++ (head' ++ behind) ++ tail := by simp
        refine ⟨_, rfl, ?_⟩
        dsimp only
        rw [hassoc, hassoc]
        refine .remark (hresembles.uncommented hk) ?_ hm ?_ (h.mono fun code m clear hk => ?_)
        · rwa [Ne, hresembles.getLast?_eq_some_iff (by decide)]
        · exact hplaced.resembles hresembles (.refl clear)
            (hplaced.outside.exchanged hnames hmem hfirst hparenthesis)
        · exact hk.resembles (.refl code) (.refl clear) hk.outside.endsHeads
    | none =>
      have hcode (tail : List Char) (hcut : Text.Cut entryDeclaration code tail) :
          exchangeHead f (code ++ tail) = (exchangeHead f tail).map (code ++ ·) :=
        exchangeHead_append f (by
          rw [hcut.search_append phrased_entryDeclaration,
            search_eq_none_of_firstHead? hmem hplaced.outside hfirst])
      have hchars : exchangeHead f (m.chars ++ raw) = (exchangeHead f raw).map (m.chars ++ ·) :=
        exchangeHead_append f (by rw [hcut.behind.search_append phrased_entryDeclaration, hnone])
      have hgap : exchangeHead f (m.gap ++ clear) = (exchangeHead f clear).map (m.gap ++ ·) :=
        exchangeHead_append f
          (phrased_entryDeclaration.search_append_of_isWord m.allBlank_gap.isWord_eq_false clear)
      rw [hcode _ hcut.before, hcode _ hcut.kept, hchars, hgap, yields_map, yields_map]
      cases hclear : exchangeHead f clear with
      | error e =>
        rw [hclear, yields_error] at ih
        rw [ih]
        exact rfl
      | ok clear' =>
        rw [hclear, yields_ok] at ih
        obtain ⟨raw', hraw, h'⟩ := ih
        rw [hraw]
        refine ⟨_, rfl, .remark hk hlast (hm.of_head? (resembles_exchangeHead hf hraw).head) ?_ h'⟩
        have hresembles := resembles_exchangeHead hf hclear
        refine hplaced.resembles (.refl code) hresembles ?_
        intro name hname before decl rest hcode hbefore hdecl
        obtain ⟨parameters, behind, hrest, hparameters, hbody⟩ :=
          hplaced.outside.endsHeads name hname before decl rest hcode hbefore hdecl
        refine ⟨parameters, behind, hrest, hparameters, fun hblank => ?_⟩
        rw [Ne, hresembles.firstMark_eq_some_iff (by decide)]
        exact hbody hblank

end Woven

/-- Setting the sizes of array parameters in a head changes nothing around it. -/
theorem yields_sizeHead {inputs : List Port}
    (hid : ∀ port ∈ inputs, port.type.isArray = true → '/' ∉ port.id.toList)
    (uniforms : Keyed BoundValue) (fallback : Number) (head : List Char) :
    Yields (sizeHead inputs uniforms fallback head)
      (fun head' => ∀ before behind, isWord? before.getLast? = false →
        Resembles (before ++ (head ++ behind)) (before ++ (head' ++ behind))) fun _ => True := by
  refine Yields.foldlM (fun head' port hport hresembles => ?_) fun before behind _ => Resembles.refl _
  split
  · next harray =>
    rw [yields_bind, yields_iff]
    refine ⟨fun length _ before behind hbefore => (hresembles before behind hbefore).trans ?_,
      fun _ _ => trivial⟩
    have hsized : Rewritten (Sizes port) none (before ++ (head' ++ behind))
        (before ++ (setArraySize head' port length ++ behind)) :=
      (rewritten_setArraySize head' length).around hbefore
        (fun part new hpart => by rw [hpart.getLast?_eq.1]; rfl) behind
    have hW (part new : List Char) (hpart : Sizes port part new) : Exchanges part new :=
      hpart.exchanges harray (hid port hport harray)
    refine Source.resembles_of_rewritten hW (Sizes.sparesMetadata harray) hsized ?_
    exact Source.endsInWord_of_rewritten (fun part new hpart =>
      ⟨']', by decide, by decide, hpart.getLast?_eq.1, hpart.getLast?_eq.2⟩)
      (List.all_eq_true.1 (by decide)) (by decide) hsized
  · exact hresembles

end RenderGraph.Shader
