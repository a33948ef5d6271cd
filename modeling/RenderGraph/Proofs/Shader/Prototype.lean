import Mathlib.Data.List.ReduceOption
import RenderGraph.Proofs.Source.Spelling
import RenderGraph.Proofs.Value.Packing
import RenderGraph.Shader.Body

/-!
# Heads of entry functions are read back

The head that is written for some ports declares each of them as a parameter, inputs first. It can be read
back: names may even be those of types, since a type stands first in its parameter and the first one
counts; and whatever the size of an array is, all that is read of it stands between brackets. A head cannot
be written if the capacity of an array input cannot be found.

## Main definitions

* `Shader.IsPortName`: an identifier that is read as the name of a port
* `Shader.Declares`: the text of a parameter, and the port that is read in it

## Main results

* `Shader.overloads_prototype_iff`: a head that can be written is one overload with the same ports
* `Shader.prototype_huge_length`: a length that is too great
-/

namespace RenderGraph.Shader

open Source (IsName Overload Spells bracketsBeforeName inputsOf isOutputMark listed nameBeforeBrackets?
  overloads outputsOf parameter? portsOf)

/-- An identifier that is read as the name of a port: it is neither the coordinate nor a mark of outputs. -/
structure IsPortName (id : String) : Prop where
  isName : IsName id
  ne_coordinate : id ≠ "uv"
  unmarked : isOutputMark id = false

variable {id : String} {t : DataType} {p : Port}

/-! ### Words of parameters -/

/-- The mark of an output. -/
def markWords (isOutput : Bool) : List String :=
  if isOutput then ["out"] else []

/-- The words of a parameter are read as a port once its name and its type are found. -/
private theorem parameter?_of_found {words : List String} {t u : DataType} (hlength : 2 ≤ words.length)
    (hname : (nameBeforeBrackets? words).getD (words.getLastD "") = id) (hne : id ≠ "uv")
    (hfirst : words.findSome? DataType.ofName? = some t)
    (htype : (if ((nameBeforeBrackets? words).isSome || bracketsBeforeName words) && !t.isArray
      then t.arrayOf? else some t) = some u) :
    parameter? words = some (words.any isOutputMark, Port.ofId id u) := by
  unfold parameter?
  split
  · simp at hlength
  · simp at hlength
  · dsimp only
    rw [hname, hfirst, Option.bind_some, htype, if_neg (by simpa using hne), Option.map_some]

/-- The first word that names a type is that of the parameter, whatever its name and its size are. -/
private theorem findSome?_words (isOutput : Bool) (t : DataType) (back : List String) :
    (markWords isOutput ++ t.name :: back).findSome? DataType.ofName? = some t := by
  have hmark : DataType.ofName? "out" = none := by decide
  cases isOutput with
  | false =>
    rw [markWords, if_neg Bool.false_ne_true, List.nil_append, List.findSome?_cons, DataType.ofName?_name]
  | true =>
    rw [markWords, if_pos rfl, List.singleton_append, List.findSome?_cons, hmark, List.findSome?_cons,
      DataType.ofName?_name]

/-- Types are no marks. -/
private theorem any_isOutputMark_words (isOutput : Bool) (t : DataType) {back : List String}
    (h : back.any isOutputMark = false) :
    (markWords isOutput ++ t.name :: back).any isOutputMark = isOutput := by
  have htype : isOutputMark t.name = false := by
    rcases t with _ | _ | _ | _ | _ | _ | _ | _ | _ | _ | _ | _ | _ | _ | _ | e
    case array => cases e <;> decide
    all_goals decide
  rw [List.any_append, List.any_cons, htype, h]
  cases isOutput <;> rfl

/-- Brackets do not end a parameter that has none. -/
private theorem nameBeforeBrackets?_eq_none {words : List String} (h : "]" ∉ words) :
    nameBeforeBrackets? words = none := by
  unfold nameBeforeBrackets?
  split
  · next before heq => exact absurd (List.mem_reverse.1 (heq ▸ List.mem_cons_self)) h
  · rfl

private theorem bracketsBeforeName_eq_false {words : List String} (h : "[" ∉ words) :
    bracketsBeforeName words = false := by
  have hopen : words.findIdx? (· == "[") = none := by
    refine List.findIdx?_eq_none_iff.2 fun word hword => ?_
    exact beq_eq_false_iff_ne.2 (ne_of_mem_of_not_mem hword h)
  rw [bracketsBeforeName, hopen]

/-- The name of an array stands before its brackets, whatever stands between them. -/
private theorem nameBeforeBrackets?_sized {front size : List String} (h : "[" ∉ size) :
    nameBeforeBrackets? (front ++ id :: "[" :: size ++ ["]"]) = some id := by
  have hreverse : (front ++ id :: "[" :: size ++ ["]"]).reverse =
      "]" :: (size.reverse ++ "[" :: id :: front.reverse) := by
    simp
  have hskip : ∀ word ∈ size.reverse, (word != "[") = true := by
    intro word hword
    exact bne_iff_ne.2 (ne_of_mem_of_not_mem (List.mem_reverse.1 hword) h)
  unfold nameBeforeBrackets?
  rw [hreverse]
  split
  · next before heq =>
    obtain rfl := (List.cons.inj heq).2
    rw [List.dropWhile_append_of_pos hskip, List.dropWhile_cons_of_neg (by simp), List.drop_succ_cons,
      List.drop_zero, List.head?_cons]
  · next hne => exact absurd rfl (hne _)

/-- A parameter that is no array. -/
private theorem parameter?_plain (isOutput : Bool) (ht : t.isArray = false) (h : IsPortName id) :
    parameter? (markWords isOutput ++ [t.name, id]) = some (isOutput, Port.ofId id t) := by
  have hnames : ∀ word ∈ markWords isOutput ++ [t.name, id], IsName word := by
    have hmark : ∀ word ∈ markWords isOutput, IsName word := by
      cases isOutput <;> decide
    refine List.forall_mem_append.2 ⟨hmark, ?_⟩
    simpa using ⟨Source.isName_plainName ht, h.isName⟩
  have hopen : "[" ∉ markWords isOutput ++ [t.name, id] := fun hmem => absurd (hnames _ hmem) (by decide)
  have hclose : "]" ∉ markWords isOutput ++ [t.name, id] := fun hmem => absurd (hnames _ hmem) (by decide)
  have hback : [id].any isOutputMark = false := by simpa using h.unmarked
  rw [parameter?_of_found (by simp) ?_ h.ne_coordinate (findSome?_words isOutput t [id]) ?_,
    any_isOutputMark_words isOutput t hback]
  · rw [nameBeforeBrackets?_eq_none hclose]
    simp
  · rw [nameBeforeBrackets?_eq_none hclose, bracketsBeforeName_eq_false hopen]
    rfl

private theorem element_type (e : ArrayElement) :
    e.type.isArray = false ∧ e.type.arrayOf? = some (.array e) := by
  cases e <;> exact ⟨rfl, rfl⟩

private theorem exists_eq_array (h : t.isArray = true) : ∃ e, t = .array e := by
  cases t with
  | array e => exact ⟨e, rfl⟩
  | _ => cases h

/-- An array, with any number in its brackets. -/
private theorem parameter?_array (isOutput : Bool) (e : ArrayElement) (h : IsPortName id)
    {size : List String} (hsize : ∀ word ∈ size, Number.Marked word) :
    parameter? (markWords isOutput ++ e.type.name :: id :: "[" :: size ++ ["]"]) =
      some (isOutput, Port.ofId id (.array e)) := by
  have hopen : "[" ∉ size := fun hmem => absurd (hsize _ hmem) (by decide)
  have hname : nameBeforeBrackets? (markWords isOutput ++ e.type.name :: id :: "[" :: size ++ ["]"]) =
      some id := by
    have hsized : nameBeforeBrackets? ((markWords isOutput ++ [e.type.name]) ++ id :: "[" :: size ++ ["]"]) =
        some id :=
      nameBeforeBrackets?_sized hopen
    simpa using hsized
  have hback : (id :: "[" :: size ++ ["]"]).any isOutputMark = false := by
    have hmarks : size.any isOutputMark = false := by
      refine List.any_eq_false.2 fun word hword hmark => ?_
      have hcases : word = "out" ∨ word = "inout" := by simpa [isOutputMark] using hmark
      rcases hcases with rfl | rfl
      · exact absurd (hsize _ hword) (by decide)
      · exact absurd (hsize _ hword) (by decide)
    rw [List.any_append, List.any_cons, List.any_cons, h.unmarked, hmarks]
    decide
  rw [List.append_assoc, List.cons_append] at hname ⊢
  rw [parameter?_of_found (by simp; omega) ?_ h.ne_coordinate (findSome?_words isOutput e.type _) ?_,
    any_isOutputMark_words isOutput e.type hback]
  · rw [hname, Option.getD_some]
  · rw [hname, (element_type e).1, (element_type e).2]
    rfl

/-! ### Texts of parameters -/

/-- The port that is read for a declared one: it is shown by its id. -/
def bare (p : Port) : Port :=
  Port.ofId p.id p.type

/-- What parameters are told apart by. -/
def separators : List String :=
  ["(", ")", ","]

/-- The text is that of one parameter, and a port is read in it, or none. -/
def Declares (text : String) (port? : Option (Bool × Port)) : Prop :=
  ∃ words, Spells text.toList words ∧ parameter? words = port? ∧ ∀ word ∈ words, word ∉ separators

private theorem notMem_separators {word : String}
    (h : IsName word ∨ Number.Marked word ∨ word = "[" ∨ word = "]") : word ∉ separators := by
  have hnone : ∀ symbol ∈ separators, ¬ (IsName symbol ∨ Number.Marked symbol ∨ symbol = "[" ∨
      symbol = "]") := by
    decide
  exact fun hmem => hnone word hmem h

private theorem declares_coordinate : Declares "vec2 uv" none := by
  have htype : Spells "vec2".toList ["vec2"] := .name (by decide)
  have hname : Spells "uv".toList ["uv"] := .name (by decide)
  exact ⟨["vec2", "uv"], htype.append hname.blank (by rintro c ⟨⟩; decide), rfl, by decide⟩

/-- Words behind the mark of an output are that of a parameter. -/
private theorem declares_marked (isOutput : Bool) {text : String} {words : List String}
    {port? : Option (Bool × Port)} (h : Spells text.toList words)
    (hport : parameter? (markWords isOutput ++ words) = port?)
    (hwords : ∀ word ∈ words, IsName word ∨ Number.Marked word ∨ word = "[" ∨ word = "]") :
    Declares ((if isOutput then "out " else "") ++ text) port? := by
  refine ⟨_, ?_, hport, List.forall_mem_append.2 ⟨?_, fun word hword =>
    notMem_separators (hwords word hword)⟩⟩
  · cases isOutput with
    | false => simpa [markWords] using h
    | true =>
      have hmark : Spells "out".toList ["out"] := .name (by decide)
      have hblank : "out ".toList = "out".toList ++ [' '] := by decide
      rw [if_pos rfl, String.toList_append, hblank, List.append_assoc]
      exact hmark.append h.blank (by rintro c ⟨⟩; decide)
  · cases isOutput <;> decide

/-- The text of a parameter that is no array. -/
private theorem declares_plain (isOutput : Bool) (h : IsPortName id) (ht : t.isArray = false) :
    Declares ((if isOutput then "out " else "") ++ (t.name ++ " " ++ id))
      (some (isOutput, Port.ofId id t)) := by
  have htype := Source.isName_plainName ht
  refine declares_marked isOutput ?_ (parameter?_plain isOutput ht h)
    (List.forall_mem_cons.2 ⟨Or.inl htype, List.forall_mem_singleton.2 (Or.inl h.isName)⟩)
  rw [String.toList_append, String.toList_append, List.append_assoc]
  exact (Spells.name htype).append (Spells.name h.isName).blank (by rintro c ⟨⟩; decide)

/-- The text of a parameter that is an array. -/
private theorem declares_array (isOutput : Bool) (h : IsPortName id) (e : ArrayElement) {size : String}
    (hsize : Number.Marked size) :
    Declares ((if isOutput then "out " else "") ++ (e.type.name ++ " " ++ id ++ "[" ++ size ++ "]"))
      (some (isOutput, Port.ofId id (.array e))) := by
  obtain ⟨words, hspells, hmarked⟩ := Source.exists_spells_of_marked hsize
  have htype := Source.isName_plainName (element_type e).1
  have hsymbol : ∀ c ∈ ['[', ']'], Text.isIdentChar c = false := Text.forall_mem_of_all (by decide)
  refine declares_marked isOutput ?_ ((List.append_assoc ..).symm ▸ parameter?_array isOutput e h hmarked) ?_
  · have htext : (e.type.name ++ " " ++ id ++ "[" ++ size ++ "]").toList =
        e.type.name.toList ++ ' ' :: (id.toList ++ '[' :: (size.toList ++ [']'])) := by
      simp
    have hclose : Spells (size.toList ++ [']']) (words ++ ["]"]) :=
      hspells.append (Spells.nil.symbol (c := ']') (by decide)) (by rintro c ⟨⟩; decide)
    have hopen : Spells (id.toList ++ '[' :: (size.toList ++ [']'])) (id :: "[" :: (words ++ ["]"])) :=
      (Spells.name h.isName).append (hclose.symbol (c := '[') (by decide)) (by rintro c ⟨⟩; decide)
    rw [htext]
    exact (Spells.name htype).append hopen.blank (by rintro c ⟨⟩; decide)
  · refine List.forall_mem_cons.2 ⟨Or.inl htype, List.forall_mem_cons.2 ⟨Or.inl h.isName,
      List.forall_mem_cons.2 ⟨by decide, List.forall_mem_append.2 ⟨?_, by decide⟩⟩⟩⟩
    exact fun word hword => Or.inr (Or.inl (hmarked word hword))

/-- The text of an input. -/
private theorem declares_input {uniforms : Keyed BoundValue} {fallback : Number} {text : String}
    (h : IsPortName p.id) (htext : inputParameter uniforms fallback p = .ok text) :
    Declares text (some (false, bare p)) := by
  unfold inputParameter at htext
  split at htext
  · next ht =>
    obtain ⟨e, he⟩ := exists_eq_array ht
    obtain ⟨length, -, hlength⟩ := Fault.bind_eq_ok_iff.1 htext
    cases hlength
    have hdeclares := declares_array false h e (Number.marked_repr length)
    rw [if_neg Bool.false_ne_true, String.empty_append] at hdeclares
    rw [bare, he]
    exact hdeclares
  · next ht =>
    cases htext
    have hdeclares := declares_plain false h (Bool.eq_false_iff.2 ht)
    rwa [if_neg Bool.false_ne_true, String.empty_append] at hdeclares

/-- The text of an output. -/
private theorem declares_output (fallback : Number) (h : IsPortName p.id) :
    Declares (outputParameter fallback p) (some (true, bare p)) := by
  unfold outputParameter
  split
  · next ht =>
    obtain ⟨e, he⟩ := exists_eq_array ht
    have hdeclares := declares_array true h e fallback.marked_text
    rw [if_pos rfl] at hdeclares
    simp only [String.append_assoc] at hdeclares ⊢
    rw [bare, he]
    exact hdeclares
  · next ht =>
    have hdeclares := declares_plain true h (Bool.eq_false_iff.2 ht)
    rw [if_pos rfl] at hdeclares
    simp only [String.append_assoc] at hdeclares ⊢
    exact hdeclares

/-! ### Heads -/

/-- The parameters of a head are read as the ports that they declare. -/
theorem overloads_of_declares {texts : List String} {ports? : List (Option (Bool × Port))}
    (h : List.Forall₂ Declares texts ports?) (hne : texts ≠ []) :
    overloads ("void run(" ++ ", ".intercalate texts ++ ")") =
      .ok [{ inputs := inputsOf ports?.reduceOption, outputs := outputsOf ports?.reduceOption }] := by
  obtain ⟨groups, hspells, hread⟩ : ∃ groups,
      List.Forall₂ (fun text words => Spells text.toList words) texts groups ∧
        List.Forall₂ (fun words port? => parameter? words = port? ∧ ∀ word ∈ words, word ∉ separators)
          groups ports? := by
    clear hne
    induction h with
    | nil => exact ⟨[], .nil, .nil⟩
    | cons hfirst _ ih =>
      obtain ⟨words, hwords, hread⟩ := hfirst
      obtain ⟨groups, hspells, hreads⟩ := ih
      exact ⟨words :: groups, .cons hwords hspells, .cons hread hreads⟩
  have hgroups : groups ≠ [] := by
    rintro rfl
    cases hspells
    exact hne rfl
  have hports : portsOf groups = ports?.reduceOption := by
    have hmap : groups.map parameter? = ports? := by
      rw [← List.forall₂_eq_eq_eq, List.forall₂_map_left_iff]
      exact hread.imp fun _ _ h => h.1
    rw [portsOf, ← hmap, List.reduceOption, List.filterMap_map, Function.id_comp]
  have hwords : Spells ("void run(" ++ ", ".intercalate texts ++ ")").toList
      (["void", "run", "("] ++ [","].intercalate groups ++ [")"]) := by
    have htext : ("void run(" ++ ", ".intercalate texts ++ ")").toList =
        "void".toList ++ ' ' :: ("run".toList ++ '(' :: ((", ".intercalate texts).toList ++ [')'])) := by
      simp
    have hvoid : Spells "void".toList ["void"] := .name (by decide)
    have hrun : Spells "run".toList ["run"] := .name (by decide)
    have hclose := (Spells.intercalate hspells).append (Spells.nil.symbol (c := ')') (by decide))
      (by rintro c ⟨⟩; decide)
    have hopen := hrun.append (hclose.symbol (c := '(') (by decide)) (by rintro c ⟨⟩; decide)
    rw [htext]
    exact hvoid.append hopen.blank (by rintro c ⟨⟩; decide)
  rw [← hports]
  refine Source.overloads_of_spells hgroups hwords fun group hgroup => ?_
  obtain ⟨_, _, -, hnone⟩ := exists_of_forall₂ hread.flip hgroup
  have hseparator (symbol : String) (hsymbol : symbol ∈ separators) : symbol ∉ group :=
    fun hmem => hnone symbol hmem hsymbol
  exact ⟨hseparator _ (by decide), hseparator _ (by decide), hseparator _ (by decide)⟩

variable {inputs outputs : List Port} {uniforms : Keyed BoundValue} {fallback : Number}

/-- Whatever is written as a head is read as one overload, with the same ports. -/
theorem overloads_of_prototype {head : String} (hi : ∀ p ∈ inputs, IsPortName p.id)
    (ho : ∀ p ∈ outputs, IsPortName p.id)
    (h : prototype "run" inputs outputs uniforms fallback = .ok head) :
    overloads head = .ok [{ inputs := inputs.map bare, outputs := outputs.map bare }] := by
  obtain ⟨texts, htexts, h⟩ := Fault.bind_eq_ok_iff.1 h
  cases h
  have hinputs : List.Forall₂ Declares texts (inputs.map fun p => some (false, bare p)) := by
    rw [List.forall₂_map_right_iff]
    refine List.Forall₂.flip ?_
    have hall : Yields (inputs.mapM (inputParameter uniforms fallback))
        (List.Forall₂ (fun p text => Declares text (some (false, bare p))) inputs) fun _ => True :=
      Yields.mapM fun p hp => yields_iff.2 ⟨fun text htext => declares_input (hi p hp) htext,
        fun _ _ => trivial⟩
    rwa [htexts] at hall
  have houtputs : List.Forall₂ Declares (outputs.map (outputParameter fallback))
      (outputs.map fun p => some (true, bare p)) := by
    rw [List.forall₂_map_left_iff, List.forall₂_map_right_iff, List.forall₂_same]
    exact fun p hp => declares_output fallback (ho p hp)
  have hports : [none] ++ (inputs.map fun p => some (false, bare p)) ++
      (outputs.map fun p => some (true, bare p)) =
        none :: (listed (inputs.map bare) (outputs.map bare)).map some := by
    simp [listed, Function.comp_def]
  have hall : List.Forall₂ Declares (["vec2 uv"] ++ texts ++ outputs.map (outputParameter fallback))
      (none :: (listed (inputs.map bare) (outputs.map bare)).map some) := by
    rw [← hports]
    exact List.rel_append (List.rel_append (.cons declares_coordinate .nil) hinputs) houtputs
  have hread := overloads_of_declares hall (by simp)
  have hreduce (ports : List (Bool × Port)) : (none :: ports.map some).reduceOption = ports := by
    simp [List.reduceOption]
  have hstart : "void " ++ "run" ++ "(" = "void run(" := by decide
  rw [hreduce, Source.inputsOf_listed, Source.outputsOf_listed] at hread
  rwa [hstart]

/-- A head cannot be written if the capacity of an array among the inputs cannot be found. -/
theorem failsFor_prototype (name : String) (inputs outputs : List Port) (uniforms : Keyed BoundValue)
    (fallback : Number) :
    FailsFor (prototype name inputs outputs uniforms fallback) fun f =>
      ∃ p ∈ inputs, p.type.isArray = true ∧
        BoundValue.NoCapacity p.type (uniforms.get? p.id) fallback f := by
  have hinput (p : Port) : FailsFor (inputParameter uniforms fallback p) fun f =>
      p.type.isArray = true ∧ BoundValue.NoCapacity p.type (uniforms.get? p.id) fallback f := by
    unfold inputParameter
    by_cases ht : p.type.isArray = true
    · rw [if_pos ht]
      refine ((BoundValue.failsFor_capacity ..).bind (F := fun _ _ => False)
        fun length _ => .of_eq_ok rfl fun _ => id).congr fun f => ?_
      simp [ht]
    · rw [if_neg ht]
      exact .of_eq_ok rfl fun f h => ht h.1
  unfold prototype
  refine ((FailsFor.mapM fun p _ => hinput p).bind (F := fun _ _ => False)
    fun texts _ => .of_eq_ok rfl fun _ => id).congr fun f => ?_
  simp

/-- The head for some ports can be written if and only if the capacity of every array among the inputs can
be found, and then it is read as one overload, without a label and an order, with the same ports in the same
order. -/
theorem overloads_prototype_iff (hnames : ∀ p ∈ inputs ++ outputs, IsPortName p.id) :
    (∃ head, prototype "run" inputs outputs uniforms fallback = .ok head ∧
      overloads head = .ok [{ inputs := inputs.map bare, outputs := outputs.map bare, label := none,
                              order := none, index := 0 }]) ↔
      ∀ p ∈ inputs, p.type.isArray = true →
        ∀ f, ¬ BoundValue.NoCapacity p.type (uniforms.get? p.id) fallback f := by
  have hfails := failsFor_prototype "run" inputs outputs uniforms fallback
  rw [List.forall_mem_append] at hnames
  constructor
  · rintro ⟨head, hhead, -⟩ p hp ht f hf
    obtain ⟨f', hf'⟩ := hfails.exists_error ⟨f, p, hp, ht, hf⟩
    rw [hhead] at hf'
    cases hf'
  · intro hcapacity
    cases hhead : prototype "run" inputs outputs uniforms fallback with
    | error f =>
      obtain ⟨p, hp, ht, hf⟩ := failsIn_iff.1 hfails.fails f hhead
      exact absurd hf (hcapacity p hp ht f)
    | ok head => exact ⟨head, rfl, overloads_of_prototype hnames.1 hnames.2 hhead⟩

/-- Names of types name ports too, and arrays among them. -/
theorem overloads_prototype_type_names :
    (∀ p ∈ [Port.ofId "float" (.array .vec3), Port.ofId "mat4" .bool] ++ [Port.ofId "int" (.array .uint)],
      IsPortName p.id) ∧
    ∃ head, prototype "run" [Port.ofId "float" (.array .vec3), Port.ofId "mat4" .bool]
        [Port.ofId "int" (.array .uint)] .empty (.int 5) = .ok head ∧
      overloads head = .ok [{ inputs := [Port.ofId "float" (.array .vec3), Port.ofId "mat4" .bool],
                              outputs := [Port.ofId "int" (.array .uint)], label := none, order := none,
                              index := 0 }] := by
  have hnames : ∀ p ∈ [Port.ofId "float" (.array .vec3), Port.ofId "mat4" .bool] ++
      [Port.ofId "int" (.array .uint)], IsPortName p.id := by
    have hall : ∀ p ∈ [Port.ofId "float" (.array .vec3), Port.ofId "mat4" .bool] ++
        [Port.ofId "int" (.array .uint)], IsName p.id ∧ p.id ≠ "uv" ∧ isOutputMark p.id = false := by
      decide
    exact fun p hp => ⟨(hall p hp).1, (hall p hp).2.1, (hall p hp).2.2⟩
  refine ⟨hnames, (overloads_prototype_iff hnames).2 fun p _ _ f hf => ?_⟩
  rcases hf with ⟨⟨⟩⟩ | ⟨⟨⟩⟩

/-- A stated length that is too great for double precision: no head is written, and none is read. -/
theorem prototype_huge_length :
    IsPortName "a" ∧
    (prototype "run" [Port.ofId "a" (.array .float)] []
      (Keyed.ofList [("a", { type := .array .float,
                             settings := Keyed.ofList [("arrayLength", .number (.int (10 ^ 400)))] })])
      (.int 16)).bind overloads = .error .outOfRange :=
  ⟨⟨by decide, by decide, by decide⟩, by decide +kernel⟩

end RenderGraph.Shader
