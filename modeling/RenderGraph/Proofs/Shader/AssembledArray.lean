import RenderGraph.Proofs.Shader.Calls
import RenderGraph.Proofs.Shader.Emission
import RenderGraph.Proofs.Text.Numerals

/-!
# Arrays assembled from elements

An array input that is fed element by element is assembled in a local array: it is declared with zeros, the
bound value is copied to it, and the edges to its elements are assigned in the order of their indices. The
lines that are written for it are read back here as what they do to the array. Since they are sorted stably,
and an index that is too great means the last element, the last assignment to an element is that of the last
edge with the greatest index that means it.

## Main definitions

* `Shader.readDeclaration?`, `Shader.readCopy?`, `Shader.readAssignment?`: lines as statements
* `Shader.runLines`: what some lines leave in a local array, as an expression for each element
* `Shader.Decides`: the edge that decides what an element holds
* `Shader.Brings`, `Shader.startText`: what an edge brings, and what is there without one

## Main results

* `Shader.getElem?_assignAll`: the last assignment to an element counts
* `Shader.filter_mergeSort`: sorting keeps the order of elements with the same index
* `Shader.assembleArray_spec`: what an assembled array holds
-/

namespace RenderGraph.Shader

/-! ### Lines as statements -/

/-- The length of a local array that a line declares with zeros. -/
def readDeclaration? (e : ArrayElement) (name line : String) : Option Nat := do
  let rest ← Text.after? ("  " ++ e.type.name ++ " " ++ name ++ "[").toList line.toList
  let (length, rest) ← Text.readNat? rest
  let zeros := call (e.type.name ++ "[" ++ toString length ++ "]")
    (", ".intercalate (List.replicate length (elementZero e)))
  if rest = ("] = " ++ zeros ++ ";").toList then some length else none

/-- The number of elements that a line copies to a local array, and the array that they come from. -/
def readCopy? (name line : String) : Option (Nat × String) := do
  let rest ← Text.after? "  for (int i = 0; i < ".toList line.toList
  let (length, rest) ← Text.readNat? rest
  let rest ← Text.after? ("; i++) \x7b " ++ name ++ "[i] = ").toList rest
  let source ← Text.before? "[i]; \x7d".toList rest
  some (length, String.ofList source)

/-- The element of a local array that a line assigns, and the value. -/
def readAssignment? (name line : String) : Option (Nat × String) := do
  let rest ← Text.after? ("  " ++ name ++ "[").toList line.toList
  let (index, rest) ← Text.readNat? rest
  let rest ← Text.after? "] = ".toList rest
  let value ← Text.before? ";".toList rest
  some (index, String.ofList value)

variable {ctx : CallContext} {n : Node} {port : Port} {e : ArrayElement}

/-- The declaration of an assembled array is read as its length. -/
theorem readDeclaration?_declaration (config : Config) (e : ArrayElement) (name : String) {length : Nat}
    (hl : 1 ≤ length) : readDeclaration? e name ("  " ++ e.type.name ++ " " ++ name ++ "[" ++
      toString length ++ "] = " ++ defaultLiteral config (.array e) (some length) ++ ";") =
        some length := by
  have hzeros : defaultLiteral config (.array e) (some length) =
      call (e.type.name ++ "[" ++ toString length ++ "]")
        (", ".intercalate (List.replicate length (elementZero e))) := by
    rw [defaultLiteral, defaultLiteralNamed, Option.getD_some, Nat.max_eq_right hl]
  have hopens (zeros : String) : ∀ c ∈ ("] = " ++ zeros ++ ";").toList.head?, c.isDigit = false := by
    rw [String.toList_append, String.toList_append]
    rintro _ ⟨⟩
    rfl
  have hline (zeros : String) : ("  " ++ e.type.name ++ " " ++ name ++ "[" ++ toString length ++
      "] = " ++ zeros ++ ";").toList = ("  " ++ e.type.name ++ " " ++ name ++ "[").toList ++
        ((toString length).toList ++ ("] = " ++ zeros ++ ";").toList) := by
    simp only [String.toList_append, List.append_assoc]
  rw [readDeclaration?, hline, Text.after?_eq_some_iff.2 rfl]
  simp only [Option.bind_eq_bind, Option.bind_some, Text.readNat?_toString length (hopens _), hzeros,
    if_true]

/-- The line that copies a bound value is read as its length and the uniform. -/
theorem readCopy?_copy (name : String) (length : Nat) (source : String) :
    readCopy? name ("  for (int i = 0; i < " ++ toString length ++ "; i++) \x7b " ++ name ++
      "[i] = " ++ source ++ "[i]; \x7d") = some (length, source) := by
  have hopens (rest : List Char) : ∀ c ∈ (("; i++) \x7b " ++ name ++ "[i] = ").toList ++ rest).head?,
      c.isDigit = false := by
    rw [String.toList_append, String.toList_append]
    rintro _ ⟨⟩
    rfl
  have hline : ("  for (int i = 0; i < " ++ toString length ++ "; i++) \x7b " ++ name ++
      "[i] = " ++ source ++ "[i]; \x7d").toList = "  for (int i = 0; i < ".toList ++
        ((toString length).toList ++ (("; i++) \x7b " ++ name ++ "[i] = ").toList ++
          (source.toList ++ "[i]; \x7d".toList))) := by
    simp only [String.toList_append, List.append_assoc]
  rw [readCopy?, hline, Text.after?_eq_some_iff.2 rfl]
  simp only [Option.bind_eq_bind, Option.bind_some, Text.readNat?_toString length (hopens _),
    Text.after?_eq_some_iff.2 rfl, Text.before?_append, String.ofList_toList]

/-- The line that assigns an element is read as its index and the value. -/
theorem readAssignment?_elementLine (name : String) (length index : Nat) (value : String) :
    readAssignment? name (elementLine name length index value) =
      some (min index (length - 1), value) := by
  have hopens (rest : List Char) : ∀ c ∈ ("] = ".toList ++ rest).head?, c.isDigit = false := by
    rintro _ ⟨⟩
    rfl
  have hline : (elementLine name length index value).toList = ("  " ++ name ++ "[").toList ++
      ((toString (min index (length - 1))).toList ++ ("] = ".toList ++
        (value.toList ++ ";".toList))) := by
    simp only [elementLine, String.toList_append, List.append_assoc]
  rw [readAssignment?, hline, Text.after?_eq_some_iff.2 rfl]
  simp only [Option.bind_eq_bind, Option.bind_some, Text.readNat?_toString _ (hopens _),
    Text.after?_eq_some_iff.2 rfl, Text.before?_append, String.ofList_toList]

/-- The line that assigns an element copies nothing. -/
theorem readCopy?_elementLine (length index : Nat) (value : String) :
    readCopy? (arrayName n port) (elementLine (arrayName n port) length index value) = none := by
  have hline : ∃ rest, (elementLine (arrayName n port) length index value).toList =
      ' ' :: ' ' :: 'a' :: rest := by
    rw [elementLine, arrayName]
    simp only [String.toList_append, List.append_assoc]
    exact ⟨_, rfl⟩
  obtain ⟨rest, hrest⟩ := hline
  rw [readCopy?, hrest]
  rfl

/-! ### What the lines do -/

/-- An array with a value assigned to one element, if it has that element. -/
def assign (slots : List String) (index : Nat) (value : String) : Option (List String) :=
  if index < slots.length then some (slots.set index value) else none

/-- An array with values assigned to its elements, one after the other. -/
def assignAll (slots : List String) (values : List (Nat × String)) : List String :=
  values.foldl (fun slots v => slots.set v.1 v.2) slots

/-- What a line leaves in a local array: a copy assigns one element after the other. -/
def runLine (name : String) (slots : List String) (line : String) : Option (List String) :=
  match readCopy? name line with
  | some (length, source) =>
    (List.range length).foldlM (fun slots i => assign slots i (source ++ "[" ++ toString i ++ "]"))
      slots
  | none => do
    let (index, value) ← readAssignment? name line
    assign slots index value

/-- What some lines leave in the local array that the first of them declares. -/
def runLines (e : ArrayElement) (name : String) : List String → Option (List String)
  | [] => none
  | declaration :: lines => do
    let length ← readDeclaration? e name declaration
    lines.foldlM (runLine name) (List.replicate length (elementZero e))

@[simp]
theorem length_assignAll (slots : List String) (values : List (Nat × String)) :
    (assignAll slots values).length = slots.length := by
  induction values generalizing slots with
  | nil => rfl
  | cons v values ih =>
    rw [assignAll, List.foldl_cons]
    exact (ih _).trans List.length_set

/-- The last assignment to an element counts. -/
theorem getElem?_assignAll {slots : List String} {k : Nat} (hk : k < slots.length)
    (values : List (Nat × String)) : (assignAll slots values)[k]? =
      ((values.filter (·.1 = k)).getLast?.map (·.2)).or slots[k]? := by
  induction values generalizing slots with
  | nil => rfl
  | cons v values ih =>
    have hrest : (assignAll (slots.set v.1 v.2) values)[k]? =
        ((values.filter (·.1 = k)).getLast?.map (·.2)).or (slots.set v.1 v.2)[k]? :=
      ih (by rwa [List.length_set])
    rw [assignAll, List.foldl_cons]
    refine hrest.trans ?_
    by_cases hv : v.1 = k
    · rw [List.filter_cons_of_pos (by simpa using hv), List.getLast?_cons, hv,
        List.getElem?_set_self hk]
      cases (values.filter (·.1 = k)).getLast? <;> rfl
    · rw [List.filter_cons_of_neg (by simpa using hv), List.getElem?_set_ne hv]

/-- After a loop over all elements, each holds what was assigned to it. -/
theorem getElem?_assignAll_range {slots : List String} {k : Nat} (hk : k < slots.length)
    (value : Nat → String) :
    (assignAll slots ((List.range slots.length).map fun i => (i, value i)))[k]? = some (value k) := by
  rw [getElem?_assignAll hk]
  cases hlast : (((List.range slots.length).map fun i => (i, value i)).filter (·.1 = k)).getLast? with
  | none =>
    have hmem : (k, value k) ∈
        ((List.range slots.length).map fun i => (i, value i)).filter (·.1 = k) :=
      List.mem_filter.2 ⟨List.mem_map.2 ⟨k, List.mem_range.2 hk, rfl⟩, by simp⟩
    rw [List.getLast?_eq_none_iff.1 hlast] at hmem
    cases hmem
  | some v =>
    obtain ⟨hv, hplace⟩ := List.mem_filter.1 (List.mem_of_getLast? hlast)
    obtain ⟨i, -, rfl⟩ := List.mem_map.1 hv
    obtain rfl : i = k := by simpa using hplace
    rfl

/-- Assignments to elements that exist succeed. -/
theorem foldlM_assign {α : Type} (place : α → Nat) (value : α → String) {items : List α}
    {slots : List String} (h : ∀ a ∈ items, place a < slots.length) :
    items.foldlM (fun slots a => assign slots (place a) (value a)) slots =
      some (assignAll slots (items.map fun a => (place a, value a))) := by
  induction items generalizing slots with
  | nil => rfl
  | cons a items ih =>
    have ha := h a List.mem_cons_self
    have hrest : ∀ b ∈ items, place b < (slots.set (place a) (value a)).length := by
      intro b hb
      rw [List.length_set]
      exact h b (List.mem_cons_of_mem _ hb)
    rw [List.foldlM_cons, assign, if_pos ha]
    exact ih hrest

/-! ### The edge that decides -/

/-- The elements of an array that edges lead to, in the order of their indices. -/
def byIndex (elements : List (Edge × Nat)) : List (Edge × Nat) :=
  elements.mergeSort fun a b => a.2 ≤ b.2

/-- Of some edges to elements of an array, in the order of the graph, the one that decides what an element
holds: the last one with its index, which is that of the element. For the last element, that is the
greatest index, and it may lie beyond the array. -/
def Decides (elements : List (Edge × Nat)) (length k : Nat) (x : Edge × Nat) : Prop :=
  (elements.filter (·.2 = x.2)).getLast? = some x ∧
    if k + 1 < length then x.2 = k else length - 1 ≤ x.2 ∧ ∀ y ∈ elements, y.2 ≤ x.2

variable {elements : List (Edge × Nat)} {length k : Nat} {x y : Edge × Nat}

theorem perm_byIndex (elements : List (Edge × Nat)) : (byIndex elements).Perm elements :=
  List.mergeSort_perm _ _

theorem pairwise_byIndex (elements : List (Edge × Nat)) :
    (byIndex elements).Pairwise fun a b => a.2 ≤ b.2 := by
  have hsorted : (byIndex elements).Pairwise fun a b => decide (a.2 ≤ b.2) = true :=
    List.pairwise_mergeSort (fun a b c => by simp only [decide_eq_true_eq]; omega)
      (fun a b => by simp only [Bool.or_eq_true, decide_eq_true_eq]; omega) elements
  exact hsorted.imp fun h => of_decide_eq_true h

/-- Edges with the same index stay in the order of the graph. -/
theorem filter_byIndex (elements : List (Edge × Nat)) (i : Nat) :
    (byIndex elements).filter (·.2 = i) = elements.filter (·.2 = i) := by
  have hequal : (elements.filter (·.2 = i)).Pairwise fun a b => decide (a.2 ≤ b.2) = true := by
    refine List.pairwise_iff_forall_sublist.2 fun {a b} hab => ?_
    have ha : a.2 = i := by simpa using (List.mem_filter.1 (hab.subset (by simp))).2
    have hb : b.2 = i := by simpa using (List.mem_filter.1 (hab.subset (by simp))).2
    simp [ha, hb]
  have hsub : (elements.filter (·.2 = i)).Sublist (byIndex elements) :=
    List.sublist_mergeSort (fun a b c => by simp only [decide_eq_true_eq]; omega)
      (fun a b => by simp only [Bool.or_eq_true, decide_eq_true_eq]; omega) hequal
      List.filter_sublist
  have hfilter := hsub.filter (·.2 = i)
  rw [List.filter_filter] at hfilter
  simp only [Bool.and_self] at hfilter
  exact (hfilter.eq_of_length ((perm_byIndex elements).filter _).length_eq.symm).symm

theorem mem_of_decides (h : Decides elements length k x) : x ∈ elements :=
  (List.mem_filter.1 (List.mem_of_getLast? h.1)).1

/-- The edge that decides leads to the element. -/
theorem min_of_decides (hk : k < length) (h : Decides elements length k x) :
    min x.2 (length - 1) = k := by
  have hplace := h.2
  split at hplace <;> omega

theorem Decides.unique (hx : Decides elements length k x) (hy : Decides elements length k y) :
    x = y := by
  have hindex : x.2 = y.2 := by
    have hplace := hx.2
    have hplace' := hy.2
    split at hplace
    · rw [if_pos ‹_›] at hplace'
      omega
    · rw [if_neg ‹_›] at hplace'
      exact Nat.le_antisymm (hplace'.2 x (mem_of_decides hx)) (hplace.2 y (mem_of_decides hy))
  have hlast := hx.1
  rw [hindex, hy.1] at hlast
  exact (Option.some.inj hlast).symm

/-- If a list ends in an item with a property, so do its items with that property. -/
theorem getLast?_filter {α : Type} {p : α → Bool} {l : List α} {a : α} (h : l.getLast? = some a)
    (ha : p a = true) : (l.filter p).getLast? = some a := by
  obtain ⟨front, rfl⟩ := List.getLast?_eq_some_iff.1 h
  rw [List.filter_append, List.filter_singleton, ha, Bool.cond_true, List.getLast?_concat]

/-- The last edge to an element in the order of the indices decides. -/
theorem decides_of_getLast? (hk : k < length)
    (h : ((byIndex elements).filter fun x => min x.2 (length - 1) = k).getLast? = some x) :
    Decides elements length k x := by
  have hx := (List.mem_filter.1 (List.mem_of_getLast? h)).2
  have hx : min x.2 (length - 1) = k := by simpa using hx
  refine ⟨?_, ?_⟩
  · -- The edges with its index are among those to the element.
    have hsame : ((byIndex elements).filter fun x => min x.2 (length - 1) = k).filter (·.2 = x.2) =
        (byIndex elements).filter (·.2 = x.2) := by
      rw [List.filter_filter]
      refine List.filter_congr fun y _ => ?_
      by_cases hy : y.2 = x.2
      · simp [hy, hx]
      · simp [hy]
    rw [← filter_byIndex, ← hsame]
    exact getLast?_filter h (by simp)
  · have hgreatest : ∀ y ∈ elements, min y.2 (length - 1) = k → y.2 ≤ x.2 := by
      intro y hy hplace
      obtain ⟨front, hfront⟩ := List.getLast?_eq_some_iff.1 h
      have hmem : y ∈ (byIndex elements).filter fun x => min x.2 (length - 1) = k :=
        List.mem_filter.2 ⟨(perm_byIndex elements).mem_iff.2 hy, by simpa using hplace⟩
      have hsorted := (pairwise_byIndex elements).filter fun x => min x.2 (length - 1) = k
      rw [hfront] at hmem hsorted
      rcases List.mem_append.1 hmem with hbefore | hlast
      · exact (List.pairwise_append.1 hsorted).2.2 y hbefore x List.mem_cons_self
      · exact Nat.le_of_eq (congrArg Prod.snd (List.mem_singleton.1 hlast))
    split
    · omega
    · refine ⟨by omega, fun y hy => ?_⟩
      rcases Nat.lt_or_ge y.2 (length - 1) with hlt | hge
      · omega
      · exact hgreatest y hy (by omega)

/-! ### Assembled arrays -/

/-- What an edge brings to an element of a type, if its source was called before, or else the default of
the type. -/
def Brings (ctx : CallContext) (t : DataType) (e : Edge) (text : String) : Prop :=
  if e.source ∈ ctx.emitted then edgeExpression? ctx e t = .ok (some text)
  else text = defaultLiteral ctx.scene.config t

/-- What an element of an assembled array holds before any edge is assigned: that element of the bound
value if it has the type of the input, or else zero. -/
def startText (n : Node) (port : Port) (e : ArrayElement) (k : Nat) : String :=
  if (n.uniforms.get? port.id).any (·.type = port.type) then
    n.uniformName port.id ++ "[" ++ toString k ++ "]"
  else elementZero e

/-- The warning that the source of an edge was not called before. -/
def unreachedWarning (n : Node) (e : Edge) : String :=
  "Array element " ++ e.targetPort.getD "" ++ " of " ++ n.id ++ " is not reachable in this pass"

/-- The edge leads to an element of an input. -/
def isElementOf (port : Port) (e : Edge) : Bool :=
  match e.arrayElement with
  | .ok (some (base, _)) => base = port.id
  | _ => false

/-- The edges to elements of an input are those of the graph, in its order. -/
theorem map_fst_elementEdges (h : elementEdges ctx n port = .ok elements) :
    elements.map Prod.fst = (ctx.scene.graph.incoming n.id).filter (isElementOf port) := by
  obtain ⟨found, hfound, h⟩ := Fault.bind_eq_ok_iff.1 h
  cases h
  clear h
  generalize ctx.scene.graph.incoming n.id = edges at hfound ⊢
  induction edges generalizing found with
  | nil =>
    cases hfound
    rfl
  | cons e edges ih =>
    rw [List.mapM_cons] at hfound
    obtain ⟨r, hr, hfound⟩ := Fault.bind_eq_ok_iff.1 hfound
    obtain ⟨rest, hrest, hfound⟩ := Fault.bind_eq_ok_iff.1 hfound
    cases hfound
    obtain ⟨handle, hhandle, hr⟩ := Fault.bind_eq_ok_iff.1 hr
    have htail := ih rest hrest
    rcases handle with _ | ⟨base, index⟩
    · cases hr
      rw [List.filter_cons_of_neg (by simp [isElementOf, hhandle])]
      exact htail
    · dsimp only at hr
      by_cases hbase : base = port.id
      · rw [if_pos hbase] at hr
        cases hr
        rw [List.filter_cons_of_pos (by simp [isElementOf, hhandle, hbase])]
        exact congrArg (e :: ·) htail
      · rw [if_neg hbase] at hr
        cases hr
        rw [List.filter_cons_of_neg (by simp [isElementOf, hhandle, hbase])]
        exact htail

/-- An edge with a known source brings something or not, and it does if its source was called before. -/
theorem yields_edgeExpression? (e : Edge) (t : DataType) :
    Yields (edgeExpression? ctx e t) (fun value => value.isSome ↔ e.source ∈ ctx.emitted)
      (fun f => ctx.scene.graph.requireNode e.source (some e.target) = .error f) := by
  unfold edgeExpression?
  cases hs : ctx.scene.graph.requireNode e.source (some e.target) with
  | error f => rfl
  | ok source =>
    have hid : source.id = e.source := by
      unfold Graph.requireNode at hs
      split at hs
      · next hn =>
        cases hs
        exact ctx.scene.graph.id_eq hn
      · cases hs
    show Yields (if source.id ∉ ctx.emitted then pure none else _) _ _
    rw [hid]
    by_cases he : e.source ∈ ctx.emitted
    · rw [if_neg (not_not.2 he)]
      split <;> simp [he]
    · rw [if_pos he]
      simp [he]

/-- An element is assigned what its edge brings, with a warning if the source of the edge was not called
before. -/
theorem ends_assignElement (length : Nat) (x : Edge × Nat) (s : CallState) :
    Ends (assignElement ctx n port length x)
      (fun _ s' => ∃ text, Brings ctx port.type.element x.1 text ∧
        s'.lines = s.lines ++ [elementLine (arrayName n port) length x.2 text] ∧
        s'.warnings = s.warnings ++
          ([x].filter (·.1.source ∉ ctx.emitted)).map (unreachedWarning n ·.1))
      (fun f _ => ctx.scene.graph.requireNode x.1.source (some x.1.target) = .error f) s := by
  unfold assignElement
  rw [ends_bind, ends_lift]
  refine yields_iff.2 ⟨fun value hvalue => ?_, (yields_iff.1 (yields_edgeExpression? _ _)).2⟩
  have hknown := (yields_iff.1 (yields_edgeExpression? x.1 port.type.element)).1 value hvalue
  cases value with
  | some text =>
    have hsource : x.1.source ∈ ctx.emitted := hknown.1 rfl
    refine ⟨text, ?_, rfl, ?_⟩
    · rwa [Brings, if_pos hsource]
    · show s.warnings = _
      simp [hsource]
  | none =>
    have hsource : x.1.source ∉ ctx.emitted := fun h => by simpa using hknown.2 h
    refine ⟨_, ?_, rfl, ?_⟩
    · rw [Brings, if_neg hsource]
    · show s.warnings ++ [unreachedWarning n x.1] = _
      simp [hsource]

/-- Elements are assigned one after the other. -/
theorem ends_assignElements (length : Nat) (items : List (Edge × Nat)) (s : CallState) :
    Ends (items.forM (assignElement ctx n port length))
      (fun _ s' => ∃ assigned : List ((Edge × Nat) × String), assigned.map Prod.fst = items ∧
        (∀ a ∈ assigned, Brings ctx port.type.element a.1.1 a.2) ∧
        s'.lines = s.lines ++
          assigned.map (fun a => elementLine (arrayName n port) length a.1.2 a.2) ∧
        s'.warnings = s.warnings ++
          (items.filter (·.1.source ∉ ctx.emitted)).map (unreachedWarning n ·.1))
      (fun f _ => ∃ x ∈ items, ctx.scene.graph.requireNode x.1.source (some x.1.target) = .error f)
      s := by
  induction items generalizing s with
  | nil => exact ⟨[], rfl, by simp, by simp, by simp⟩
  | cons x items ih =>
    show Ends (assignElement ctx n port length x >>= fun _ => items.forM _) _ _ s
    rw [ends_bind]
    refine (ends_assignElement length x s).mono ?_ fun f _ hf => ⟨x, List.mem_cons_self, hf⟩
    rintro _ t ⟨text, htext, hlines, hwarnings⟩
    refine (ih t).mono ?_ fun f _ ⟨y, hy, hf⟩ => ⟨y, List.mem_cons_of_mem _ hy, hf⟩
    rintro _ u ⟨assigned, hitems, hbrings, hlines', hwarnings'⟩
    refine ⟨(x, text) :: assigned, ?_, ?_, ?_, ?_⟩
    · rw [List.map_cons, hitems]
    · exact List.forall_mem_cons.2 ⟨htext, hbrings⟩
    · rw [hlines', hlines, List.append_assoc]
      rfl
    · rw [hwarnings', hwarnings, List.append_assoc, ← List.map_append, ← List.filter_append]
      rfl

/-- The lines that open an array assign no single element. -/
theorem readAssignment?_of_mem_opening {line : String} (ht : port.type = .array e)
    (h : line ∈ arrayOpening ctx n port length) :
    readAssignment? (arrayName n port) line = none := by
  have hstart : ∃ c rest, line.toList = ' ' :: ' ' :: c :: rest ∧ c ≠ 'a' := by
    rcases List.mem_append.1 h with h | h
    · rw [List.mem_singleton.1 h, ht]
      simp only [String.toList_append, List.append_assoc]
      cases e with
      | _ => exact ⟨_, _, rfl, by decide⟩
    · split at h
      · rw [List.mem_singleton.1 h]
        simp only [String.toList_append, List.append_assoc]
        exact ⟨_, _, rfl, by decide⟩
      · simp at h
  obtain ⟨c, rest, hrest, hc⟩ := hstart
  have hname : ("  " ++ arrayName n port ++ "[").toList =
      ' ' :: ' ' :: 'a' :: ("rr_" ++ n.cleanId ++ "_" ++ sanitize port.id ++ "[").toList := by
    simp only [arrayName, String.toList_append]
    rfl
  rw [readAssignment?, hrest, hname]
  simp [Text.after?, hc.symm]

/-- A copy of as many elements as the array has leaves those in it. -/
theorem exists_runLine_copy (name source : String) (slots : List String) :
    ∃ copied : List String, copied.length = slots.length ∧
      (∀ k < slots.length, copied[k]? = some (source ++ "[" ++ toString k ++ "]")) ∧
      runLine name slots ("  for (int i = 0; i < " ++ toString slots.length ++ "; i++) \x7b " ++ name ++
        "[i] = " ++ source ++ "[i]; \x7d") = some copied := by
  refine ⟨_, length_assignAll slots _, fun k hk => getElem?_assignAll_range hk _, ?_⟩
  rw [runLine, readCopy?_copy]
  exact foldlM_assign id _ fun i hi => List.mem_range.1 hi

/-- The lines that open an array leave in it what is there before any edge is assigned. -/
theorem exists_runLines_opening (ht : port.type = .array e) (hl : 1 ≤ length) (lines : List String) :
    ∃ start : List String, start.length = length ∧
      (∀ k < length, start[k]? = some (startText n port e k)) ∧
      runLines e (arrayName n port) (arrayOpening ctx n port length ++ lines) =
        lines.foldlM (runLine (arrayName n port)) start := by
  have helement : port.type.element = e.type := by rw [ht]; rfl
  have hdeclared := readDeclaration?_declaration ctx.scene.config e (arrayName n port) hl
  have hzeros : (List.replicate length (elementZero e)).length = length := List.length_replicate
  rw [arrayOpening, helement, ht]
  by_cases hbound : (n.uniforms.get? port.id).any (·.type = .array e) = true
  · obtain ⟨copied, hlength, hcopied, hrun⟩ := exists_runLine_copy (arrayName n port)
      (n.uniformName port.id) (List.replicate length (elementZero e))
    rw [hzeros] at hlength hcopied hrun
    refine ⟨copied, hlength, fun k hk => ?_, ?_⟩
    · rw [hcopied k hk, startText, ht, if_pos hbound]
    · rw [if_pos hbound, List.append_assoc, List.singleton_append, runLines, hdeclared,
        List.singleton_append, Option.bind_eq_bind, Option.bind_some, List.foldlM_cons, hrun]
      rfl
  · refine ⟨List.replicate length (elementZero e), hzeros, fun k hk => ?_, ?_⟩
    · rw [List.getElem?_replicate, if_pos hk, startText, ht, if_neg hbound]
    · rw [if_neg hbound, List.append_nil, List.singleton_append, runLines, hdeclared]
      rfl

/-- The assignments of elements are run as such. -/
theorem foldlM_runLine_elementLines (hl : 1 ≤ length) {slots : List String}
    (hslots : slots.length = length) (assigned : List ((Edge × Nat) × String)) :
    (assigned.map fun a => elementLine (arrayName n port) length a.1.2 a.2).foldlM
        (runLine (arrayName n port)) slots =
      some (assignAll slots (assigned.map fun a => (min a.1.2 (length - 1), a.2))) := by
  rw [List.foldlM_map]
  have hline (slots : List String) (a : (Edge × Nat) × String) :
      runLine (arrayName n port) slots (elementLine (arrayName n port) length a.1.2 a.2) =
        assign slots (min a.1.2 (length - 1)) a.2 := by
    rw [runLine, readCopy?_elementLine, readAssignment?_elementLine]
    rfl
  simp only [hline]
  exact foldlM_assign (fun a : (Edge × Nat) × String => min a.1.2 (length - 1)) (fun a => a.2)
    fun a _ => by omega

/-- What an array holds after the edges have been assigned in the order of their indices: what the edge
that decides brings, or else what was there before. -/
theorem getElem?_of_assigned (hk : k < length) {slots : List String} (hslots : slots.length = length)
    {assigned : List ((Edge × Nat) × String)} (ha : assigned.map Prod.fst = byIndex elements) :
    (∀ x, Decides elements length k x → ∃ text, (x, text) ∈ assigned ∧
      (assignAll slots (assigned.map fun a => (min a.1.2 (length - 1), a.2)))[k]? = some text) ∧
    ((∀ x, ¬ Decides elements length k x) →
      (assignAll slots (assigned.map fun a => (min a.1.2 (length - 1), a.2)))[k]? = slots[k]?) := by
  have hresult : (assignAll slots (assigned.map fun a => (min a.1.2 (length - 1), a.2)))[k]? =
      ((assigned.filter fun a => min a.1.2 (length - 1) = k).getLast?.map (·.2)).or slots[k]? := by
    rw [getElem?_assignAll (hslots ▸ hk), List.filter_map, List.getLast?_map, Option.map_map]
    rfl
  have hfilter : (assigned.filter fun a => min a.1.2 (length - 1) = k).map Prod.fst =
      (byIndex elements).filter fun x => min x.2 (length - 1) = k := by
    rw [← ha, List.filter_map]
    rfl
  cases hlast : (assigned.filter fun a => min a.1.2 (length - 1) = k).getLast? with
  | none =>
    have hnone : ∀ x, ¬ Decides elements length k x := by
      intro x hx
      have hmem : x ∈ (byIndex elements).filter fun x => min x.2 (length - 1) = k :=
        List.mem_filter.2 ⟨(perm_byIndex elements).mem_iff.2 (mem_of_decides hx),
          by simpa using min_of_decides hk hx⟩
      rw [← hfilter, List.getLast?_eq_none_iff.1 hlast] at hmem
      cases hmem
    refine ⟨fun x hx => absurd hx (hnone x), fun _ => ?_⟩
    rw [hresult, hlast]
    rfl
  | some a =>
    have hdecides : Decides elements length k a.1 := by
      refine decides_of_getLast? hk ?_
      rw [← hfilter, List.getLast?_map, hlast]
      rfl
    refine ⟨fun x hx => ⟨a.2, ?_, ?_⟩, fun hnone => absurd hdecides (hnone a.1)⟩
    · rw [hx.unique hdecides]
      exact (List.mem_filter.1 (List.mem_of_getLast? hlast)).1
    · rw [hresult, hlast]
      rfl

/-- An array input of a capacity is assembled from all edges to its elements. The lines that are written
for it assign no element beyond its capacity. Run one after the other, they leave in each element what the
edge that decides brings, and where there is no such edge, the element of the bound value or zero. There is
one warning for each edge whose source was not called before. It fails only on an edge from a node that does
not exist. -/
theorem assembleArray_spec {elements : List (Edge × Nat)} {length : Nat} (ht : port.type = .array e)
    (hl : BoundValue.capacity port.type (n.uniforms.get? port.id) ctx.scene.fallback = .ok length)
    (he : elementEdges ctx n port = .ok elements) (s : CallState) :
    (elements.map Prod.fst = (ctx.scene.graph.incoming n.id).filter (isElementOf port) ∧
      ∀ x ∈ elements, x.1.arrayElement = .ok (some (port.id, x.2))) ∧
    Ends (assembleArray ctx n port elements)
      (fun name s' => ∃ lines slots, s'.lines = s.lines ++ lines ∧
        (∀ line ∈ lines, ∀ index value, readAssignment? name line = some (index, value) →
          index < length) ∧
        runLines e name lines = some slots ∧ slots.length = length ∧
        (∀ k < length,
          (∀ x, Decides elements length k x → ∃ text, Brings ctx e.type x.1 text ∧
            slots[k]? = some text) ∧
          ((∀ x, ¬ Decides elements length k x) → slots[k]? = some (startText n port e k))) ∧
        ∃ unreached : List (Edge × Nat), unreached.Perm (elements.filter (·.1.source ∉ ctx.emitted)) ∧
          s'.warnings = s.warnings ++ unreached.map (unreachedWarning n ·.1))
      (fun f _ => ∃ x ∈ elements,
        ctx.scene.graph.requireNode x.1.source (some x.1.target) = .error f) s := by
  refine ⟨⟨map_fst_elementEdges he, fun x hx => (mem_of_elementEdges he hx).2⟩, ?_⟩
  have helement : port.type.element = e.type := by rw [ht]; rfl
  have hpos : 1 ≤ length := BoundValue.capacity_pos hl
  unfold assembleArray
  dsimp only
  rw [hl, ends_bind, ends_lift, yields_ok, ends_bind]
  refine (ends_writeLines (fun line => line) (arrayOpening ctx n port length) s).mono ?_
    fun _ _ => id
  rintro _ t ⟨hopening, hquiet⟩
  rw [List.map_id'] at hopening
  rw [ends_bind]
  refine (ends_assignElements length (byIndex elements) t).mono ?_ ?_
  · rintro _ u ⟨assigned, hassigned, hbrings, hlines, hwarnings⟩
    obtain ⟨start, hstart, htexts, hrun⟩ := exists_runLines_opening ht hpos
      (assigned.map fun a => elementLine (arrayName n port) length a.1.2 a.2)
    rw [foldlM_runLine_elementLines hpos hstart] at hrun
    refine ⟨arrayOpening ctx n port length ++
      assigned.map fun a => elementLine (arrayName n port) length a.1.2 a.2, _, ?_, ?_, hrun, ?_, ?_, ?_⟩
    · rw [hlines, hopening, List.append_assoc]
    · intro line hline index value hread
      rcases List.mem_append.1 hline with hline | hline
      · rw [readAssignment?_of_mem_opening ht hline] at hread
        cases hread
      · obtain ⟨a, -, rfl⟩ := List.mem_map.1 hline
        rw [readAssignment?_elementLine] at hread
        cases hread
        omega
    · rw [length_assignAll, hstart]
    · intro k hk
      obtain ⟨hdecided, hfree⟩ := getElem?_of_assigned hk hstart hassigned
      refine ⟨fun x hx => ?_, fun hnone => (hfree hnone).trans (htexts k hk)⟩
      obtain ⟨text, hmem, hslot⟩ := hdecided x hx
      exact ⟨text, helement ▸ hbrings _ hmem, hslot⟩
    · exact ⟨_, (perm_byIndex elements).filter _, by rw [hwarnings, hquiet]⟩
  · rintro f _ ⟨x, hx, hf⟩
    exact ⟨x, (perm_byIndex elements).mem_iff.1 hx, hf⟩

/-- A node that gives a number. -/
def constant (id : String) : Node :=
  { id, outputs := [.ofId "value" .float] }

/-- An array of four weights, with a value bound to it. -/
def weighted : Node where
  id := "w"
  inputs := [.ofId "x" (.array .float)]
  uniforms := .ofList [("x", { type := .array .float, value := .list (List.replicate 4 (.float .one)) })]

/-- An edge from a node to an element of the weights, by the digits of its handle. -/
def weight (source digits : String) : Edge :=
  { source, target := "w", sourcePort := some "value", targetPort := some ("x__" ++ digits) }

/-- Two edges to one element, the later one from a node that has not been called, and one beyond the
array. -/
def weightedCall : CallContext where
  scene :=
    { graph := .ofLists [constant "a", constant "b", constant "c", weighted]
        [weight "b" "9", weight "a" "2", weight "c" "02"]
      config := {} }
  emitted := ["a", "b"]

theorem assembleArray_spec_weighted :
    let elements : List (Edge × Nat) := [(weight "b" "9", 9), (weight "a" "2", 2), (weight "c" "02", 2)]
    let x : Port := .ofId "x" (.array .float)
    x.type = .array .float ∧
      BoundValue.capacity x.type (weighted.uniforms.get? x.id) weightedCall.scene.fallback = .ok 4 ∧
      elementEdges weightedCall weighted x = .ok elements ∧
      Ends (assembleArray weightedCall weighted x elements)
        (fun name s => ∃ slots, runLines .float name s.lines = some slots ∧
          slots[1]? = some "u_w_x[1]" ∧ slots[2]? = some "0.0" ∧ slots[3]? = some "out_b_value" ∧
          s.warnings.length = 1)
        (fun _ _ => False) {} := by
  intro elements x
  have hcapacity : BoundValue.capacity x.type (weighted.uniforms.get? x.id)
      weightedCall.scene.fallback = .ok 4 := by decide +kernel
  have helements : elementEdges weightedCall weighted x = .ok elements := by rfl
  refine ⟨rfl, hcapacity, helements, ?_⟩
  have hknown : ∀ y ∈ elements,
      (weightedCall.scene.graph.requireNode y.1.source (some y.1.target)).isOk = true := by
    decide +kernel
  have hbrought : edgeExpression? weightedCall (weight "b" "9") .float = .ok (some "out_b_value") := by
    decide +kernel
  refine (assembleArray_spec rfl hcapacity helements {}).2.mono ?_ ?_
  · rintro name s ⟨lines, slots, hlines, -, hrun, -, hslots, unreached, hperm, hwarnings⟩
    refine ⟨slots, by rw [hlines]; exact hrun, ?_, ?_, ?_, ?_⟩
    · refine (hslots 1 (by decide)).2 fun y hy => ?_
      have hindex : ∀ y ∈ elements, y.2 ≠ 1 := by decide
      exact hindex y (mem_of_decides hy) hy.2
    · obtain ⟨text, htext, hslot⟩ := (hslots 2 (by decide)).1 (weight "c" "02", 2) ⟨rfl, rfl⟩
      rw [hslot, show text = "0.0" from htext]
    · obtain ⟨text, htext, hslot⟩ := (hslots 3 (by decide)).1 (weight "b" "9", 9)
        ⟨rfl, by decide, by decide⟩
      have htext : edgeExpression? weightedCall (weight "b" "9") .float = .ok (some text) := htext
      rw [hbrought] at htext
      rw [hslot, ← Option.some.inj (Except.ok.inj htext)]
    · rw [hwarnings, List.length_append, List.length_map, hperm.length_eq]
      rfl
  · rintro f _ ⟨y, hy, hf⟩
    have hok := hknown y hy
    rw [hf] at hok
    cases hok

end RenderGraph.Shader
