import RenderGraph.Proofs.Shader.CommentedEntry
import RenderGraph.Proofs.Shader.CommentedHeads
import RenderGraph.Proofs.Shader.Emission

/-!
# Preparing commented bodies

A body is prepared with its comments: names are renamed in comments as well, and what a comment declares may
be taken for a declaration of the body. But comments that stand aside, outside of the heads of the entry
function, and that do not declare it, do not matter: when the prepared body loses its comments, it is what the
body becomes that lost them before.

## Main definitions

* `Shader.Unobtrusive`: the comments of a body do not matter for a node

## Main results

* `Shader.prepareBody_stripComments`: a body may lose its comments before it is prepared or behind
-/

namespace RenderGraph.Shader

open Source (IsIdent Woven Placed Renamable Remark stripChars stripComments)

/-- The comments of a body stand aside and outside of the heads of the entry function and do not declare it,
no directive is renamed, and the array inputs of the node can be written without opening a comment. -/
structure Unobtrusive (node : Node) (code : String) : Prop where
  aside : ∀ c ∈ Source.comments code, c.Aside ["run", node.runName]
  outside : ∀ c ∈ Source.comments code, OutsideHeads ["run", node.runName] c
  unbroken : ∀ c ∈ Source.comments code, Source.Unbroken c.text
  item : "Item" ∉ Source.constants code
  ids : ∀ port ∈ node.inputs, port.type.isArray = true → '/' ∉ port.id.toList

instance (node : Node) (code : String) : Decidable (Unobtrusive node code) :=
  decidable_of_iff ((∀ c ∈ Source.comments code, c.Aside ["run", node.runName] ∧
      OutsideHeads ["run", node.runName] c ∧ Source.Unbroken c.text) ∧
      "Item" ∉ Source.constants code ∧
      ∀ port ∈ node.inputs, port.type.isArray = true → '/' ∉ port.id.toList)
    ⟨fun ⟨hcomments, item, ids⟩ => ⟨fun c hc => (hcomments c hc).1, fun c hc => (hcomments c hc).2.1,
      fun c hc => (hcomments c hc).2.2, item, ids⟩,
      fun h => ⟨fun c hc => ⟨h.aside c hc, h.outside c hc, h.unbroken c hc⟩, h.item, h.ids⟩⟩

variable {node : Node} {code : String} {fallback : Number}

/-- What stands before the names of a node is an identifier. -/
theorem isIdent_space (node : Node) : IsIdent ("node_" ++ node.cleanId) :=
  IsIdent.append (by decide) (isIdent_cleanId node)

theorem head?_space (node : Node) : ("node_" ++ node.cleanId).toList.head? = some 'n' := by
  rw [String.toList_append]
  rfl

theorem head?_runName (node : Node) : node.runName.toList.head? = some 'n' := by
  rw [Node.runName, String.toList_append, List.head?_append, head?_space, Option.some_or]

/-- A body with unobtrusive comments is woven of code and of comments that stand in order. -/
theorem Unobtrusive.woven (h : Unobtrusive node code) :
    Woven (Renamable (ClosesHeads ["run", node.runName]) ("node_" ++ node.cleanId)) code.toList
      (stripChars code.toList) := by
  have hwoven := Source.woven_of_comments (P := fun c => c.Aside ["run", node.runName] ∧
      OutsideHeads ["run", node.runName] c ∧ Source.Unbroken c.text)
    (fun c hc => (Source.joins_eq_false_iff.1 hc.1.apart).1)
    fun c hc => ⟨h.aside c hc, h.outside c hc, h.unbroken c hc⟩
  refine hwoven.mono fun code m clear hplaced => ?_
  obtain ⟨before, hmeets, haside, houtside, hunbroken⟩ := hplaced
  have hcloses := houtside.closesHeads (fun _ => Source.isIdent_entry (isIdent_space node)) hmeets
  exact ⟨haside.placed hmeets hcloses, hunbroken⟩

/-- The names of an index variable are made of the id of an array input and of characters of names. -/
theorem notMem_of_mem_indexLocals {c : Char} (hc : Text.isIdentChar c = false)
    (hid : ∀ port ∈ node.inputs, port.type.isArray = true → c ∉ port.id.toList) {locals : List IndexLocal}
    (h : indexLocals node fallback = .ok locals) {l : IndexLocal} (hl : l ∈ locals) :
    c ∉ l.name.toList ∧ c ∉ l.uniform.toList := by
  obtain ⟨port, hport, hname, huniform⟩ := exists_of_mem_mapM (R := fun port l =>
      l.name = port.id ++ "_index" ∧ l.uniform = node.uniformName port.id ++ "_index")
    (fun port _ l hl => by
      obtain ⟨length, -, hl⟩ := Fault.bind_eq_ok_iff.1 hl
      cases hl
      exact ⟨rfl, rfl⟩) h hl
  obtain ⟨hmem, harray⟩ := List.mem_filter.1 hport
  have hport := hid port hmem harray
  have hident {name : String} (h : IsIdent name) : c ∉ name.toList := fun hmem =>
    Bool.eq_false_iff.1 hc (h c hmem)
  rw [hname, huniform]
  simp only [Node.uniformName, String.toList_append, List.mem_append, not_or]
  exact ⟨⟨hport, hident (by decide)⟩, ⟨⟨⟨hident (by decide), hident (isIdent_cleanId node)⟩,
    hident (by decide)⟩, hport⟩, hident (by decide)⟩

/-- The lines that declare index variables open no comment. -/
theorem notMem_line_of_indexLocals {locals : List IndexLocal}
    (hid : ∀ port ∈ node.inputs, port.type.isArray = true → '/' ∉ port.id.toList)
    (h : indexLocals node fallback = .ok locals) : ∀ l ∈ locals, '/' ∉ l.line.toList := by
  intro l hl
  obtain ⟨hname, huniform⟩ := notMem_of_mem_indexLocals (by decide) hid h hl
  have hdigits : '/' ∉ (toString l.greatest).toList := fun hmem =>
    absurd (Number.marked_repr l.greatest '/' hmem) (by decide)
  simp only [IndexLocal.line, String.toList_append, List.mem_append, not_or]
  exact ⟨⟨⟨⟨⟨⟨by decide, hname⟩, by decide⟩, huniform⟩, by decide⟩, hdigits⟩, by decide⟩

/-- A body may lose its comments before it is prepared or behind, if they are unobtrusive. -/
theorem prepareBody_stripComments (h : Unobtrusive node code) (fallback : Number) :
    (prepareBody node code fallback).map stripComments = prepareBody node (stripComments code) fallback := by
  have hspace := isIdent_space node
  have hhead := head?_space node
  have hname : node.runName.toList ≠ [] ∧ IsIdent node.runName :=
    Source.isIdent_entry hspace (by rw [Node.runName]; simp)
  have hnames : ∀ name ∈ ["run", node.runName], IsIdent name := fun name hmem =>
    (Source.isIdent_entry hspace hmem).2
  have hwoven := h.woven
  rw [← String.toList_ofList (l := stripChars code.toList), ← stripComments] at hwoven
  obtain ⟨source₁, kept₁, hsource₁, hkept₁, hwoven₁⟩ := Woven.renameLocals hspace hhead
    (fun hcode hclear hcloses => hcloses.renamed hspace hhead hcode hclear) h.item hwoven
  have hsized := woven_exchangeHead (yields_sizeHead h.ids node.uniforms fallback) hnames (by simp)
    (hwoven₁.mono fun _ _ _ hplaced => hplaced.1)
  rw [prepareBody, prepareBody, hsource₁, hkept₁]
  change Except.map _ (setArraySizes source₁ node.inputs node.uniforms fallback >>= _) =
    setArraySizes kept₁ node.inputs node.uniforms fallback >>= _
  rw [setArraySizes_eq, setArraySizes_eq]
  cases hclear₂ : exchangeHead (sizeHead node.inputs node.uniforms fallback) kept₁.toList with
  | error e =>
    rw [hclear₂, yields_error] at hsized
    rw [hsized]
    rfl
  | ok clear₂ =>
    rw [hclear₂, yields_ok] at hsized
    obtain ⟨raw₂, hraw₂, hwoven₂⟩ := hsized
    rw [hraw₂]
    rw [← String.toList_ofList (l := raw₂), ← String.toList_ofList (l := clear₂)] at hwoven₂
    obtain ⟨source₃, kept₃, hsource₃, hkept₃, hwoven₃⟩ :=
      woven_renameEntry hname.2 (head?_runName node) hwoven₂
    change Except.map _ (Source.renameEntry (String.ofList raw₂) node.runName >>= _) =
      Source.renameEntry (String.ofList clear₂) node.runName >>= _
    rw [hsource₃, hkept₃]
    change Except.map _ (indexLocals node fallback >>= _) = indexLocals node fallback >>= _
    cases hlocals : indexLocals node fallback with
    | error e => rfl
    | ok locals =>
      have hstrip := stripChars_injectIndexLocals hname.1 hname.2 (by simp)
        (notMem_line_of_indexLocals h.ids hlocals) hwoven₃
      change Except.ok (stripComments _) = Except.ok _
      rw [stripComments, hstrip, String.ofList_toList]

end RenderGraph.Shader
