import Mathlib
import RenderGraph.Proofs.Compile.Outline
import RenderGraph.Proofs.Compile.Record
import RenderGraph.Proofs.Value.Delimiting

/-!
# Records that can be read back

A record runs the parts of a graph into each other. A part begins with a mark and a colon, its fields but
the last end at a colon, and the last one ends where the next part begins. So the record can be read back
as long as no id holds a colon and no body holds the mark of a part that may follow it. Types and lengths
hold neither, and the settings of a feedback buffer end at their closing bracket.

## Main definitions

* `Compile.IsField`, `Compile.Unmarked`: texts that end at the next colon, and at the next mark
* `Compile.Outline.Legible`: ids without colons and bodies without marks
* `Compile.Separable`: the texts of legible items can be told from what follows

## Main results

* `Compile.append_inj_of_field`, `Compile.append_inj_of_unmarked`: where a field ends
* `Compile.Outline.text_inj`: legible outlines with one text are the same
-/

namespace RenderGraph.Compile

/-! ### Where a field ends -/

/-- The marks that end a field. -/
def marks : List String :=
  ["node", "scope", "src", "in", "out", "u", "g", "stage", "edge"]

/-- The text is empty or begins with one of some marks and a colon. -/
def Begins (ms : List String) (cs : List Char) : Prop :=
  cs = [] ∨ ∃ m ∈ ms, (m ++ ":").toList <+: cs

/-- None of some marks occurs in the text, followed by a colon. -/
def Unmarked (ms : List String) (s : String) : Prop :=
  ∀ m ∈ ms, ¬ (m ++ ":").toList <:+: s.toList

instance (ms : List String) (s : String) : Decidable (Unmarked ms s) :=
  inferInstanceAs (Decidable (∀ m ∈ ms, ¬ (m ++ ":").toList <:+: s.toList))

/-- The text holds no colon, so that it ends where the next colon stands. -/
def IsField (s : String) : Prop :=
  ':' ∉ s.toList

instance : DecidablePred IsField :=
  fun s => inferInstanceAs (Decidable (':' ∉ s.toList))

section Fields

variable {ms : List String} {s t : String} {a b : List Char}

theorem toList_mark (m : String) : (m ++ ":").toList = m.toList ++ [':'] :=
  String.toList_append

private theorem begins_of_append {m : String} (hm : m ∈ ms) {sep : String} (hsep : sep = m ++ ":")
    (cs : List Char) : Begins ms (sep.toList ++ cs) :=
  .inr ⟨m, hm, hsep ▸ List.prefix_append _ _⟩

/-- A field holds no mark. -/
theorem IsField.unmarked (h : IsField s) : Unmarked ms s := by
  intro m _ hm
  refine h (hm.subset ?_)
  rw [toList_mark]
  exact List.mem_append_right _ List.mem_cons_self

private theorem eq_nil_of_colon {cs z : List Char} (h : ':' ∉ cs ++ z) (heq : ':' :: a = z ++ b) :
    z = [] := by
  cases z with
  | nil => rfl
  | cons c z =>
    rw [List.cons_append, List.cons.injEq] at heq
    exact absurd (List.mem_append_right cs (heq.1 ▸ List.mem_cons_self)) h

/-- What precedes the first colon can be told from what follows it. -/
theorem append_inj_of_colon {cs ds : List Char} (hcs : ':' ∉ cs) (hds : ':' ∉ ds)
    (h : cs ++ ':' :: a = ds ++ ':' :: b) : cs = ds ∧ a = b := by
  rcases List.append_eq_append_iff.1 h with ⟨z, rfl, heq⟩ | ⟨z, rfl, heq⟩
  · obtain rfl := eq_nil_of_colon hds heq
    exact ⟨(List.append_nil _).symm, (List.cons.inj heq).2⟩
  · obtain rfl := eq_nil_of_colon hcs heq
    exact ⟨List.append_nil _, (List.cons.inj heq).2.symm⟩

/-- A text begins with one mark at most. -/
private theorem mark_eq_of_prefix {cs ds rest : List Char} (hcs : ':' ∉ cs) (hds : ':' ∉ ds)
    (h : cs ++ [':'] <+: rest) (h' : ds ++ [':'] <+: rest) : cs = ds := by
  obtain ⟨a, rfl⟩ := h
  obtain ⟨b, heq⟩ := h'
  rw [List.append_assoc, List.append_assoc] at heq
  exact (append_inj_of_colon hds hcs heq).1.symm

private theorem colon_notMem_mark : ∀ m ∈ marks, ':' ∉ m.toList := by
  decide +kernel

/-- No mark ends with another one. -/
private theorem mark_eq_of_suffix : ∀ m ∈ marks, ∀ m' ∈ marks, m'.toList <:+ m.toList → m' = m := by
  decide +kernel

private theorem eq_nil_of_unmarked (hms : ms ⊆ marks) {cs z : List Char} (ht : Unmarked ms t)
    (hcs : t.toList = cs ++ z) (ha : Begins ms (z ++ b)) (hb : Begins ms b) : z = [] := by
  rcases ha with ha | ⟨m, hm, hma⟩
  · exact (List.append_eq_nil_iff.1 ha).1
  have houtside : ¬ (m ++ ":").toList <+: z := by
    intro hmz
    refine ht m hm (hmz.isInfix.trans ?_)
    rw [hcs]
    exact (List.suffix_append cs z).isInfix
  -- The text ends inside the mark, so that the mark ends with one that begins what follows.
  obtain ⟨y, hy⟩ := (List.prefix_or_prefix_of_prefix hma (List.prefix_append z b)).resolve_left houtside
  have hyb : y <+: b := (List.prefix_append_right_inj z).1 (hy ▸ hma)
  rcases List.eq_nil_or_concat y with rfl | ⟨y, c, rfl⟩
  · rw [List.append_nil] at hy
    exact absurd (hy ▸ List.prefix_refl z) houtside
  rw [List.concat_eq_append, ← List.append_assoc, toList_mark] at hy
  obtain ⟨hm', hc⟩ := List.append_inj' hy rfl
  obtain rfl := (List.cons.inj hc).1
  rcases hb with rfl | ⟨m', hm'', hmb⟩
  · exact absurd (List.prefix_nil.1 hyb) (by simp)
  have hcolon := colon_notMem_mark m (hms hm)
  rw [← hm'] at hcolon
  rw [List.concat_eq_append] at hyb
  rw [toList_mark] at hmb
  have hym := mark_eq_of_prefix (fun h => hcolon (List.mem_append_right z h))
    (colon_notMem_mark m' (hms hm'')) hyb hmb
  have hsuffix := mark_eq_of_suffix m (hms hm) m' (hms hm'') (by
    rw [← hym, ← hm']
    exact List.suffix_append z y)
  rw [← hsuffix, ← hym] at hm'
  simpa using hm'

/-- What ends with a mark can be told from what follows it, if it holds no mark. -/
theorem append_inj_of_unmarked (hms : ms ⊆ marks) (hs : Unmarked ms s) (ht : Unmarked ms t)
    (ha : Begins ms a) (hb : Begins ms b) (h : s.toList ++ a = t.toList ++ b) : s = t ∧ a = b := by
  rcases List.append_eq_append_iff.1 h with ⟨z, hz, heq⟩ | ⟨z, hz, heq⟩
  · obtain rfl := eq_nil_of_unmarked hms ht hz (heq ▸ ha) hb
    rw [List.append_nil] at hz
    exact ⟨String.toList_injective hz.symm, heq⟩
  · obtain rfl := eq_nil_of_unmarked hms hs hz (heq ▸ hb) ha
    rw [List.append_nil] at hz
    exact ⟨String.toList_injective hz, heq.symm⟩

/-- The fields of a part are followed by colons. -/
theorem append_inj_of_field (sep : String) (hsep : sep.toList.head? = some ':') (hs : IsField s)
    (ht : IsField t) (h : s.toList ++ (sep.toList ++ a) = t.toList ++ (sep.toList ++ b)) :
    s = t ∧ a = b := by
  obtain ⟨rest, hrest⟩ := List.head?_eq_some_iff.1 hsep
  rw [hrest] at h
  obtain ⟨heq, h⟩ := append_inj_of_colon hs ht h
  exact ⟨String.toList_injective heq, List.append_cancel_left h⟩

end Fields

/-! ### Types, lengths and optional texts -/

theorem isField_typeName (t : DataType) : IsField t.name := by
  have h : ∀ t ∈ DataType.all, IsField t.name := by decide +kernel
  exact h t (DataType.mem_all t)

theorem typeName_inj {t t' : DataType} (h : t.name = t'.name) : t = t' := by
  rw [← Option.some.injEq, ← DataType.ofName?_name, h, DataType.ofName?_name]

theorem isField_kindName (k : NodeKind) : IsField k.name := by
  cases k <;> decide +kernel

theorem kindName_inj {k k' : NodeKind} (h : k.name = k'.name) : k = k' := by
  rw [← Option.some.injEq, ← NodeKind.ofName?_name, h, NodeKind.ofName?_name]

theorem isField_int (n : Int) : IsField (toString n) := by
  have hnat (n : Nat) : IsField n.repr := by
    rw [IsField, Nat.toList_repr]
    intro h
    exact absurd (Nat.isDigit_of_mem_toDigits (by decide) (by decide) h) (by decide)
  rw [Int.toString_eq_repr, Int.repr_eq_if]
  split
  · exact hnat _
  · rw [IsField, String.toList_append, List.mem_append, not_or]
    exact ⟨by decide, hnat _⟩

theorem isField_length (l : Option Nat) : IsField (Value.writtenOption toString l) := by
  cases l with
  | none => decide
  | some n => exact isField_int n

theorem length_inj {l l' : Option Nat}
    (h : Value.writtenOption toString l = Value.writtenOption toString l') : l = l' :=
  (append_inj_of_length opens_nil opens_nil (congrArg (·.toList ++ []) h)).1

/-- The text, if there is one, has a property and differs from what is written if there is none. -/
def Told (P : String → Prop) (o : Option String) : Prop :=
  ∀ s ∈ o, P s ∧ s ≠ "None"

instance (P : String → Prop) [DecidablePred P] (o : Option String) : Decidable (Told P o) :=
  inferInstanceAs (Decidable (∀ s ∈ o, P s ∧ s ≠ "None"))

theorem Told.writtenOption {P : String → Prop} {o : Option String} (h : Told P o) (hnone : P "None") :
    P (Value.writtenOption id o) := by
  cases o with
  | none => exact hnone
  | some s => exact (h s rfl).1

theorem Told.inj {P P' : String → Prop} {o o' : Option String} (ho : Told P o) (ho' : Told P' o')
    (h : Value.writtenOption id o = Value.writtenOption id o') : o = o' := by
  cases o with
  | none =>
    cases o' with
    | none => rfl
    | some s' => exact absurd h.symm (ho' s' rfl).2
  | some s =>
    cases o' with
    | none => exact absurd h (ho s rfl).2
    | some s' => exact congrArg some h

/-! ### Legible outlines -/

/-- The marks at which a part may begin after the last stage, or the last global value, and so on up to
the body of a node. -/
def behindStages : List String :=
  ["node", "edge"]

def behindGlobal : List String :=
  "stage" :: behindStages

def behindBound : List String :=
  "g" :: behindGlobal

def behindOutputs : List String :=
  "u" :: behindBound

def behindInputs : List String :=
  "out" :: behindOutputs

def behindSource : List String :=
  "in" :: behindInputs

structure StageOutline.Legible (s : StageOutline) : Prop where
  id : IsField s.id
  source : Unmarked behindGlobal s.source

structure NodeOutline.Legible (n : NodeOutline) : Prop where
  id : IsField n.id
  scope : IsField n.scope
  globalName : Unmarked ["src"] n.globalName
  source : Unmarked behindSource n.source
  inputs : ∀ p ∈ n.inputs, IsField p.id
  outputs : ∀ p ∈ n.outputs, IsField p.id
  bound : ∀ b ∈ n.bound, IsField b.key
  stages : ∀ s ∈ n.stages, s.Legible

structure EdgeOutline.Legible (e : EdgeOutline) : Prop where
  source : IsField e.source
  sourcePort : Told IsField e.sourcePort
  target : IsField e.target
  targetPort : Told (Unmarked ["edge"]) e.targetPort

/-- Fields end at the next colon, and other texts at the next mark. -/
structure Outline.Legible (o : Outline) : Prop where
  node : Told IsField o.node
  port : Unmarked behindStages o.port
  nodes : ∀ n ∈ o.nodes, n.Legible
  edges : ∀ e ∈ o.edges, e.Legible

/-! ### Legible outlines can be read back -/

/-- The texts of two legible items, each followed by nothing or one of some marks, agree only if the items
and what follows them are the same. -/
structure Separable {α : Type} (ms : List String) (legible : α → Prop) (text : α → String) : Prop where
  cancel : ∀ {x y : α} {a b : List Char}, legible x → legible y → Begins ms a → Begins ms b →
    (text x).toList ++ a = (text y).toList ++ b → x = y ∧ a = b

/-- Two texts begin with some marks, or else with what follows them. If they are the same, each followed by
nothing or one of some further marks, then `P` holds and what follows is the same. -/
structure Splits (ms ms' : List String) (P : Prop) (s t : List Char) : Prop where
  left : ∀ {a}, Begins ms' a → Begins ms (s ++ a)
  right : ∀ {b}, Begins ms' b → Begins ms (t ++ b)
  cancel : ∀ {a b}, Begins ms' a → Begins ms' b → s ++ a = t ++ b → P ∧ a = b

theorem Splits.append {ms ms' ms'' : List String} {P Q : Prop} {s s' t t' : List Char}
    (h : Splits ms ms' P s t) (h' : Splits ms' ms'' Q s' t') :
    Splits ms ms'' (P ∧ Q) (s ++ s') (t ++ t') where
  left ha := by
    rw [List.append_assoc]
    exact h.left (h'.left ha)
  right hb := by
    rw [List.append_assoc]
    exact h.right (h'.right hb)
  cancel ha hb heq := by
    rw [List.append_assoc, List.append_assoc] at heq
    obtain ⟨hP, heq'⟩ := h.cancel (h'.left ha) (h'.right hb) heq
    obtain ⟨hQ, hab⟩ := h'.cancel ha hb heq'
    exact ⟨⟨hP, hQ⟩, hab⟩

section Lists

variable {α : Type} {ms : List String} {m : String} {legible : α → Prop} {text : α → String}

private theorem lead_parts (htext : ∀ x, (m ++ ":").toList <+: (text x).toList) (x : α) (l : List α)
    (a : List Char) : (m ++ ":").toList <+: ((x :: l).map text).flatMap String.toList ++ a := by
  rw [List.map_cons, List.flatMap_cons, List.append_assoc]
  exact (htext x).trans (List.prefix_append _ _)

/-- A list of parts with one mark begins with that mark, or else with what follows the list. -/
theorem Begins.parts {a : List Char} (ha : Begins ms a)
    (htext : ∀ x, (m ++ ":").toList <+: (text x).toList) (l : List α) :
    Begins (m :: ms) ((l.map text).flatMap String.toList ++ a) := by
  cases l with
  | nil => exact ha.imp_right fun ⟨m', hm', h⟩ => ⟨m', List.mem_cons_of_mem m hm', h⟩
  | cons x l => exact .inr ⟨m, List.mem_cons_self, lead_parts htext x l a⟩

private theorem not_begins (hms : m :: ms ⊆ marks) (hm : m ∉ ms) {a : List Char} (ha : Begins ms a) :
    ¬ (m ++ ":").toList <+: a := by
  intro hprefix
  rcases ha with rfl | ⟨m', hm', ha⟩
  · rw [toList_mark] at hprefix
    exact absurd (List.prefix_nil.1 hprefix) (by simp)
  · rw [toList_mark] at hprefix ha
    have heq := mark_eq_of_prefix (colon_notMem_mark m (hms List.mem_cons_self))
      (colon_notMem_mark m' (hms (List.mem_cons_of_mem m hm'))) hprefix ha
    exact hm (String.toList_injective heq ▸ hm')

/-- Lists of parts with one mark can be told from what follows if the parts can. -/
theorem Separable.parts (h : Separable (m :: ms) legible text) (hms : m :: ms ⊆ marks) (hm : m ∉ ms)
    (htext : ∀ x, (m ++ ":").toList <+: (text x).toList) {l l' : List α} (hl : ∀ x ∈ l, legible x)
    (hl' : ∀ x ∈ l', legible x) :
    Splits (m :: ms) ms (l = l') ((l.map text).flatMap String.toList)
      ((l'.map text).flatMap String.toList) where
  left ha := ha.parts htext l
  right hb := hb.parts htext l'
  cancel {a b} ha hb heq := by
    induction l generalizing l' with
    | nil =>
      cases l' with
      | nil => exact ⟨rfl, heq⟩
      | cons y l' =>
        refine absurd (lead_parts htext y l' b) ?_
        rw [← heq]
        exact not_begins hms hm ha
    | cons x l ih =>
      cases l' with
      | nil =>
        refine absurd (lead_parts htext x l a) ?_
        rw [heq]
        exact not_begins hms hm hb
      | cons y l' =>
        rw [List.forall_mem_cons] at hl hl'
        rw [List.map_cons, List.map_cons, List.flatMap_cons, List.flatMap_cons, List.append_assoc,
          List.append_assoc] at heq
        obtain ⟨rfl, hrest⟩ := h.cancel hl.1 hl'.1 (ha.parts htext l) (hb.parts htext l') heq
        obtain ⟨rfl, hab⟩ := ih hl.2 hl'.2 hrest
        exact ⟨rfl, hab⟩

end Lists

theorem separable_port (ms : List String) (hms : ms ⊆ marks) (side : String) :
    Separable ms (fun p => IsField p.id) (PortOutline.text side) := by
  constructor
  rintro ⟨id, type⟩ ⟨id', type'⟩ a b hid hid' ha hb h
  simp only [PortOutline.text, String.toList_append, List.append_assoc] at h
  obtain ⟨rfl, h₁⟩ :=
    append_inj_of_field ":" rfl hid hid' (List.append_cancel_left (List.append_cancel_left h))
  obtain ⟨htype, h₂⟩ := append_inj_of_unmarked hms (isField_typeName type).unmarked
    (isField_typeName type').unmarked ha hb h₁
  obtain rfl := typeName_inj htype
  exact ⟨rfl, h₂⟩

theorem separable_bound (ms : List String) (hms : ms ⊆ marks) :
    Separable ms (fun b => IsField b.key) BoundOutline.text := by
  constructor
  rintro ⟨key, type, length⟩ ⟨key', type', length'⟩ a b hkey hkey' ha hb h
  simp only [BoundOutline.text, String.toList_append, List.append_assoc] at h
  obtain ⟨rfl, h₁⟩ := append_inj_of_field ":" rfl hkey hkey' (List.append_cancel_left h)
  obtain ⟨htype, h₂⟩ := append_inj_of_field ":" rfl (isField_typeName type)
    (isField_typeName type') h₁
  obtain ⟨hlength, h₃⟩ := append_inj_of_unmarked hms (isField_length length).unmarked
    (isField_length length').unmarked ha hb h₂
  obtain rfl := typeName_inj htype
  obtain rfl := length_inj hlength
  exact ⟨rfl, h₃⟩

theorem separable_global (ms : List String) (hms : ms ⊆ marks) :
    Separable ms (fun _ => True) globalText := by
  constructor
  intro l l' a b _ _ ha hb h
  simp only [globalText, String.toList_append, List.append_assoc] at h
  obtain ⟨hlength, h₁⟩ := append_inj_of_unmarked hms (isField_length l).unmarked
    (isField_length l').unmarked ha hb (List.append_cancel_left h)
  exact ⟨length_inj hlength, h₁⟩

/-- The brackets around the settings of a feedback buffer tell where the body of a stage begins. -/
theorem separable_stage : Separable behindGlobal StageOutline.Legible StageOutline.text := by
  constructor
  rintro ⟨id, loop, ⟨_, f, rfl⟩, source⟩ ⟨id', loop', ⟨_, f', rfl⟩, source'⟩ a b hs hs' ha hb h
  simp only [StageOutline.text, String.toList_append, List.append_assoc] at h
  obtain ⟨rfl, h₁⟩ := append_inj_of_field ":" rfl hs.id hs'.id (List.append_cancel_left h)
  obtain ⟨hloop, h₂⟩ := append_inj_of_field ":" rfl (isField_int loop) (isField_int loop') h₁
  obtain ⟨hfeedback, h₃⟩ := Feedback.written_append_inj h₂
  obtain ⟨rfl, h₄⟩ := append_inj_of_unmarked (by decide) hs.source hs'.source ha hb h₃
  obtain rfl := Int.repr_injective hloop
  refine ⟨?_, h₄⟩
  rw [StageOutline.mk.injEq, Subtype.mk.injEq]
  exact ⟨rfl, rfl, hfeedback, rfl⟩

theorem separable_edge : Separable ["edge"] EdgeOutline.Legible EdgeOutline.text := by
  constructor
  rintro ⟨source, sourcePort, target, targetPort⟩ ⟨source', sourcePort', target', targetPort'⟩ a b
    he he' ha hb h
  simp only [EdgeOutline.text, String.toList_append, List.append_assoc] at h
  obtain ⟨rfl, h₁⟩ := append_inj_of_field ":" rfl he.source he'.source (List.append_cancel_left h)
  obtain ⟨hsourcePort, h₂⟩ := append_inj_of_field ":" rfl
    (he.sourcePort.writtenOption (by decide)) (he'.sourcePort.writtenOption (by decide)) h₁
  obtain ⟨rfl, h₃⟩ := append_inj_of_field ":" rfl he.target he'.target h₂
  obtain ⟨htargetPort, h₄⟩ := append_inj_of_unmarked (by decide)
    (he.targetPort.writtenOption (by decide)) (he'.targetPort.writtenOption (by decide)) ha hb h₃
  obtain rfl := he.sourcePort.inj he'.sourcePort hsourcePort
  obtain rfl := he.targetPort.inj he'.targetPort htargetPort
  exact ⟨rfl, h₄⟩

section Leads

private theorem lead_prefix {m lead : String} (h : lead = m ++ ":") (rest : String) :
    (m ++ ":").toList <+: (lead ++ rest).toList := by
  subst h
  rw [String.toList_append (s := m ++ ":")]
  exact List.prefix_append _ _

theorem PortOutline.lead (side : String) (p : PortOutline) :
    (side ++ ":").toList <+: (p.text side).toList := by
  rw [text, String.append_assoc, String.append_assoc]
  exact lead_prefix rfl _

theorem BoundOutline.lead (b : BoundOutline) : ("u" ++ ":").toList <+: b.text.toList := by
  rw [text, String.append_assoc, String.append_assoc, String.append_assoc, String.append_assoc]
  exact lead_prefix (by decide) _

theorem lead_globalText (l : Option Nat) : ("g" ++ ":").toList <+: (globalText l).toList :=
  lead_prefix (by decide) _

theorem StageOutline.lead (s : StageOutline) : ("stage" ++ ":").toList <+: s.text.toList := by
  unfold text
  simp only [String.append_assoc]
  exact lead_prefix (by decide) _

theorem NodeOutline.lead (n : NodeOutline) : ("node" ++ ":").toList <+: n.text.toList := by
  unfold text
  simp only [List.cons_append, String.join_cons, String.append_assoc]
  exact lead_prefix (by decide) _

theorem EdgeOutline.lead (e : EdgeOutline) : ("edge" ++ ":").toList <+: e.text.toList := by
  unfold text
  simp only [String.append_assoc]
  exact lead_prefix (by decide) _

end Leads

/-- What follows the body of a node can be read back. -/
theorem NodeOutline.splits_parts {n n' : NodeOutline} (hn : n.Legible) (hn' : n'.Legible) :
    Splits behindSource behindStages
      (n.inputs = n'.inputs ∧ n.outputs = n'.outputs ∧ n.bound = n'.bound ∧
        n.globalLength.toList = n'.globalLength.toList ∧ n.stages = n'.stages) n.parts n'.parts := by
  have hin := (separable_port behindSource (by decide) "in").parts (by decide) (by decide)
    (PortOutline.lead "in") hn.inputs hn'.inputs
  have hout := (separable_port behindInputs (by decide) "out").parts (by decide) (by decide)
    (PortOutline.lead "out") hn.outputs hn'.outputs
  have hbound := (separable_bound behindOutputs (by decide)).parts (by decide) (by decide)
    BoundOutline.lead hn.bound hn'.bound
  have hglobal : Splits behindBound behindGlobal
      (n.globalLength.toList = n'.globalLength.toList) _ _ :=
    (separable_global behindBound (by decide)).parts (by decide) (by decide) lead_globalText
      (fun _ _ => trivial) (fun _ _ => trivial)
  have hstages := separable_stage.parts (by decide) (by decide) StageOutline.lead hn.stages hn'.stages
  exact hin.append (hout.append (hbound.append (hglobal.append hstages)))

theorem separable_node : Separable behindStages NodeOutline.Legible NodeOutline.text := by
  constructor
  intro n n' a b hn hn' ha hb h
  rw [n.toList_text, n'.toList_text] at h
  simp only [List.append_assoc] at h
  obtain ⟨hid, h₁⟩ := append_inj_of_field ":" rfl hn.id hn'.id (List.append_cancel_left h)
  obtain ⟨hkind, h₂⟩ := append_inj_of_field ":" rfl (isField_kindName n.kind)
    (isField_kindName n'.kind) h₁
  have hscope (cs : List Char) : Begins ["scope"] ("scope:".toList ++ cs) :=
    begins_of_append (m := "scope") (by decide) (by decide) cs
  obtain ⟨htype, h₃⟩ := append_inj_of_unmarked (by decide) (isField_typeName n.type).unmarked
    (isField_typeName n'.type).unmarked (hscope _) (hscope _) h₂
  obtain ⟨hscopes, h₄⟩ := append_inj_of_field ":global:" (by decide) hn.scope hn'.scope
    (List.append_cancel_left h₃)
  have hsrc (cs : List Char) : Begins ["src"] ("src:".toList ++ cs) :=
    begins_of_append (m := "src") (by decide) (by decide) cs
  obtain ⟨hglobal, h₅⟩ := append_inj_of_unmarked (by decide) hn.globalName hn'.globalName
    (hsrc _) (hsrc _) h₄
  have hparts := NodeOutline.splits_parts hn hn'
  obtain ⟨hsource, h₆⟩ := append_inj_of_unmarked (by decide) hn.source hn'.source (hparts.left ha)
    (hparts.right hb) (List.append_cancel_left h₅)
  obtain ⟨⟨hin, hout, hbound, hlengths, hstages⟩, hab⟩ := hparts.cancel ha hb h₆
  have hlength : n.globalLength = n'.globalLength := by
    rw [← Option.head?_toList (o := n.globalLength), hlengths, Option.head?_toList]
  refine ⟨?_, hab⟩
  cases n
  cases n'
  rw [NodeOutline.mk.injEq]
  exact ⟨hid, kindName_inj hkind, typeName_inj htype, hscopes, hglobal, hsource, hin, hout, hbound,
    hlength, hstages⟩

/-- Legible outlines with one text are the same. -/
theorem Outline.text_inj {o o' : Outline} (ho : o.Legible) (ho' : o'.Legible) (h : o.text = o'.text) :
    o = o' := by
  have hlist := congrArg String.toList h
  simp only [text, String.toList_join, List.flatMap_append, List.flatMap_cons, List.flatMap_nil,
    List.append_nil, String.toList_append, List.append_assoc] at hlist
  have hnodes := separable_node.parts (by decide) (by decide) NodeOutline.lead ho.nodes ho'.nodes
  have hedges := separable_edge.parts (by decide) (by decide) EdgeOutline.lead ho.edges ho'.edges
  have hend : Begins [] [] := .inl rfl
  have hparts := hnodes.append hedges
  obtain ⟨hnode, h₁⟩ := append_inj_of_field ":" rfl (ho.node.writtenOption (by decide))
    (ho'.node.writtenOption (by decide)) (List.append_cancel_left hlist)
  obtain ⟨hport, h₂⟩ := append_inj_of_unmarked (by decide) ho.port ho'.port (hparts.left hend)
    (hparts.right hend) (by rwa [List.append_nil, List.append_nil])
  obtain ⟨⟨hnodeList, hedgeList⟩, -⟩ := hparts.cancel hend hend h₂
  cases o
  cases o'
  rw [Outline.mk.injEq]
  exact ⟨ho.node.inj ho'.node hnode, hport, hnodeList, hedgeList⟩

end RenderGraph.Compile
