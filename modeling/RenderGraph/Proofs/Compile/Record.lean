import RenderGraph.Compile.Fingerprint
import RenderGraph.Proofs.Shader.Twin
import RenderGraph.Proofs.Text.Numerals

/-!
# What a record tells

The record of a request is a text without separators, but it tells the lengths of all uniforms apart from
what surrounds them: a length is written in digits, and what follows it does not begin with a digit. So
two variants with one record are twins. The record does not tell the capacity of an array input that is
bound to a value of another type, since it records that value by its own type.

## Main definitions

* `Tells`: two texts agree only under a condition, whatever follows them
* `Graph.SameCapacities`: the inputs about which the record is silent

## Main results

* `BoundValue.Twin.capacity_eq`: an input that is bound to a value of its type has the recorded capacity
* `Compile.twin_of_record_eq`: variants with one record are twins
* `Compile.record_of_sorted`: records that need no sorting
-/

namespace RenderGraph

/-! ### Texts that tell something -/

/-- The text does not begin with a digit. -/
def Opens (cs : List Char) : Prop :=
  ∀ c ∈ cs.head?, c.isDigit = false

theorem opens_nil : Opens [] := by
  simp [Opens]

theorem Opens.append {s a : List Char} (hs : Opens s) (ha : Opens a) : Opens (s ++ a) := by
  cases s with
  | nil => exact ha
  | cons c s => exact hs

/-- If the texts are the same, each followed by some text that does not begin with a digit, then `P`
holds and what follows is the same. -/
structure Tells (P : Prop) (s t : List Char) : Prop where
  left : Opens s
  right : Opens t
  cancel : ∀ {a b}, Opens a → Opens b → s ++ a = t ++ b → P ∧ a = b

namespace Tells

variable {P Q : Prop} {s s' t t' : List Char}

theorem imp (h : Tells P s t) (hP : P → Q) : Tells Q s t where
  left := h.left
  right := h.right
  cancel ha hb heq := (h.cancel ha hb heq).imp_left hP

/-- A text that both have in common. -/
theorem common (h : Opens s) : Tells True s s where
  left := h
  right := h
  cancel _ _ heq := ⟨trivial, List.append_cancel_left heq⟩

theorem append (h : Tells P s t) (h' : Tells Q s' t') : Tells (P ∧ Q) (s ++ s') (t ++ t') where
  left := h.left.append h'.left
  right := h.right.append h'.right
  cancel ha hb heq := by
    rw [List.append_assoc, List.append_assoc] at heq
    obtain ⟨hP, heq⟩ := h.cancel (h'.left.append ha) (h'.right.append hb) heq
    obtain ⟨hQ, heq⟩ := h'.cancel ha hb heq
    exact ⟨⟨hP, hQ⟩, heq⟩

end Tells

/-- Digits that are followed by no further digit can be told from what follows. -/
theorem append_inj_of_digits {s t a b : List Char} (hs : ∀ c ∈ s, c.isDigit = true)
    (ht : ∀ c ∈ t, c.isDigit = true) (ha : Opens a) (hb : Opens b) (h : s ++ a = t ++ b) :
    s = t ∧ a = b := by
  induction s generalizing t with
  | nil =>
    cases t with
    | nil => exact ⟨rfl, h⟩
    | cons c t =>
      have hc := ha c (by rw [← List.nil_append a, h]; rfl)
      rw [ht c List.mem_cons_self] at hc
      cases hc
  | cons c s ih =>
    cases t with
    | nil =>
      have hc := hb c (by rw [← List.nil_append b, ← h]; rfl)
      rw [hs c List.mem_cons_self] at hc
      cases hc
    | cons d t =>
      rw [List.cons_append, List.cons_append, List.cons.injEq] at h
      obtain ⟨rfl, h⟩ := h
      obtain ⟨rfl, hab⟩ := ih (fun c hc => hs c (List.mem_cons_of_mem _ hc))
        (fun c hc => ht c (List.mem_cons_of_mem _ hc)) h
      exact ⟨rfl, hab⟩

/-- A written length tells the length. -/
theorem append_inj_of_length {l l' : Option Nat} {a b : List Char} (ha : Opens a) (hb : Opens b)
    (h : (Value.writtenOption toString l).toList ++ a = (Value.writtenOption toString l').toList ++ b) :
    l = l' ∧ a = b := by
  have hall (n : Nat) : ∀ c ∈ Nat.toDigits 10 n, c.isDigit = true :=
    fun c hc => Nat.isDigit_of_mem_toDigits (by decide) (by decide) hc
  have hnone (n : Nat) (r : List Char) (r' : List Char)
      (h : Nat.toDigits 10 n ++ r = "None".toList ++ r') : False := by
    obtain ⟨c, cs, hc⟩ := List.exists_cons_of_ne_nil (Nat.toDigits_ne_nil (n := n) (b := 10))
    have hd := hall n c (hc ▸ List.mem_cons_self)
    rw [hc] at h
    have hcN : c = 'N' := (List.cons.inj h).1
    subst hcN
    exact absurd hd (by decide)
  cases l with
  | none =>
    cases l' with
    | none => exact ⟨rfl, List.append_cancel_left h⟩
    | some n' =>
      rw [Value.writtenOption, Value.writtenOption, Text.toList_toString] at h
      exact (hnone n' b a h.symm).elim
  | some n =>
    cases l' with
    | none =>
      rw [Value.writtenOption, Value.writtenOption, Text.toList_toString] at h
      exact (hnone n a b h).elim
    | some n' =>
      rw [Value.writtenOption, Value.writtenOption, Text.toList_toString, Text.toList_toString] at h
      obtain ⟨heq, hab⟩ := append_inj_of_digits (hall n) (hall n') ha hb h
      have hn : n = n' := by
        rw [← Nat.ofDigitChars_ten_toDigits (n := n), heq, Nat.ofDigitChars_ten_toDigits]
      exact ⟨congrArg some hn, hab⟩

/-- A common text that ends with a written length. -/
theorem tells_length {s : String} (hs : Opens s.toList) (hne : s.toList ≠ []) (l l' : Option Nat) :
    Tells (l = l') (s ++ Value.writtenOption toString l).toList
      (s ++ Value.writtenOption toString l').toList := by
  obtain ⟨c, cs, hc⟩ := List.exists_cons_of_ne_nil hne
  rw [String.toList_append, String.toList_append, hc]
  rw [hc] at hs
  refine ⟨hs, hs, fun ha hb heq => ?_⟩
  rw [List.append_assoc, List.append_assoc] at heq
  exact append_inj_of_length ha hb (List.append_cancel_left heq)

/-- Texts that are written in a loop over related items. -/
theorem tells_mapM {α β : Type} {R P : α → β → Prop} {f : α → Except Fault String}
    {g : β → Except Fault String} {l : List α} {m : List β} {ss ts : List String}
    (hl : List.Forall₂ R l m)
    (h : ∀ a b s t, R a b → f a = .ok s → g b = .ok t → Tells (P a b) s.toList t.toList)
    (hs : l.mapM f = .ok ss) (ht : m.mapM g = .ok ts) :
    Tells (List.Forall₂ P l m) (ss.flatMap String.toList) (ts.flatMap String.toList) := by
  induction hl generalizing ss ts with
  | nil =>
    cases hs
    cases ht
    exact (Tells.common opens_nil).imp fun _ => .nil
  | cons hab _ ih =>
    rw [List.mapM_cons] at hs ht
    obtain ⟨s, hfa, hs⟩ := Fault.bind_eq_ok_iff.1 hs
    obtain ⟨ss, hss, hs⟩ := Fault.bind_eq_ok_iff.1 hs
    obtain ⟨t, hgb, ht⟩ := Fault.bind_eq_ok_iff.1 ht
    obtain ⟨ts, hts, ht⟩ := Fault.bind_eq_ok_iff.1 ht
    cases hs
    cases ht
    exact ((h _ _ _ _ hab hfa hgb).append (ih hss hts)).imp fun h => .cons h.1 h.2

/-- Related lists stay related when they are sorted alike. -/
theorem forall₂_mergeSort {α β : Type} {R : α → β → Prop} {l : List α} {m : List β}
    {le : α → α → Bool} {le' : β → β → Bool} (h : List.Forall₂ R l m)
    (hle : ∀ a b a' b', R a b → R a' b' → le a a' = le' b b') :
    List.Forall₂ R (l.mergeSort le) (m.mergeSort le') := by
  have hmem : ∀ p ∈ l.zip m, R p.1 p.2 := fun p hp => List.forall₂_zip h hp
  have hfst : ((l.zip m).mergeSort fun p q => le p.1 q.1).map Prod.fst = l.mergeSort le := by
    rw [List.map_mergeSort (s := le) fun _ _ _ _ => rfl, List.map_fst_zip h.length_eq.le]
  have hsnd : ((l.zip m).mergeSort fun p q => le p.1 q.1).map Prod.snd = m.mergeSort le' := by
    rw [List.map_mergeSort (s := le') fun p hp q hq => hle _ _ _ _ (hmem p hp) (hmem q hq),
      List.map_snd_zip h.length_eq.ge]
  rw [← hfst, ← hsnd, List.forall₂_map_left_iff, List.forall₂_map_right_iff, List.forall₂_same]
  exact fun p hp => hmem p (List.mem_mergeSort.1 hp)

/-! ### Capacities -/

/-- The length of the uniform of an array is the capacity of an input of its type. -/
theorem BoundValue.declaredLength_eq {b : BoundValue} (ht : b.type.isArray = true) (fallback : Number) :
    declaredLength b.type (some b) b.value fallback =
      (capacity b.type (some b) fallback).map some := by
  rw [declaredLength, if_pos ht]
  dsimp only
  by_cases hc : b.value.elementCount b.type = 0
  · rw [if_pos hc]
  · -- The value settles the length, so that the fallback has no part in it.
    have hpos : 1 ≤ b.value.elementCount b.type := Nat.one_le_iff_ne_zero.2 hc
    simp only [capacity, hpos, if_true]

private theorem eq_of_map_some {α : Type} {x y : Except Fault α} (h : x.map some = y.map some) :
    x = y := by
  cases x <;> cases y <;> simp_all [Except.map]

/-- Inputs of the types of their bound values have the same capacities if these are twins. -/
theorem BoundValue.Twin.capacity_eq {b c : BoundValue} {fallback : Number} (h : b.Twin fallback c)
    (ht : b.type.isArray = true) :
    capacity b.type (some b) fallback = capacity b.type (some c) fallback := by
  have hlength := h.length_eq
  rw [declaredLength_eq ht, declaredLength_eq (h.type_eq ▸ ht), h.type_eq] at hlength
  exact eq_of_map_some hlength

/-- The array inputs that are bound to values of another type have the same capacities in both graphs. -/
def Graph.SameCapacities (config : Config) (g k : Graph) : Prop :=
  ∀ id n m, g.node? id = some n → k.node? id = some m → ∀ port ∈ n.inputs,
    port.type.isArray = true → ∀ b, n.uniforms.get? port.id = some b → b.type ≠ port.type →
      Shader.portCapacity port n.uniforms config.defaultArrayLength =
        Shader.portCapacity port m.uniforms config.defaultArrayLength

namespace Compile

/-! ### Records -/

/-- The uniforms of the bound values have the same length. -/
def SameLength (fallback : Number) (b c : BoundValue) : Prop :=
  BoundValue.declaredLength b.type (some b) b.value fallback =
    BoundValue.declaredLength c.type (some c) c.value fallback

/-- The uniforms of the global values have the same length. -/
def SameGlobalLength (fallback : Number) (n m : Node) : Prop :=
  BoundValue.declaredLength n.outputType (n.uniforms.get? "value") n.globalValue fallback =
    BoundValue.declaredLength m.outputType (m.uniforms.get? "value") m.globalValue fallback

/-- The uniforms of the nodes have the same lengths. -/
def SameLengths (fallback : Number) (n m : Node) : Prop :=
  (∀ key b c, n.uniforms.get? key = some b → m.uniforms.get? key = some c → SameLength fallback b c) ∧
    (n.kind = .globalVar → SameGlobalLength fallback n m)

variable {fallback : Number}

theorem tells_boundRecord {key : String} {b c : BoundValue} {s t : String} (h : b.Variant c)
    (hs : boundRecord fallback key b = .ok s) (ht : boundRecord fallback key c = .ok t) :
    Tells (SameLength fallback b c) s.toList t.toList := by
  obtain ⟨l, hl, hs⟩ := Fault.bind_eq_ok_iff.1 hs
  obtain ⟨l', hl', ht⟩ := Fault.bind_eq_ok_iff.1 ht
  cases hs
  cases ht
  rw [h.type_eq]
  refine (tells_length (by simp [Opens]) (by simp) l l').imp ?_
  rintro rfl
  exact hl.trans hl'.symm

theorem tells_globalRecord {n m : Node} {s t : String} (h : n.Variant m)
    (hs : globalRecord fallback n = .ok s) (ht : globalRecord fallback m = .ok t) :
    Tells (n.kind = .globalVar → SameGlobalLength fallback n m) s.toList t.toList := by
  obtain ⟨globalValue, -⟩ := h
  unfold globalRecord at hs ht
  by_cases hk : n.kind = .globalVar
  · rw [if_pos hk] at hs ht
    obtain ⟨l, hl, hs⟩ := Fault.bind_eq_ok_iff.1 hs
    obtain ⟨l', hl', ht⟩ := Fault.bind_eq_ok_iff.1 ht
    cases hs
    cases ht
    refine (tells_length (by simp [Opens]) (by simp) l l').imp ?_
    rintro rfl _
    exact hl.trans hl'.symm
  · rw [if_neg hk] at hs ht
    cases hs
    cases ht
    exact (Tells.common opens_nil).imp fun _ hk' => absurd hk' hk

theorem tells_stageRecord {stage stage' : Stage} {s t : String} (h : stage = stage')
    (hs : stageRecord stage = .ok s) (ht : stageRecord stage' = .ok t) :
    Tells True s.toList t.toList := by
  subst h
  obtain rfl := Except.ok.inj (hs.symm.trans ht)
  unfold stageRecord at hs
  split at hs
  · cases hs
  · cases hs
    exact .common (by simp [Opens])

/-- The record of a node tells the lengths of its uniforms. -/
theorem tells_nodeRecord {n m : Node} {s t : String} (h : n.Variant m)
    (hs : nodeRecord fallback n = .ok s) (ht : nodeRecord fallback m = .ok t) :
    Tells (SameLengths fallback n m) s.toList t.toList := by
  have hvariant := h
  rcases h with @⟨uniforms, globalValue, h⟩
  obtain ⟨bound, hbound, hs⟩ := Fault.bind_eq_ok_iff.1 hs
  obtain ⟨global, hglobal, hs⟩ := Fault.bind_eq_ok_iff.1 hs
  obtain ⟨stages, hstages, hs⟩ := Fault.bind_eq_ok_iff.1 hs
  obtain ⟨bound', hbound', ht⟩ := Fault.bind_eq_ok_iff.1 ht
  obtain ⟨global', hglobal', ht⟩ := Fault.bind_eq_ok_iff.1 ht
  obtain ⟨stages', hstages', ht⟩ := Fault.bind_eq_ok_iff.1 ht
  cases hs
  cases ht
  have hsorted : List.Forall₂ (fun e d => e.1 = d.1 ∧ BoundValue.Variant e.2 d.2)
      (n.uniforms.entries.mergeSort fun a b => !(b.1 < a.1))
      (uniforms.entries.mergeSort fun a b => !(b.1 < a.1)) :=
    forall₂_mergeSort h fun e d e' d' hed hed' => by rw [hed.1, hed'.1]
  have hbounds : Tells (∀ key b c, n.uniforms.get? key = some b → uniforms.get? key = some c →
      SameLength fallback b c) (bound.flatMap String.toList) (bound'.flatMap String.toList) := by
    refine (tells_mapM (P := fun e d => e.1 = d.1 ∧ SameLength fallback e.2 d.2) hsorted
      (fun e d s t hed hs ht => ?_) hbound hbound').imp fun hall key b c hb hc => ?_
    · rw [← hed.1] at ht
      exact (tells_boundRecord hed.2 hs ht).imp fun hl => ⟨hed.1, hl⟩
    · obtain ⟨⟨key', b'⟩, hb', hkey, hl⟩ :=
        exists_of_forall₂ hall (List.mem_mergeSort.2 (Keyed.mem_entries_iff.2 hc))
      obtain rfl : key' = key := hkey
      have hget := Keyed.mem_entries_iff.1 (List.mem_mergeSort.1 hb')
      obtain rfl : b = b' := Option.some.inj (hb.symm.trans hget)
      exact hl
  have hglobals := tells_globalRecord hvariant hglobal hglobal'
  have hstage := tells_mapM (P := fun _ _ => True) (forall₂_self n.stages)
    (fun _ _ _ _ h => tells_stageRecord h.2) hstages hstages'
  rw [String.toList_join, String.toList_join]
  simp only [List.flatMap_append, List.flatMap_singleton]
  refine ((((Tells.common ?_).append hbounds).append hglobals).append hstage).imp
    fun h => ⟨h.1.1.2, h.1.2⟩
  simp [Opens]

variable {config : Config} {g k : Graph} {target : Target} {text : String}

theorem opens_edgeRecords (edges : List Edge) :
    Opens ((edges.map edgeRecord).flatMap String.toList) := by
  cases edges with
  | nil => exact opens_nil
  | cons e edges => simp [edgeRecord, Opens]

/-- The nodes of variants with one record have uniforms of the same lengths. -/
theorem sameLengths_of_record_eq (hv : g.Variant k)
    (hg : record { graph := g, config } target = .ok text)
    (hk : record { graph := k, config } target = .ok text) {id : String} {n m : Node}
    (hn : g.node? id = some n) (hm : k.node? id = some m) :
    SameLengths config.defaultArrayLength n m := by
  have hnodes : List.Forall₂ Node.Variant g.nodeList k.nodeList :=
    List.rel_map (fun _ _ hed => hed.2) hv.nodes
  have hid {n m : Node} (h : n.Variant m) : n.id = m.id := by
    obtain ⟨_, -⟩ := h
    rfl
  have hsorted : List.Forall₂ Node.Variant (sortedNodes g.nodeList) (sortedNodes k.nodeList) :=
    forall₂_mergeSort hnodes fun a b a' b' h h' => by rw [hid h, hid h']
  obtain ⟨ss, hss, hg⟩ := Fault.bind_eq_ok_iff.1 hg
  obtain ⟨ts, hts, hk⟩ := Fault.bind_eq_ok_iff.1 hk
  have htells := tells_mapM (P := fun n m => n.id = m.id ∧ SameLengths config.defaultArrayLength n m)
    hsorted (fun n m s t h hs ht => (tells_nodeRecord h hs ht).imp fun hl => ⟨hid h, hl⟩) hss hts
  have heq := congrArg String.toList (Except.ok.inj (hg.trans hk.symm))
  rw [String.toList_join, String.toList_join, hv.edges_eq] at heq
  simp only [List.flatMap_append, List.append_assoc] at heq
  obtain ⟨hall, -⟩ := htells.cancel (opens_edgeRecords _) (opens_edgeRecords _)
    (List.append_cancel_left heq)
  -- The node that stands for `m` in the sorted list has its id, so it is `n`.
  obtain ⟨n', hn', hnm, hlengths⟩ :=
    exists_of_forall₂ hall (List.mem_mergeSort.2 (Graph.mem_nodeList_of_node? hm))
  have hn'' := Graph.mem_nodeList_iff.1 (List.mem_mergeSort.1 hn')
  rw [hnm, k.id_eq hm] at hn''
  obtain rfl : n = n' := Option.some.inj (hn.symm.trans hn'')
  exact hlengths

/-- The capacities of an array input and of its twin are the same where the record tells them, and where
they are known to be the same. -/
theorem portCapacity_eq {uniforms uniforms' : Keyed BoundValue}
    (h : uniforms.Match (fun _ => BoundValue.Twin fallback) uniforms') {port : Port}
    (ht : port.type.isArray = true)
    (hother : ∀ b, uniforms.get? port.id = some b → b.type ≠ port.type →
      Shader.portCapacity port uniforms fallback = Shader.portCapacity port uniforms' fallback) :
    Shader.portCapacity port uniforms fallback = Shader.portCapacity port uniforms' fallback := by
  have hrel := h.get? port.id
  unfold Shader.portCapacity at hother ⊢
  generalize uniforms.get? port.id = b at hrel hother ⊢
  generalize uniforms'.get? port.id = c at hrel hother ⊢
  cases hrel with
  | none => rfl
  | @some b c hbc =>
    by_cases htype : b.type = port.type
    · rw [← htype] at ht ⊢
      exact hbc.capacity_eq ht
    · exact hother b rfl htype

/-- Variants with one record are twins. -/
theorem twin_of_record_eq (hv : g.Variant k) (hg : record { graph := g, config } target = .ok text)
    (hk : record { graph := k, config } target = .ok text) :
    g.Twin config (g.SameCapacities config k) k where
  edges_eq := hv.edges_eq
  nodes := by
    refine hv.nodes.imp fun id n m hn hm hnm => ?_
    obtain ⟨hlengths, hglobal⟩ := sameLengths_of_record_eq hv hg hk hn hm
    rcases hnm with @⟨uniforms, globalValue, h⟩
    have htwin : n.uniforms.Match (fun _ => BoundValue.Twin config.defaultArrayLength) uniforms :=
      h.imp fun key b c hb hc hbc => ⟨hbc.type_eq, hlengths key b c hb hc⟩
    refine .mk htwin hglobal fun hsame port hport ht => ?_
    exact portCapacity_eq htwin ht fun b hb hne => hsame id _ _ hn hm port hport ht b hb hne

theorem fingerprint_of_record {scene : Scene} (h : record scene target = .ok text) :
    fingerprint scene target = .ok (Sha256.hexDigest text) := by
  rw [fingerprint, h]
  rfl

/-! ### Records of small graphs -/

private theorem mapM_congr {α β : Type} {f f' : α → Except Fault β} {l : List α}
    (h : ∀ a ∈ l, f a = f' a) : l.mapM f = l.mapM f' := by
  induction l with
  | nil => rfl
  | cons a l ih =>
    rw [List.mapM_cons, List.mapM_cons, h a List.mem_cons_self,
      ih fun b hb => h b (List.mem_cons_of_mem a hb)]

/-- The record of a graph whose nodes and bound values are sorted already. -/
theorem record_of_sorted {scene : Scene}
    (hn : scene.graph.nodeList.Pairwise fun a b => (!decide (b.id < a.id)) = true)
    (hu : ∀ node ∈ scene.graph.nodeList,
      node.uniforms.entries.Pairwise fun a b => (!decide (b.1 < a.1)) = true) :
    record scene target = (do
      let nodes ← scene.graph.nodeList.mapM fun node => do
        let bound ← node.uniforms.entries.mapM fun b => boundRecord scene.fallback b.1 b.2
        let global ← globalRecord scene.fallback node
        let stages ← node.stages.mapM stageRecord
        pure (String.join
          (["node:" ++ node.id ++ ":" ++ node.kind.name ++ ":" ++ node.outputType.name,
            "scope:" ++ node.scope.getD "" ++ ":global:" ++ node.globalName.getD "",
            "src:" ++ node.source] ++
          node.inputs.map (portRecord "in") ++ node.outputs.map (portRecord "out") ++
          bound ++ [global] ++ stages))
      pure (String.join
        (["target:" ++ Value.writtenOption (id : String → String) target.node ++ ":" ++
            target.port.getD ""] ++
        nodes ++ scene.graph.edges.map edgeRecord))) := by
  unfold record sortedNodes
  rw [List.mergeSort_of_pairwise hn]
  congr 1
  refine mapM_congr fun node hnode => ?_
  unfold nodeRecord
  rw [List.mergeSort_of_pairwise (hu node hnode)]

/-- A record that has been evaluated. -/
theorem record_eq_of_toOption {scene : Scene} (h : (record scene target).toOption = some text) :
    record scene target = .ok text := by
  cases hr : record scene target with
  | error f => simp [hr, Except.toOption] at h
  | ok text' =>
    rw [hr] at h
    cases h
    rfl

end Compile

end RenderGraph
