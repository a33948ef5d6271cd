import RenderGraph.Proofs.Typing.Rounds
import RenderGraph.Proofs.Value.Packing

/-!
# Where ports and values come from

Inference makes nothing up. The ports of a node are its own or those of an overload of its body, apart
from their types. The value that is bound to an input is the one that was bound to it before, or it
is made of the numbers of that one, of their integer parts, and of the defaults. The first number of a
value stays the first.

A value can be converted unless it is a tensor without axes, or its first number has no integer part
and is wanted as an integer. As the first number of a value comes from the first number of the value
that was bound before, a conversion fails only if the values of the given graph are to blame.

## Main definitions

* `Value.numbers`: the numbers of a value
* `BoundValue.Unconvertible`: why a bound value cannot be converted to a type
* `BoundValue.Derived`: a bound value that was made of another
* `Typing.Drawn`: a node with ports and values that come from another

## Main results

* `BoundValue.migrate_eq_error_iff`: exactly these values cannot be converted
* `BoundValue.Derived.migrate`, `BoundValue.Derived.conform`: one conversion
* `Typing.DrawnFrom.exchange`, `Typing.Reaches.drawnFrom`: one step and any number of rounds
-/

namespace RenderGraph

/-! ### Numbers of values -/

namespace Value

/-- The numbers of a number or of a list of numbers; other values have none. -/
def numbers : Value → List Number
  | number n => [n]
  | list items =>
    if items.all isNumber then items.filterMap fun
      | number n => some n
      | _ => none
    else []
  | _ => []

@[simp]
theorem numbers_list (ns : List Number) : (list (ns.map number)).numbers = ns := by
  have hall : (ns.map number).all isNumber = true := by simp [isNumber]
  rw [numbers, if_pos hall, List.filterMap_map]
  exact List.filterMap_some

/-- A list of numbers. -/
theorem exists_eq_map {items : List Value} (h : items.all isNumber = true) :
    ∃ ns : List Number, items = ns.map number := by
  induction items with
  | nil => exact ⟨[], rfl⟩
  | cons v items ih =>
    rw [List.all_cons, Bool.and_eq_true] at h
    obtain ⟨ns, rfl⟩ := ih h.2
    cases v with
    | number n => exact ⟨n :: ns, rfl⟩
    | _ => cases h.1

end Value

namespace BoundValue

variable {t : DataType} {v w : Value} {b : BoundValue} {o : Option BoundValue} {f : Fault}

/-- The numbers of a bound value, with tensors written out as lists. -/
def numbers (b : BoundValue) : List Number :=
  match plainValue b.value with
  | .ok v => v.numbers
  | .error _ => []

/-! ### Values that cannot be converted -/

/-- Why a bound value cannot be converted to a type. -/
inductive Unconvertible (b : BoundValue) : DataType → Fault → Prop
  /-- It is a tensor without axes. -/
  | shapeless {t : DataType} {x : Tensor} (hb : b.value = .tensor x) (hx : x.rank = 0) :
      Unconvertible b t .wrongShape
  /-- Its first number is not finite and wanted as an integer. -/
  | unbounded {t : DataType} {x : Double} {f : Fault} (ht : t = .int ∨ t = .uint)
      (hb : b.numbers.head? = some (.float x)) (hx : x.Unbounded f) : Unconvertible b t f

theorem plainValue_eq_error_iff :
    plainValue v = .error f ↔ f = .wrongShape ∧ ∃ x, v = .tensor x ∧ x.rank = 0 := by
  cases v with
  | tensor x =>
    by_cases hx : x.rank = 0
    · simp [plainValue, hx, eq_comm]
    · simp [plainValue, hx]
  | _ => simp [plainValue]

/-- The first of some numbers, or zero. -/
def leading (ns : List Number) : Number :=
  ns.headD (.float .zero)

/-- A scalar can be made of a number, unless this has no integer part and one is wanted. -/
theorem scalarValue_eq_error_iff {n : Number} :
    scalarValue t n = .error f ↔ (t = .int ∨ t = .uint) ∧ n.trunc = .error f := by
  have hmap : n.trunc.map Value.int = .error f ↔ n.trunc = .error f := by
    cases n.trunc <;> simp [Except.map]
  cases t with
  | int | uint => simpa [scalarValue] using hmap
  | _ => simp [scalarValue]

/-- All that a conversion can do: it gives the default, a vector of the numbers of the value, padded
with zeros, or its first number as a scalar. -/
theorem convert_cases (t : DataType) (v : Value) :
    (convert t v = .ok (t.defaultValue defaultLength) ∧ (t.isScalar = true → v.numbers = [])) ∨
      (t.isVector = true ∧ ∃ ns : List Number, convert t v = .ok (.list (ns.map .number)) ∧
        ns.length = t.components ∧ ns.head? = some (leading v.numbers) ∧
        ∀ n ∈ ns, n = .float .zero ∨ n ∈ v.numbers) ∨
      (t.isScalar = true ∧ convert t v = scalarValue t (leading v.numbers)) := by
  have hpos := t.components_pos
  unfold convert
  split
  · next hplain =>
    refine Or.inl ⟨rfl, fun hscalar => ?_⟩
    cases t <;> simp_all [DataType.isSampler, DataType.isArray, DataType.isMatrix, DataType.isScalar]
  next hplain =>
  have hscalar (hv : ¬ t.isVector = true) : t.isScalar = true := by
    cases t <;> simp_all [DataType.isSampler, DataType.isArray, DataType.isMatrix,
      DataType.isVector, DataType.isScalar]
  cases v with
  | number n =>
    right
    dsimp only
    split
    · next hv =>
      refine Or.inl ⟨hv, List.replicate t.components n, ?_, List.length_replicate, ?_, ?_⟩
      · rw [List.map_replicate]
      · rw [List.head?_replicate, if_neg (Nat.ne_of_gt hpos)]
        rfl
      · intro m hm
        rw [List.eq_of_mem_replicate hm]
        exact Or.inr List.mem_cons_self
    · next hv => exact Or.inr ⟨hscalar hv, rfl⟩
  | list items =>
    dsimp only
    split
    · next hall =>
      refine Or.inl ⟨rfl, fun _ => if_neg ?_⟩
      simpa using hall
    next hall =>
    obtain ⟨ns, rfl⟩ := Value.exists_eq_map (by simpa using hall)
    right
    rw [Value.numbers_list]
    split
    · next hv =>
      refine Or.inl ⟨hv, ns.take t.components ++
        List.replicate (t.components - ns.length) (.float .zero), ?_, ?_, ?_, ?_⟩
      · rw [vectorValue, List.map_append, List.map_take, List.map_replicate, List.length_map]
        rfl
      · rw [List.length_append, List.length_take, List.length_replicate]
        omega
      · cases ns with
        | nil =>
          rw [List.take_nil, List.nil_append, List.head?_replicate]
          exact if_neg (Nat.ne_of_gt hpos)
        | cons n ns =>
          obtain ⟨k, hk⟩ := Nat.exists_eq_add_of_lt hpos
          rw [hk, Nat.zero_add, List.take_succ_cons]
          rfl
      · intro n hn
        rcases List.mem_append.1 hn with hn | hn
        · exact Or.inr (List.mem_of_mem_take hn)
        · exact Or.inl (List.eq_of_mem_replicate hn)
    · next hv => cases ns <;> exact Or.inr ⟨hscalar hv, rfl⟩
  | _ => exact Or.inl ⟨rfl, fun _ => rfl⟩

theorem trunc_zero : (Number.float .zero).trunc = .ok 0 := by
  decide +kernel

theorem convert_eq_error_iff :
    convert t v = .error f ↔
      (t = .int ∨ t = .uint) ∧ ∃ x, v.numbers.head? = some (.float x) ∧ x.Unbounded f := by
  have hhead : (leading v.numbers).trunc = .error f ↔
      ∃ x, v.numbers.head? = some (.float x) ∧ x.Unbounded f := by
    cases hn : v.numbers with
    | nil => simp [leading, trunc_zero]
    | cons n ns => simp [leading, Number.trunc_eq_error_iff]
  rcases convert_cases t v with ⟨h, hnil⟩ | ⟨hv, ns, h, -⟩ | ⟨-, h⟩
  · rw [h]
    refine iff_of_false (fun h => by cases h) ?_
    rintro ⟨ht, x, hx, -⟩
    rw [hnil (by rcases ht with rfl | rfl <;> rfl)] at hx
    cases hx
  · rw [h]
    refine iff_of_false (fun h => by cases h) ?_
    rintro ⟨rfl | rfl, -⟩ <;> cases hv
  · rw [h, scalarValue_eq_error_iff, hhead]

/-- Exactly these values cannot be converted. -/
theorem migrate_eq_error_iff : migrate (some b) t = .error f ↔ b.Unconvertible t f := by
  cases hp : plainValue b.value with
  | error f' =>
    obtain ⟨rfl, x, hx, hrank⟩ := plainValue_eq_error_iff.1 hp
    have hm : migrate (some b) t = .error .wrongShape := by
      simp only [migrate, hp]
      rfl
    have hnone : b.numbers = [] := by rw [numbers, hp]
    rw [hm]
    constructor
    · rintro ⟨⟩
      exact .shapeless hx hrank
    · rintro (_ | ⟨-, hhead, -⟩)
      · rfl
      · rw [hnone] at hhead
        cases hhead
  | ok v =>
    have hm : migrate (some b) t = .error f ↔ convert t v = .error f := by
      simp only [migrate, hp]
      show (convert t v >>= fun value => pure _) = _ ↔ _
      cases convert t v <;> simp [bind, Except.bind, pure, Except.pure]
    have hnumbers : b.numbers = v.numbers := by rw [numbers, hp]
    rw [hm, convert_eq_error_iff, ← hnumbers]
    constructor
    · rintro ⟨ht, x, hx, hf⟩
      exact .unbounded ht hx hf
    · rintro (⟨hx, hrank⟩ | ⟨ht, hx, hf⟩)
      · cases hp.symm.trans (plainValue_eq_error_iff.2 ⟨rfl, _, hx, hrank⟩)
      · exact ⟨ht, _, hx, hf⟩

/-! ### Values made of others -/

/-- The numbers of the defaults. -/
def basics : List Number :=
  [.float .zero, .float .one, .int 0]

/-- Some numbers and their integer parts. -/
def withParts (ns : List Number) : List Number :=
  ns ++ ns.filterMap fun n => n.trunc.toOption.map .int

theorem mem_withParts {ns : List Number} {n : Number} :
    n ∈ withParts ns ↔ n ∈ ns ∨ ∃ m ∈ ns, ∃ k, m.trunc = .ok k ∧ n = .int k := by
  have hpart (m : Number) : m.trunc.toOption.map .int = some n ↔ ∃ k, m.trunc = .ok k ∧ n = .int k := by
    cases m.trunc <;> simp [Except.toOption, eq_comm]
  simp only [withParts, List.mem_append, List.mem_filterMap, hpart]

theorem int_mem_withParts {ns : List Number} {n : Number} {k : Int} (hn : n ∈ withParts ns)
    (hk : n.trunc = .ok k) : .int k ∈ withParts ns := by
  rcases mem_withParts.1 hn with hn | ⟨m, hm, j, hj, rfl⟩
  · exact mem_withParts.2 (Or.inr ⟨n, hn, k, hk, rfl⟩)
  · cases hk
    exact mem_withParts.2 (Or.inr ⟨m, hm, k, hj, rfl⟩)

/-- What the first number of a value may become. -/
def leads (o : Option BoundValue) : List Number :=
  withParts (basics ++ ((o.map numbers).getD []).head?.toList)

/-- What the numbers of a value may become. -/
def stock (o : Option BoundValue) : List Number :=
  withParts (basics ++ (o.map numbers).getD [])

theorem mem_withParts_of_basic {ns : List Number} {n : Number} (h : n ∈ basics) :
    n ∈ withParts (basics ++ ns) :=
  mem_withParts.2 (Or.inl (List.mem_append_left _ h))

theorem leads_subset_stock : leads o ⊆ stock o := by
  intro n hn
  have hsub {m : Number} (hm : m ∈ basics ++ ((o.map numbers).getD []).head?.toList) :
      m ∈ basics ++ (o.map numbers).getD [] := by
    refine List.mem_append.2 ((List.mem_append.1 hm).imp_right fun hm => ?_)
    exact List.mem_of_mem_head? (Option.mem_toList.1 hm)
  rcases mem_withParts.1 hn with hn | ⟨m, hm, hk⟩
  · exact mem_withParts.2 (Or.inl (hsub hn))
  · exact mem_withParts.2 (Or.inr ⟨m, hsub hm, hk⟩)

/-- What conversions make of a bound value. -/
inductive Converted (o : Option BoundValue) : Value → Prop
  | default (t : DataType) : Converted o (t.defaultValue defaultLength)
  | truth (b : Bool) : Converted o (.bool b)
  | scalar {n : Number} (hn : n ∈ leads o) : Converted o (.number n)
  | vector {ns : List Number} (hhead : ∀ n ∈ ns.head?, n ∈ leads o) (hall : ∀ n ∈ ns, n ∈ stock o)
      (hlen : ns.length ≤ 4) : Converted o (.list (ns.map .number))

/-- A bound value that was made of another. -/
structure Derived (o : Option BoundValue) (b : BoundValue) : Prop where
  value : (∃ a ∈ o, b.value = a.value) ∨ Converted o b.value
  widget : b.widget = .null ∨ ∃ a ∈ o, b.widget = a.widget
  settings : b.settings = .empty ∨ ∃ a ∈ o, b.settings = a.settings

theorem derived_self {a : BoundValue} : Derived (some a) a :=
  ⟨Or.inl ⟨a, rfl, rfl⟩, Or.inr ⟨a, rfl, rfl⟩, Or.inr ⟨a, rfl, rfl⟩⟩

theorem mem_basics_of_default {n : Number} (h : n ∈ (t.defaultValue defaultLength).numbers) :
    n ∈ basics := by
  have hall : ∀ t ∈ DataType.all, ∀ n ∈ (t.defaultValue defaultLength).numbers, n ∈ basics := by
    decide +kernel
  exact hall t (DataType.mem_all t) n h

/-- The numbers of a value that was converted, the first of them in particular. -/
theorem Converted.numbers (h : Converted o v) :
    (∀ n ∈ v.numbers.head?, n ∈ leads o) ∧ ∀ n ∈ v.numbers, n ∈ stock o := by
  cases h with
  | default t =>
    refine ⟨fun n hn => ?_, fun n hn => mem_withParts_of_basic (mem_basics_of_default hn)⟩
    exact mem_withParts_of_basic (mem_basics_of_default (List.mem_of_mem_head? hn))
  | truth b => exact ⟨fun n hn => (by cases hn), fun n hn => (by cases hn)⟩
  | scalar hn =>
    refine ⟨fun m hm => ?_, fun m hm => ?_⟩
    · cases hm
      exact hn
    · cases List.mem_singleton.1 hm
      exact leads_subset_stock hn
  | vector hhead hall hlen =>
    rw [Value.numbers_list]
    exact ⟨hhead, hall⟩

theorem Converted.plainValue_eq (h : Converted o v) : plainValue v = .ok v := by
  cases h with
  | default t => cases t <;> rfl
  | _ => rfl

theorem Derived.numbers (h : Derived o b) :
    (∀ n ∈ b.numbers.head?, n ∈ leads o) ∧ ∀ n ∈ b.numbers, n ∈ stock o := by
  rcases h.value with ⟨a, ha, hv⟩ | hc
  · have heq : b.numbers = (o.map BoundValue.numbers).getD [] := by
      rw [BoundValue.numbers, hv, Option.mem_def.1 ha]
      rfl
    rw [heq]
    refine ⟨fun n hn => ?_, fun n hn => ?_⟩
    · exact mem_withParts.2 (Or.inl (List.mem_append_right _ (Option.mem_toList.2 hn)))
    · exact mem_withParts.2 (Or.inl (List.mem_append_right _ hn))
  · have heq : b.numbers = b.value.numbers := by rw [BoundValue.numbers, hc.plainValue_eq]
    rw [heq]
    exact hc.numbers

/-- A conversion makes of the numbers of a value what conversions may make of them. -/
theorem converted_of_convert (hhead : ∀ n ∈ v.numbers.head?, n ∈ leads o)
    (hall : ∀ n ∈ v.numbers, n ∈ stock o) (h : convert t v = .ok w) : Converted o w := by
  have hzero : .float .zero ∈ leads o := mem_withParts_of_basic List.mem_cons_self
  have hlead : leading v.numbers ∈ leads o := by
    cases hn : v.numbers with
    | nil => exact hzero
    | cons n ns => exact hhead n (by rw [hn]; rfl)
  rcases convert_cases t v with ⟨hc, -⟩ | ⟨hv, ns, hc, hlen, hns, hmem⟩ | ⟨hs, hc⟩
  · cases hc.symm.trans h
    exact .default t
  · cases hc.symm.trans h
    refine .vector (fun n hn => ?_) (fun n hn => ?_) ?_
    · rw [hns] at hn
      cases hn
      exact hlead
    · rcases hmem n hn with rfl | hn
      · exact leads_subset_stock hzero
      · exact hall n hn
    · rw [hlen]
      cases t <;> first | decide | cases hv
  · rw [hc] at h
    cases t with
    | int | uint =>
      obtain ⟨k, hk, rfl⟩ : ∃ k, (leading v.numbers).trunc = .ok k ∧ Value.int k = w := by
        cases hk : (leading v.numbers).trunc <;> simp_all [scalarValue, Except.map]
      exact .scalar (int_mem_withParts hlead hk)
    | bool =>
      cases h
      exact .truth _
    | float =>
      cases h
      exact .scalar hlead
    | _ => cases hs

/-- What blames a bound value that was made of another blames that one. -/
theorem Derived.unconvertible (h : Derived o b) (hb : b.Unconvertible t f) :
    ∃ a ∈ o, a.Unconvertible t f := by
  cases hb with
  | shapeless hx hrank =>
    rcases h.value with ⟨a, ha, hv⟩ | hc
    · exact ⟨a, ha, .shapeless (hv.symm.trans hx) hrank⟩
    · rw [hx] at hc
      cases hc.plainValue_eq.symm.trans (plainValue_eq_error_iff.2 ⟨rfl, _, rfl, hrank⟩)
  | unbounded ht hhead hx =>
    have htrunc := Number.trunc_eq_error_iff.2 ⟨_, rfl, hx⟩
    -- Defaults and integer parts are finite, so it is the first number of the value before.
    rcases mem_withParts.1 (h.numbers.1 _ hhead) with hmem | ⟨_, _, _, _, heq⟩
    · rcases List.mem_append.1 hmem with hbasic | hmem
      · have hok : ∀ n ∈ basics, n.trunc.isOk = true := by decide +kernel
        have hx := hok _ hbasic
        rw [htrunc] at hx
        cases hx
      · have hmem := Option.mem_toList.1 hmem
        cases o with
        | none => cases hmem
        | some a => exact ⟨a, rfl, .unbounded ht hmem hx⟩
    · cases heq

/-- One conversion. -/
theorem Derived.migrate {bound : Option BoundValue} (h : ∀ b ∈ bound, Derived o b) (t : DataType) :
    Yields (migrate bound t) (Derived o) fun f => ∃ a ∈ o, a.Unconvertible t f := by
  refine yields_iff.2 ⟨fun c hc => ?_, fun f hf => ?_⟩
  · cases bound with
    | none =>
      cases hc
      exact ⟨Or.inr (.default t), Or.inl rfl, Or.inl rfl⟩
    | some b =>
      obtain ⟨v, hv, hc⟩ := Fault.bind_eq_ok_iff.1 hc
      obtain ⟨w, hw, hc⟩ := Fault.bind_eq_ok_iff.1 hc
      cases hc
      have hb := h b rfl
      have hnumbers : b.numbers = v.numbers := by rw [BoundValue.numbers, hv]
      obtain ⟨hhead, hall⟩ := hb.numbers
      rw [hnumbers] at hhead hall
      exact ⟨Or.inr (converted_of_convert hhead hall hw), hb.widget, hb.settings⟩
  · cases bound with
    | none => cases hf
    | some b => exact (h b rfl).unconvertible (migrate_eq_error_iff.1 hf)

/-- Bringing a value in line. -/
theorem Derived.conform {bound : Option BoundValue} (h : ∀ b ∈ bound, Derived o b) (t : DataType) :
    Yields (conform bound t) (Derived o) fun f => ∃ a ∈ o, a.Unconvertible t f := by
  cases bound with
  | none => exact Derived.migrate h t
  | some b =>
    have hb := h b rfl
    rw [BoundValue.conform]
    split
    · exact Derived.migrate h t
    · split
      · exact hb
      · exact ⟨Or.inr (.default t), hb.widget, hb.settings⟩

end BoundValue

/-! ### Nodes made of others -/

namespace Typing

open Source (Overload)
open BoundValue (Derived)

variable {g h : Graph} {nodes nodes' : Keyed Node} {n m : Node} {phase : Phase} {b : Bool}
  {done : List (Phase × String)}

/-- Ports without their types. -/
def labels (ports : List Port) : List (String × Option String) :=
  ports.map fun p => (p.id, p.name)

@[simp]
theorem labels_retype (ports : List Port) (updates : Keyed DataType) :
    labels (retype ports updates) = labels ports := by
  rw [retype_eq, labels, List.map_map]
  rfl

/-- The ports that a node may have, apart from their types. -/
def layouts (n : Node) : List (List (String × Option String)) :=
  [labels n.inputs, labels n.outputs] ++
    ((Source.overloads n.source).toOption.getD []).flatMap fun o => [labels o.inputs, labels o.outputs]

theorem mem_layouts_of_overload {all : List Overload} {o : Overload}
    (hall : Source.overloads n.source = .ok all) (ho : o ∈ all) :
    labels o.inputs ∈ layouts n ∧ labels o.outputs ∈ layouts n := by
  have hmem {l : List (String × Option String)} (hl : l ∈ [labels o.inputs, labels o.outputs]) :
      l ∈ layouts n := by
    rw [layouts, hall]
    exact List.mem_append_right _ (List.mem_flatMap.2 ⟨o, ho, hl⟩)
  exact ⟨hmem (by simp), hmem (by simp)⟩

/-- The inputs to which values may be bound. -/
def boundKeys (n : Node) : List String :=
  n.uniforms.keys ++ (layouts n).flatten.map (·.1)

theorem mem_boundKeys_of_layout {ports : List Port} (hl : labels ports ∈ layouts n) {p : Port}
    (hp : p ∈ ports) : p.id ∈ boundKeys n := by
  refine List.mem_append_right _ (List.mem_map.2 ⟨(p.id, p.name), ?_, rfl⟩)
  exact List.mem_flatten.2 ⟨_, hl, List.mem_map.2 ⟨p, hp, rfl⟩⟩

/-- The bound values were made of those of a node. -/
def ValuesFrom (n : Node) (uniforms : Keyed BoundValue) : Prop :=
  ∀ key b, uniforms.get? key = some b → key ∈ boundKeys n ∧ Derived (n.uniforms.get? key) b

/-- A bound value of the node cannot be converted to a type. -/
def Blames (n : Node) (t : DataType) (f : Fault) : Prop :=
  ∃ key a, n.uniforms.get? key = some a ∧ a.Unconvertible t f

theorem ValuesFrom.refl (n : Node) : ValuesFrom n n.uniforms := by
  intro key b hb
  refine ⟨List.mem_append_left _ (Keyed.mem_keys_of_get? hb), ?_⟩
  rw [hb]
  exact BoundValue.derived_self

theorem ValuesFrom.insert {uniforms : Keyed BoundValue} (hu : ValuesFrom n uniforms) {key : String}
    {b : BoundValue} (hk : key ∈ boundKeys n) (hb : Derived (n.uniforms.get? key) b) :
    ValuesFrom n (uniforms.insert key b) :=
  Keyed.forall_insert hu ⟨hk, hb⟩

section Values

variable {uniforms : Keyed BoundValue} {inputs : List Port}
  (hu : ValuesFrom n uniforms) (hi : labels inputs ∈ layouts n)
include hu hi

/-- The values of a compound whose inputs change their types. -/
theorem ValuesFrom.migrateInputs (updates : Keyed DataType) :
    Yields (migrateInputs updates inputs uniforms) (ValuesFrom n) fun f =>
      ∃ key t, updates.get? key = some t ∧ Blames n t f := by
  refine Yields.foldlM (fun uniforms port hport hu => ?_) hu
  split
  · next t ht =>
    split
    · exact hu
    · rw [yields_bind]
      refine (Derived.migrate (o := n.uniforms.get? port.id) (fun b hb => (hu _ b hb).2) t).mono
        (fun b hb => ?_) fun f ⟨a, ha, hf⟩ => ⟨port.id, t, ht, port.id, a, ha, hf⟩
      exact hu.insert (mem_boundKeys_of_layout hi hport) hb
  · exact hu

/-- The values of a node that are brought in line with its inputs. -/
theorem ValuesFrom.conformInputs :
    Yields (conformInputs inputs uniforms) (fun r => ValuesFrom n r.1) fun f =>
      ∃ port ∈ inputs, Blames n port.type f := by
  refine Yields.foldlM (fun r port hport hr => ?_) hu
  dsimp only
  split
  · exact hr
  · rw [yields_bind]
    refine (Derived.conform (o := n.uniforms.get? port.id) (fun b hb => (hr _ b hb).2) port.type).mono
      (fun b hb => ?_) fun f ⟨a, ha, hf⟩ => ⟨port, hport, port.id, a, ha, hf⟩
    exact hr.insert (mem_boundKeys_of_layout hi hport) hb

end Values

/-- A node has come from another, its ports from the node or its overloads and its values from those of
the node. -/
structure Drawn (n m : Node) : Prop where
  adjusted : Adjusted n m
  inputs : labels m.inputs ∈ layouts n
  outputs : labels m.outputs ∈ layouts n
  values : ValuesFrom n m.uniforms

namespace Drawn

theorem refl (n : Node) : Drawn n n where
  adjusted := Adjusted.refl n
  inputs := by simp [layouts]
  outputs := by simp [layouts]
  values := ValuesFrom.refl n

variable (hd : Drawn n m)
include hd

/-- A proxy with new types. -/
theorem retyped (side : Side) (updates : Keyed DataType) : Drawn n (side.retyped updates m) := by
  refine ⟨hd.adjusted.trans (side.adjusted_retyped updates m), ?_, ?_, ?_⟩ <;> cases side
  · exact hd.inputs
  · exact (labels_retype m.inputs updates).symm ▸ hd.inputs
  · exact (labels_retype m.outputs updates).symm ▸ hd.outputs
  · exact hd.outputs
  · exact hd.values
  · exact hd.values

/-- The owner of a proxy with new types. -/
theorem mirrored (side : Side) (updates : Keyed DataType) :
    Yields (side.mirrored updates m) (Drawn n) fun f =>
      side = .input ∧ ∃ key t, updates.get? key = some t ∧ Blames n t f := by
  cases side with
  | input =>
    rw [Side.mirrored, yields_bind]
    refine (hd.values.migrateInputs hd.inputs updates).mono (fun uniforms hu => ?_) fun f hf => ⟨rfl, hf⟩
    exact ⟨hd.adjusted.trans ⟨_, _, _, _⟩, (labels_retype m.inputs updates).symm ▸ hd.inputs,
      hd.outputs, hu⟩
  | output =>
    exact ⟨hd.adjusted.trans ⟨_, _, _, _⟩, hd.inputs,
      (labels_retype m.outputs updates).symm ▸ hd.outputs, hd.values⟩

/-- A node that is fitted to an overload. -/
theorem fit {all : List Overload} (hall : Source.overloads n.source = .ok all)
    {chosen : Option Overload} (hc : ∀ o ∈ chosen, o ∈ all) :
    Yields (fit m chosen) (fun r => ∀ k ∈ r, Drawn n k) fun f => ∃ t, Blames n t f := by
  obtain ⟨hin, hout⟩ : labels (withPorts m chosen).inputs ∈ layouts n ∧
      labels (withPorts m chosen).outputs ∈ layouts n := by
    cases chosen with
    | none => exact ⟨hd.inputs, hd.outputs⟩
    | some o => exact mem_layouts_of_overload hall (hc o rfl)
  have hadjusted (uniforms : Keyed BoundValue) :
      Adjusted m { withPorts m chosen with uniforms := uniforms } := by
    cases chosen <;> exact ⟨_, _, _, _⟩
  rw [Typing.fit, yields_bind]
  refine (hd.values.conformInputs hin).mono (fun r hr => ?_) fun f ⟨port, _, hf⟩ => ⟨_, hf⟩
  dsimp only
  split
  · rintro k ⟨⟩
  · rintro k ⟨⟩
    exact ⟨hd.adjusted.trans (hadjusted r.1), hin, hout, hr⟩

/-- What a step makes of a node. -/
theorem outcome (g : Graph) (nodes : Keyed Node) :
    Yields (outcome g nodes m) (fun r => ∀ k ∈ r, Drawn n k) fun f =>
      Source.overloads n.source = .error f ∨ ∃ t, Blames n t f := by
  rw [Typing.outcome, hd.adjusted.source_eq]
  split
  · rw [yields_bind]
    refine yields_iff.2 ⟨fun all hall => ?_, fun f hf => Or.inl hf⟩
    exact (hd.fit hall fun _ ho => mem_of_select? ho).mono (fun _ h => h) fun _ => Or.inr
  · rintro k ⟨⟩

end Drawn

/-! ### Steps -/

/-- All nodes have come from those of a graph. -/
def DrawnFrom (g : Graph) (nodes : Keyed Node) : Prop :=
  ∀ id m, nodes.get? id = some m → ∃ n, g.nodes.get? id = some n ∧ Drawn n m

theorem DrawnFrom.refl (g : Graph) : DrawnFrom g g.nodes :=
  fun _ m hm => ⟨m, hm, Drawn.refl m⟩

theorem DrawnFrom.insert (hd : DrawnFrom g nodes) {id : String} (hm : nodes.get? id = some m) {k : Node}
    (hk : ∀ n, Drawn n m → Drawn n k) : DrawnFrom g (nodes.insert id k) := by
  obtain ⟨n, hn, hnm⟩ := hd id m hm
  exact Keyed.forall_insert hd ⟨n, hn, hk n hnm⟩

/-- A step makes nothing up. -/
theorem DrawnFrom.exchange (hd : DrawnFrom g nodes) (hk : Kept h nodes) (hn : nodes.get? n.id = some n)
    (he : Exchange h nodes n phase nodes') : DrawnFrom g nodes' := by
  cases he with
  | alone => exact hd.insert hn fun _ hnm => hnm.retyped _ _
  | @mirrored side c c' _ _ ho hc =>
    have hadj := side.adjusted_retyped (side.updates h nodes n) n
    refine (hd.insert hn fun _ hnm => hnm.retyped _ _).insert ((hk.insert hn hadj).get?_of_owner? ho)
      fun k hkc => ?_
    exact (yields_iff.1 (hkc.mirrored side _)).1 c' hc
  | fitted _ ho =>
    refine hd.insert hn fun k hkn => ?_
    exact (yields_iff.1 (hkn.outcome h nodes)).1 _ ho _ rfl

theorem Steps.drawnFrom (hd : DrawnFrom g h.nodes) (hsteps : Steps h done b nodes) :
    DrawnFrom g nodes := by
  induction hsteps with
  | start => exact hd
  | idle _ _ _ ih => exact ih
  | exchange hsteps hn he ih => exact ih.exchange hsteps.kept hn he

/-- All rounds make nothing up. -/
theorem Reaches.drawnFrom {k : Nat} (hr : Reaches g k h) : DrawnFrom g h.nodes := by
  induction hr with
  | start => exact DrawnFrom.refl g
  | round _ hrun ih => exact (steps_of_round hrun).1.drawnFrom ih

end Typing

end RenderGraph
