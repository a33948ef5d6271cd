import RenderGraph.Proofs.Value.RowPacking

/-!
# Tensors and the lists they are written out as

The elements of an array may be given as a tensor or as lists. The two are not read alike. A tensor with
one axis holds the components of the elements, a list with one level holds the elements themselves; and the
rows of a list are filled or cut to the width of an element, while a tensor is read through from its first
to its last number. So a tensor and the same numbers in lists need not give the same array, neither in its
capacity nor in its entries.

## Main definitions

* `rowsScalars`: the scalars of an array that is given as rows of one width
* `Tensor.CountsAlike`: the two forms imply the same number of elements
* `Tensor.EntriesAlike`: the two forms fill an array with the same entries

## Main results

* `packScalars_congr`, `packScalars_ne`: when two lists of scalars are packed alike
* `nested_agrees_iff`: when the two forms give the same array
* `pairs_differ_in_threes`: rows of two numbers for elements of three components
-/

namespace RenderGraph

/-! ### The written-out form -/

@[simp]
theorem volume_singleton (n : Nat) : volume [n] = n :=
  Nat.mul_one n

@[simp]
theorem volume_pair (n w : Nat) : volume [n, w] = n * w := by
  rw [volume, volume_singleton]

namespace Tensor

theorem length_items (t : Tensor) : t.items.length = volume t.shape := by
  rw [items, Buffer.length_items, t.size_buffer]

/-- Written out along one axis, the elements stand side by side. -/
theorem nest_singleton {n : Nat} {xs : List Value} (h : xs.length = n) : nest [n] xs = .list xs := by
  have hitem : (List.range n).map (fun i => nest [] ((xs.drop (i * volume [])).take (volume []))) =
      xs := by
    refine List.ext_getElem? fun i => ?_
    rw [List.getElem?_map]
    by_cases hi : i < n
    · have hx : i < xs.length := h ▸ hi
      have hdrop : xs.drop i = xs[i] :: xs.drop (i + 1) := List.drop_eq_getElem_cons hx
      rw [List.getElem?_range hi, Option.map_some, volume, Nat.mul_one, hdrop]
      exact (List.getElem?_eq_getElem hx).symm
    · rw [List.getElem?_eq_none (by simpa using hi), List.getElem?_eq_none (by omega),
        Option.map_none]
  rw [nest]
  exact congrArg Value.list hitem

theorem nested_of_shape_one {t : Tensor} {n : Nat} (h : t.shape = [n]) : t.nested = .list t.items := by
  have hlength : t.items.length = n := by rw [t.length_items, h, volume_singleton]
  rw [nested, h, nest_singleton hlength]

theorem nested_of_shape_two {t : Tensor} {n w : Nat} (h : t.shape = [n, w]) :
    t.nested = .list ((List.range n).map fun i => .list ((t.items.drop (i * w)).take w)) := by
  have hlength : t.items.length = n * w := by rw [t.length_items, h, volume_pair]
  rw [nested, h, nest, volume_singleton]
  refine congrArg Value.list (List.map_congr_left fun i hi => nest_singleton ?_)
  have hrow : (i + 1) * w ≤ n * w := Nat.mul_le_mul_right w (List.mem_range.1 hi)
  rw [Nat.add_mul, Nat.one_mul] at hrow
  rw [List.length_take, List.length_drop, hlength]
  omega

end Tensor

/-! ### The scalars of both forms -/

/-- An element of a tensor is no row. -/
theorem Buffer.rowOf_of_mem_items {b : Buffer} {v : Value} (h : v ∈ b.items) (width : Nat) :
    v.rowOf width = .ok [v] := by
  cases b with
  | _ xs =>
    obtain ⟨x, -, rfl⟩ := List.mem_map.1 h
    rfl

/-- A list of scalars is read as it is. -/
theorem Value.flatten_list_of_scalars {items : List Value} {width : Nat}
    (h : ∀ v ∈ items, v.rowOf width = .ok [v]) : (Value.list items).flatten width = .ok items := by
  have hrows : items.mapM (Value.rowOf width) = .ok (items.map fun v => [v]) := by
    induction items with
    | nil => rfl
    | cons v items ih =>
      rw [List.mapM_cons, h v List.mem_cons_self, ih fun v hv => h v (List.mem_cons_of_mem _ hv)]
      rfl
  have hflat : (items.map fun v => [v]).flatten = items := by
    rw [← List.flatMap_def, List.flatMap_singleton']
  rw [Value.flatten, hrows]
  exact congrArg Except.ok hflat

/-- The scalars of an array that is given as `n` rows of `w` scalars each. -/
def rowsScalars (width n w : Nat) (xs : List Value) : List Value :=
  ((List.range n).map fun i => Value.row width ((xs.drop (i * w)).take w)).flatten

theorem flatten_list_of_rows (width n w : Nat) (xs : List Value) :
    (Value.list ((List.range n).map fun i => .list ((xs.drop (i * w)).take w))).flatten width =
      .ok (rowsScalars width n w xs) := by
  have hrows (l : List Nat) :
      (l.map fun i => Value.list ((xs.drop (i * w)).take w)).mapM (Value.rowOf width) =
        .ok (l.map fun i => Value.row width ((xs.drop (i * w)).take w)) := by
    induction l with
    | nil => rfl
    | cons i l ih =>
      rw [List.map_cons, List.mapM_cons, ih]
      rfl
  rw [Value.flatten, hrows]
  rfl

/-- Component `c` of row `i` is a scalar of that row, unless there is no such row or it is too short. -/
theorem getD_rowsScalars {width n w i c : Nat} (hc : c < width) (xs : List Value) :
    (rowsScalars width n w xs)[i * width + c]?.getD (.float .zero) =
      if i < n ∧ c < w then xs[i * w + c]?.getD (.float .zero) else .float .zero := by
  rw [rowsScalars, getElem?_flatten_of_length hc (by simp), List.getElem?_map]
  by_cases hi : i < n
  · rw [List.getElem?_range hi, Option.map_some, Option.bind_some, Value.getElem?_row hc,
      Option.getD_some, List.getElem?_take, List.getElem?_drop]
    by_cases hw : c < w
    · rw [if_pos hw, if_pos ⟨hi, hw⟩]
    · rw [if_neg hw, if_neg fun h => hw h.2, Option.getD_none]
  · rw [List.getElem?_eq_none (by simpa using hi), if_neg fun h => hi h.1]
    rfl

/-! ### Scalars that are packed alike -/

section Packed

variable {β : Type} {f : Value → Except Fault β} {v : Value} {z : β} {xs ys : List Value}

theorem mapM_replicate (h : f v = .ok z) (m : Nat) :
    (List.replicate m v).mapM f = .ok (List.replicate m z) := by
  induction m with
  | zero => rfl
  | succ m ih =>
    rw [List.replicate_succ, List.mapM_cons, h, ih]
    rfl

/-- It does not matter whether the scalars or their entries are filled up. -/
theorem map_padTo_mapM_padTo (h : f v = .ok z) (size : Nat) (mk : List β → Buffer)
    (xs : List Value) : ((padTo size v xs).mapM f).map (fun bs => mk (padTo size z bs)) =
      (xs.mapM f).map fun bs => mk (padTo size z bs) := by
  rw [padTo, List.mapM_append, mapM_replicate h]
  cases hbs : xs.mapM f with
  | error f => rfl
  | ok bs =>
    have hlength : bs.length = xs.length := length_of_mapM hbs
    have hpad : padTo size z (bs ++ List.replicate (size - xs.length) z) = padTo size z bs := by
      rw [padTo, padTo, List.append_assoc, List.replicate_append_replicate, List.length_append,
        List.length_replicate]
      congr 2
      omega
    exact congrArg (fun bs => Except.ok (mk bs)) hpad

/-- Where the entries are filled up to one list, those at one place are equal. -/
theorem entry_eq_of_map_padTo {size : Nat} {mk : List β → Buffer} (hmk : Function.Injective mk)
    (hz : f v = .ok z) (hxs : ∃ as, xs.mapM f = .ok as)
    (h : (ys.mapM f).map (fun bs => mk (padTo size z bs)) =
      (xs.mapM f).map fun bs => mk (padTo size z bs)) {j : Nat} (hj : j < size) :
    f (ys[j]?.getD v) = f (xs[j]?.getD v) := by
  have hentry {xs : List Value} {as : List β} (has : xs.mapM f = .ok as) :
      (padTo size z as)[j]?.map .ok = some (f (xs[j]?.getD v)) := by
    have hplace := getElem?_mapM has j
    rw [getElem?_padTo hj, Option.map_some]
    cases hx : xs[j]? with
    | none =>
      rw [hx] at hplace
      rw [Option.map_eq_none_iff.1 hplace.symm]
      exact congrArg some hz.symm
    | some x =>
      rw [hx] at hplace
      obtain ⟨a, ha, hfa⟩ := Option.map_eq_some_iff.1 hplace.symm
      rw [ha]
      exact congrArg some hfa
  obtain ⟨as, has⟩ := hxs
  rw [has] at h
  obtain ⟨bs, hbs, hpad⟩ := Fault.map_eq_ok_iff.1 h
  have hsame : padTo size z bs = padTo size z as := hmk hpad
  exact Option.some.inj ((hentry hbs).symm.trans (hsame ▸ hentry has))

end Packed

/-- The buffer of some scalars depends on their entries only. -/
theorem packScalars_padTo (e : ArrayElement) (size : Nat) (xs : List Value) :
    packScalars e size (padTo size (.float .zero) xs) = packScalars e size xs := by
  cases e with
  | _ => exact map_padTo_mapM_padTo (by decide +kernel) size _ xs

/-- Scalars that agree at every place of the buffer are packed alike. -/
theorem packScalars_congr {e : ArrayElement} {size : Nat} {xs ys : List Value}
    (h : ∀ j < size, ys[j]?.getD (.float .zero) = xs[j]?.getD (.float .zero)) :
    packScalars e size (ys.take size) = packScalars e size (xs.take size) := by
  have hpad : padTo size (Value.float .zero) (ys.take size) =
      padTo size (.float .zero) (xs.take size) := by
    refine List.ext_getElem? fun j => ?_
    by_cases hj : j < size
    · rw [getElem?_padTo hj, getElem?_padTo hj, List.getElem?_take, List.getElem?_take, if_pos hj,
        if_pos hj, h j hj]
    · have hlong (l : List Value) : (padTo size (.float .zero) (l.take size)).length ≤ j := by
        rw [length_padTo, List.length_take]
        omega
      rw [List.getElem?_eq_none (hlong ys), List.getElem?_eq_none (hlong xs)]
  rw [← packScalars_padTo e size (ys.take size), hpad, packScalars_padTo]

/-- Zeros and a one are packed to a buffer that differs from that of scalars which are zero where the one
is. -/
theorem packScalars_ne {size j : Nat} (hj : j < size) {xs ys : List Value}
    (hxs : ∀ x ∈ xs, x = .int 0 ∨ x = .int 1) (hx : xs[j]?.getD (.float .zero) = .int 1)
    (hy : ys[j]?.getD (.float .zero) = .int 0 ∨ ys[j]?.getD (.float .zero) = .float .zero)
    (e : ArrayElement) : packScalars e size ys ≠ packScalars e size xs := by
  have hloop {β : Type} {f : Value → Except Fault β} {a b : β} (h₀ : f (.int 0) = .ok a)
      (h₁ : f (.int 1) = .ok b) : ∃ as, xs.mapM f = .ok as := by
    refine exists_mapM_of_forall fun x hm => ?_
    rcases hxs x hm with rfl | rfl
    · exact ⟨a, h₀⟩
    · exact ⟨b, h₁⟩
  -- The entry of the one differs from that of either zero.
  have hdiffer {β : Type} {f : Value → Except Fault β} {a b : β} (hab : a ≠ b)
      (h₀ : f (.int 0) = .ok a) (h₁ : f (.int 1) = .ok b) (hz : f (.float .zero) = .ok a)
      (mk : List β → Buffer) (hmk : Function.Injective mk) :
      (ys.mapM f).map (fun bs => mk (padTo size a bs)) ≠
        (xs.mapM f).map fun bs => mk (padTo size a bs) := by
    intro h
    have hentry := entry_eq_of_map_padTo hmk hz (hloop h₀ h₁) h hj
    rw [hx, h₁] at hentry
    rcases hy with hy | hy
    · rw [hy, h₀] at hentry
      exact hab (Except.ok.inj hentry)
    · rw [hy, hz] at hentry
      exact hab (Except.ok.inj hentry)
  cases e with
  | uint =>
    exact hdiffer (f := Value.unsignedEntry) (a := 0) (b := 1) (by decide) (by decide +kernel)
      (by decide +kernel) (by decide +kernel) .uint32 fun _ _ => Buffer.uint32.inj
  | int =>
    exact hdiffer (f := Value.signedEntry) (a := 0) (b := 1) (by decide) (by decide +kernel)
      (by decide +kernel) (by decide +kernel) .int32 fun _ _ => Buffer.int32.inj
  | bool =>
    exact hdiffer (f := Value.flagEntry) (a := 0) (b := 1) (by decide) (by decide +kernel)
      (by decide +kernel) (by decide +kernel) .int32 fun _ _ => Buffer.int32.inj
  | float | vec2 | vec3 | vec4 =>
    exact hdiffer (f := Value.floatEntry) (a := .zero) (b := Double.one.toSingle)
      (by decide +kernel) (by decide +kernel) (by decide +kernel) (by decide +kernel) .float32
      fun _ _ => Buffer.float32.inj

/-! ### Rows of one width -/

/-- Rows of `w` numbers, `n` of them, and the same numbers in a row put the same entries into an array of
`c` elements with `k` components each: the rows are as wide as the elements, there are no numbers at all,
the only row is at most as wide as an element, or the only element is at most as wide as a row. -/
def RowsAlike (k c n w : Nat) : Prop :=
  w = k ∨ n = 0 ∨ w = 0 ∨ (n = 1 ∧ w ≤ k) ∨ (c = 1 ∧ k ≤ w)

/-- Every place of the array is that of a component of an element. -/
theorem exists_place {j c k : Nat} (hj : j < c * k) : ∃ i < c, ∃ r < k, j = i * k + r := by
  have hk : 0 < k := Nat.pos_of_ne_zero fun h => by simp [h] at hj
  exact ⟨j / k, Nat.div_lt_of_lt_mul (by rwa [Nat.mul_comm] at hj), j % k, Nat.mod_lt j hk,
    (Nat.div_add_mod' j k).symm⟩

theorem RowsAlike.getD_rowsScalars {k c n w : Nat} (h : RowsAlike k c n w) {xs : List Value}
    (hxs : xs.length = n * w) {j : Nat} (hj : j < c * k) :
    (rowsScalars k n w xs)[j]?.getD (.float .zero) = xs[j]?.getD (.float .zero) := by
  obtain ⟨i, hi, r, hr, rfl⟩ := exists_place hj
  have hbeyond (hle : n * w ≤ i * k + r) : xs[i * k + r]?.getD (.float .zero) = Value.float .zero := by
    rw [List.getElem?_eq_none (hxs ▸ hle), Option.getD_none]
  rw [RenderGraph.getD_rowsScalars hr]
  split
  · next hin =>
    -- Where there is such a component, it is the scalar at the same place.
    have hplace : i * w = i * k := by
      rcases h with rfl | rfl | rfl | ⟨rfl, -⟩ | ⟨rfl, -⟩
      · rfl
      · omega
      · omega
      · rw [Nat.lt_one_iff.1 hin.1, Nat.zero_mul, Nat.zero_mul]
      · rw [Nat.lt_one_iff.1 hi, Nat.zero_mul, Nat.zero_mul]
    rw [hplace]
  · next hout =>
    -- Where there is none, the scalars have come to an end.
    refine (hbeyond ?_).symm
    rcases h with rfl | rfl | rfl | ⟨rfl, hw⟩ | ⟨rfl, hk⟩
    · have hn : n ≤ i := by omega
      exact (Nat.mul_le_mul_right w hn).trans (Nat.le_add_right _ _)
    · omega
    · omega
    · rcases Nat.eq_zero_or_pos i with rfl | hi
      · omega
      · have hrow : 1 * k ≤ i * k := Nat.mul_le_mul_right k hi
        omega
    · have hn : n = 0 := by omega
      rw [hn, Nat.zero_mul]
      exact Nat.zero_le _

namespace Tensor

/-- The tensor of a shape that has a one at a place and zeros everywhere else. -/
def single (shape : List Nat) (j : Nat) : Tensor :=
  ⟨shape, .int32 ((List.range (volume shape)).map fun i => if i = j then 1 else 0), by
    rw [Buffer.size, List.length_map, List.length_range]⟩

theorem getElem?_items_single {shape : List Nat} {i : Nat} (hi : i < volume shape) (j : Nat) :
    (single shape j).items[i]? = some (.int (if i = j then 1 else 0)) := by
  rw [items, single, Buffer.items, List.getElem?_map, List.getElem?_map, List.getElem?_range hi,
    Option.map_some]
  split <;> rfl

theorem eq_zero_or_one_of_mem_single {shape : List Nat} {j : Nat} {v : Value}
    (h : v ∈ (single shape j).items) : v = .int 0 ∨ v = .int 1 := by
  obtain ⟨x, hx, rfl⟩ := List.mem_map.1 h
  obtain ⟨i, -, rfl⟩ := List.mem_map.1 hx
  split
  · exact .inr rfl
  · exact .inl rfl

end Tensor

/-- If the rows do not put the same entries into the array, a one at the end of the first row or of the
first element, whichever comes first, has a zero in its place. -/
theorem getD_rowsScalars_of_not_rowsAlike {k c n w : Nat} (hk : 0 < k) (hc : 0 < c)
    (h : ¬ RowsAlike k c n w) :
    min w k < c * k ∧ min w k < volume [n, w] ∧
      ((rowsScalars k n w (Tensor.single [n, w] (min w k)).items)[min w k]?.getD (.float .zero) =
          .int 0 ∨
        (rowsScalars k n w (Tensor.single [n, w] (min w k)).items)[min w k]?.getD (.float .zero) =
          .float .zero) := by
  have hn (m : Nat) (hm : m ≤ n) : m * w ≤ n * w := Nat.mul_le_mul_right w hm
  have hsize (m : Nat) (hm : m ≤ c) : m * k ≤ c * k := Nat.mul_le_mul_right k hm
  simp only [RowsAlike, not_or, not_and] at h
  obtain ⟨hwk, hn₀, hw₀, hone, hcapacity⟩ := h
  rw [volume_pair]
  rcases Nat.lt_or_gt_of_ne hwk with hlt | hgt
  · -- The first row is filled up to the width of an element.
    have hsecond := hn 2 (by omega)
    have hfirst := hsize 1 (by omega)
    rw [Nat.min_eq_left hlt.le]
    refine ⟨by omega, by omega, .inr ?_⟩
    have hplace := getD_rowsScalars (n := n) (w := w) (i := 0) hlt (Tensor.single [n, w] w).items
    rwa [Nat.zero_mul, Nat.zero_add, if_neg fun h => h.2.false] at hplace
  · -- The first row is cut, so that the second element is the second row or empty.
    have hfirst := hn 1 (by omega)
    have hsecond := hsize 2 (by omega)
    rw [Nat.min_eq_right hgt.le]
    refine ⟨by omega, by omega, ?_⟩
    have hplace := getD_rowsScalars (n := n) (w := w) (i := 1) hk (Tensor.single [n, w] k).items
    rw [Nat.one_mul, Nat.add_zero, Nat.one_mul, Nat.add_zero] at hplace
    rw [hplace]
    split
    · next hrow =>
      have hw : w < volume [n, w] := by
        have hrows := hn 2 hrow.1
        rw [volume_pair]
        omega
      rw [Tensor.getElem?_items_single hw, if_neg (by omega)]
      exact .inl rfl
    · exact .inr rfl

/-! ### When the two forms agree -/

namespace Tensor

/-- A tensor and its written-out form imply the same number of elements of `k` components: it has two axes,
the elements have one component, or it is empty. -/
def CountsAlike (t : Tensor) (k : Nat) : Prop :=
  t.rank = 2 ∨ k = 1 ∨ t.buffer.size = 0

/-- Tensors of the shape and their written-out forms fill an array of `c` elements, of `k` components each,
with the same entries. With one axis they always do. -/
def EntriesAlike (shape : List Nat) (k c : Nat) : Prop :=
  ∀ n w, shape = [n, w] → RowsAlike k c n w

theorem shape_of_rank {t : Tensor} (h : t.rank = 1 ∨ t.rank = 2) :
    (∃ n, t.shape = [n]) ∨ ∃ n w, t.shape = [n, w] := by
  rw [rank] at h
  rcases h with h | h
  · exact .inl (List.length_eq_one_iff.1 h)
  · exact .inr (List.length_eq_two.1 h)

end Tensor

/-- The number of elements that a tensor implies, by the number of its axes. -/
theorem elementCount_tensor {t : Tensor} (e : ArrayElement) :
    (∀ n, t.shape = [n] → (Value.tensor t).elementCount (.array e) = n / e.type.components) ∧
      ∀ n w, t.shape = [n, w] → (Value.tensor t).elementCount (.array e) = n := by
  have hcomponents : (DataType.array e).components = e.type.components := by cases e <;> rfl
  refine ⟨fun n h => ?_, fun n w h => ?_⟩
  · have hsize : t.buffer.size = n := by rw [t.size_buffer, h, volume_singleton]
    have hrank : ¬ 1 < t.rank := by simp [Tensor.rank, h]
    rw [Value.elementCount, if_neg hrank, hcomponents, hsize]
    split
    · next hone => rw [hone, Nat.div_one]
    · rfl
  · have hrank : 1 < t.rank := by simp [Tensor.rank, h]
    rw [Value.elementCount, if_pos hrank, h]
    rfl

theorem elementCount_nested {t : Tensor} (ht : t.rank = 1 ∨ t.rank = 2) (e : ArrayElement) :
    t.nested.elementCount (.array e) = t.shape.headD 0 := by
  rcases Tensor.shape_of_rank ht with ⟨n, h⟩ | ⟨n, w, h⟩
  · have hlength : t.items.length = n := by rw [t.length_items, h, volume_singleton]
    rw [Tensor.nested_of_shape_one h, Value.elementCount, hlength, h]
    rfl
  · rw [Tensor.nested_of_shape_two h, Value.elementCount, List.length_map, List.length_range, h]
    rfl

theorem elementCount_nested_eq_iff {t : Tensor} (ht : t.rank = 1 ∨ t.rank = 2) (e : ArrayElement) :
    t.nested.elementCount (.array e) = (Value.tensor t).elementCount (.array e) ↔
      t.CountsAlike e.type.components := by
  rw [elementCount_nested ht]
  rcases Tensor.shape_of_rank ht with ⟨n, h⟩ | ⟨n, w, h⟩
  · have hsize : t.buffer.size = n := by rw [t.size_buffer, h, volume_singleton]
    have hrank : t.rank ≠ 2 := by simp [Tensor.rank, h]
    rw [(elementCount_tensor e).1 n h, h, Tensor.CountsAlike, hsize]
    have hdiv : n = n / e.type.components ↔ e.type.components = 1 ∨ n = 0 := by
      rw [eq_comm, Nat.div_eq_self]
      tauto
    simpa [hrank] using hdiv
  · rw [(elementCount_tensor e).2 n w h, h, Tensor.CountsAlike]
    simp [Tensor.rank, h]

/-- Without a stated length the value tells the capacity, and if it implies nothing, the fallback does. -/
theorem BoundValue.capacity_of_statedLength_none {b : BoundValue} (h : b.statedLength = .ok none)
    (t : DataType) (v : Value) (fallback : Number) :
    capacity t (some { b with value := v }) fallback =
      if 1 ≤ v.elementCount t then .ok (v.elementCount t) else fallbackCapacity fallback := by
  have hstated : statedLength { b with value := v } = .ok none := h
  rw [capacity, hstated]
  rfl

/-- With a stated length, or one that cannot be told, the value has no say. -/
theorem BoundValue.capacity_of_statedLength_ne {b : BoundValue} (h : b.statedLength ≠ .ok none)
    (t : DataType) (v w : Value) (fallback : Number) :
    capacity t (some { b with value := v }) fallback =
      capacity t (some { b with value := w }) fallback := by
  have hstated (v : Value) : statedLength { b with value := v } = b.statedLength := rfl
  rw [capacity, capacity, hstated v, hstated w]
  cases hb : b.statedLength with
  | error f => rfl
  | ok stated =>
    cases stated with
    | some length => rfl
    | none => exact absurd hb h

/-- An array has the same capacity for its value in either form if both forms imply the same number of
elements, if its length is stated, or if the tensor implies no elements and the fallback is as long as
the list. -/
theorem capacity_nested_eq_iff {t : Tensor} (ht : t.rank = 1 ∨ t.rank = 2) (e : ArrayElement)
    (b : BoundValue) (fallback : Number) :
    BoundValue.capacity (.array e) (some { b with value := t.nested }) fallback =
        BoundValue.capacity (.array e) (some { b with value := .tensor t }) fallback ↔
      t.CountsAlike e.type.components ∨ b.statedLength ≠ .ok none ∨
        ((Value.tensor t).elementCount (.array e) = 0 ∧
          BoundValue.fallbackCapacity fallback = .ok t.buffer.size) := by
  by_cases hcounts : t.CountsAlike e.type.components
  · have hsame := (elementCount_nested_eq_iff ht e).2 hcounts
    refine iff_of_true ?_ (.inl hcounts)
    unfold BoundValue.capacity
    dsimp only
    rw [hsame]
    rfl
  by_cases hb : b.statedLength = .ok none
  · -- The list implies its length, and the tensor fewer elements.
    have hdiffer := mt (elementCount_nested_eq_iff ht e).1 hcounts
    have hnested : t.nested.elementCount (.array e) = t.buffer.size := by
      rcases Tensor.shape_of_rank ht with ⟨n, h⟩ | ⟨n, w, h⟩
      · rw [elementCount_nested ht, t.size_buffer, h, volume_singleton]
        rfl
      · exact absurd (.inl (by simp [Tensor.rank, h])) hcounts
    have hpos : 1 ≤ t.buffer.size := Nat.pos_of_ne_zero fun h => hcounts (.inr (.inr h))
    rw [BoundValue.capacity_of_statedLength_none hb, BoundValue.capacity_of_statedLength_none hb,
      hnested, if_pos hpos]
    rw [hnested] at hdiffer
    split
    · next hcount =>
      have hzero : (Value.tensor t).elementCount (.array e) ≠ 0 := by omega
      simp [hcounts, hb, hzero, hdiffer]
    · next hcount =>
      have hzero : (Value.tensor t).elementCount (.array e) = 0 := by omega
      simp [hcounts, hb, hzero, eq_comm]
  · exact iff_of_true (BoundValue.capacity_of_statedLength_ne hb _ _ _ _) (.inr (.inl hb))

/-- The entries of an array for its value in either form, at one capacity. -/
theorem packArray_nested_iff {shape : List Nat} (hshape : shape.length = 1 ∨ shape.length = 2)
    (e : ArrayElement) {c : Nat} (hc : 0 < c) :
    (∀ u : Tensor, u.shape = shape → packArray e u.nested c = packArray e (.tensor u) c) ↔
      Tensor.EntriesAlike shape e.type.components c := by
  have htensor (u : Tensor) : packArray e (.tensor u) c =
      packScalars e (c * e.type.components) (u.items.take (c * e.type.components)) := by
    rw [packArray_eq]
    rfl
  rcases hshape with hshape | hshape
  · obtain ⟨n, rfl⟩ := List.length_eq_one_iff.1 hshape
    refine iff_of_true (fun u hu => ?_) fun _ _ h => by cases h
    have hscalars : (Value.list u.items).flatten e.type.components = .ok u.items :=
      Value.flatten_list_of_scalars fun v hv => Buffer.rowOf_of_mem_items hv _
    rw [htensor, packArray_eq, Tensor.nested_of_shape_one hu, hscalars]
    rfl
  · obtain ⟨n, w, rfl⟩ := List.length_eq_two.1 hshape
    have hnested {u : Tensor} (hu : u.shape = [n, w]) : packArray e u.nested c =
        packScalars e (c * e.type.components)
          ((rowsScalars e.type.components n w u.items).take (c * e.type.components)) := by
      rw [packArray_eq, Tensor.nested_of_shape_two hu, flatten_list_of_rows]
      rfl
    constructor
    · rintro h _ _ ⟨⟩
      by_contra hrows
      obtain ⟨hplace, hvolume, hzero⟩ :=
        getD_rowsScalars_of_not_rowsAlike e.type.components_pos hc hrows
      have hsame := h (.single [n, w] (min w e.type.components)) rfl
      rw [hnested rfl, htensor] at hsame
      refine packScalars_ne hplace ?_ ?_ ?_ e hsame
      · exact fun x hx => Tensor.eq_zero_or_one_of_mem_single (List.mem_of_mem_take hx)
      · rw [List.getElem?_take, if_pos hplace, Tensor.getElem?_items_single hvolume, if_pos rfl]
        rfl
      · rwa [List.getElem?_take, if_pos hplace]
    · intro h u hu
      have hlength : u.items.length = n * w := by rw [u.length_items, hu, volume_pair]
      rw [hnested hu, htensor]
      exact packScalars_congr fun j hj => (h n w rfl).getD_rowsScalars hlength hj

theorem pack_array_eq_iff {e : ArrayElement} {v w : Value} {c : Nat} (hc : 0 < c) :
    pack (.array e) v (some c) = pack (.array e) w (some c) ↔ packArray e v c = packArray e w c := by
  have hpack (v : Value) : pack (.array e) v (some c) =
      (packArray e v c).map fun b => .tensor (.flat b) := by
    rw [pack, Option.getD_some, Nat.max_eq_right hc]
  have hinjective : Function.Injective fun b => Value.tensor (.flat b) :=
    fun a b h => congrArg Tensor.buffer (Value.tensor.inj h)
  rw [hpack, hpack]
  refine ⟨fun h => ?_, congrArg _⟩
  cases hv : packArray e v c with
  | error f =>
    rw [hv] at h
    cases hw : packArray e w c with
    | error g =>
      rw [hw] at h
      exact congrArg Except.error (Except.error.inj h)
    | ok b =>
      rw [hw] at h
      cases h
  | ok a =>
    rw [hv] at h
    obtain ⟨b, hw, hb⟩ := Fault.map_eq_ok_iff.1 h.symm
    rw [hw, hinjective hb]

/-- A tensor with one or two axes and its written-out form, as the value of an array of any type. They imply
the same number of elements if the tensor has two axes, the elements have one component, or the tensor is
empty. The capacities agree in these cases, if a length is stated, and where the fallback happens to be the
length of the list. At one capacity, tensors of the shape and their written-out forms are packed to the same
buffer if there is one axis, the rows are as wide as the elements, there are no numbers at all, the only
row is at most as wide as an element, or the only element is at most as wide as a row. Otherwise they
differ. -/
theorem nested_agrees_iff {t : Tensor} (ht : t.rank = 1 ∨ t.rank = 2) (e : ArrayElement) :
    (t.nested.elementCount (.array e) = (Value.tensor t).elementCount (.array e) ↔
      t.CountsAlike e.type.components) ∧
    (∀ (b : BoundValue) (fallback : Number),
      BoundValue.capacity (.array e) (some { b with value := t.nested }) fallback =
          BoundValue.capacity (.array e) (some { b with value := .tensor t }) fallback ↔
        t.CountsAlike e.type.components ∨ b.statedLength ≠ .ok none ∨
          ((Value.tensor t).elementCount (.array e) = 0 ∧
            BoundValue.fallbackCapacity fallback = .ok t.buffer.size)) ∧
    ∀ c, 0 < c →
      ((∀ u : Tensor, u.shape = t.shape →
          pack (.array e) u.nested (some c) = pack (.array e) (.tensor u) (some c)) ↔
        Tensor.EntriesAlike t.shape e.type.components c) := by
  refine ⟨elementCount_nested_eq_iff ht e, capacity_nested_eq_iff ht e, fun c hc => ?_⟩
  rw [← packArray_nested_iff ht e hc]
  exact forall₂_congr fun u _ => pack_array_eq_iff hc

/-- Two rows of two numbers. -/
def pairs : Tensor where
  shape := [2, 2]
  buffer := .int32 [1, 2, 3, 4]
  size_buffer := rfl

theorem nested_agrees_iff_pairs :
    (pairs.rank = 1 ∨ pairs.rank = 2) ∧
      pairs.nested.elementCount (.array .vec2) = (Value.tensor pairs).elementCount (.array .vec2) ∧
      ∀ c, 0 < c →
        pack (.array .vec2) pairs.nested (some c) = pack (.array .vec2) (.tensor pairs) (some c) := by
  have ht : pairs.rank = 1 ∨ pairs.rank = 2 := .inr rfl
  obtain ⟨hcounts, -, hentries⟩ := nested_agrees_iff ht .vec2
  refine ⟨ht, hcounts.2 (.inl rfl), fun c hc => (hentries c hc).2 ?_ pairs rfl⟩
  rintro _ _ ⟨⟩
  exact .inl rfl

/-- Six numbers along one axis. -/
def sixInLine : Tensor :=
  .flat (.int32 [1, 2, 3, 4, 5, 6])

/-- For elements of three components, rows of two numbers are filled up in a list and read through in a
tensor, and six numbers are six elements as a list and two as a tensor. -/
theorem pairs_differ_in_threes :
    BoundValue.capacity (.array .vec3) (some { type := .array .vec3, value := pairs.nested })
        (.int 16) = .ok 2 ∧
      BoundValue.capacity (.array .vec3) (some { type := .array .vec3, value := .tensor pairs })
        (.int 16) = .ok 2 ∧
      pack (.array .vec3) pairs.nested (some 2) ≠ pack (.array .vec3) (.tensor pairs) (some 2) ∧
      sixInLine.nested.elementCount (.array .vec3) = 6 ∧
      (Value.tensor sixInLine).elementCount (.array .vec3) = 2 := by
  refine ⟨by decide +kernel, by decide +kernel, ?_, by decide +kernel, by decide +kernel⟩
  have hbuffers : packArray .vec3 pairs.nested 2 ≠ packArray .vec3 (.tensor pairs) 2 := by
    decide +kernel
  exact mt (pack_array_eq_iff (by decide)).1 hbuffers

end RenderGraph
