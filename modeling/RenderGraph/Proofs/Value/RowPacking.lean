import RenderGraph.Proofs.Value.Packing

/-!
# Arrays of vectors, packed row by row

An array of vectors is written as a list of rows, one for each element. A row that is too short is filled
with zeros and one that is too long is cut, so that each row takes the width of an element. After that the
buffer as a whole is filled or cut to the capacity of the array. The two do not get in each other's way:
component `c` of row `i` is found at `i * width + c`, and all other entries are zero. This is so for every
capacity, as memory is taken as unbounded.

## Main definitions

* `packScalars`: packing of scalars that have been put in a row
* `rowCapacity`: the capacity of an array that some rows are packed to
* `Number.UploadsAs`: the entry that a number becomes

## Main results

* `getElem?_mapM`, `getElem?_padTo`, `getElem?_flatten_of_length`: where an entry comes from
* `packTo_rows`: the entries of a packed array of vectors
-/

namespace RenderGraph

/-! ### Where an entry comes from -/

section Entries

variable {α β : Type}

/-- The results of a loop stand where its items do. -/
theorem getElem?_mapM {f : α → Except Fault β} {l : List α} {bs : List β} (h : l.mapM f = .ok bs)
    (i : Nat) : (l[i]?).map f = (bs[i]?).map .ok := by
  induction l generalizing bs i with
  | nil =>
    cases h
    rfl
  | cons a l ih =>
    rw [List.mapM_cons] at h
    obtain ⟨b, hb, h⟩ := Fault.bind_eq_ok_iff.1 h
    obtain ⟨bs, hbs, h⟩ := Fault.bind_eq_ok_iff.1 h
    cases h
    cases i with
    | zero => simpa using hb
    | succ i => simpa using ih hbs i

/-- A list made up to a size has fillers behind its items. -/
theorem getElem?_padTo {size i : Nat} (hi : i < size) (filler : α) (xs : List α) :
    (padTo size filler xs)[i]? = some (xs[i]?.getD filler) := by
  rw [padTo]
  by_cases hx : i < xs.length
  · simp [List.getElem?_append_left hx, hx]
  · have hrest : i - xs.length < size - xs.length := by omega
    rw [List.getElem?_append_right (by omega), List.getElem?_replicate, if_pos hrest,
      List.getElem?_eq_none (by omega), Option.getD_none]

/-- In lists of one length, put in a row, an item is found by the place of its list and by its own. -/
theorem getElem?_flatten_of_length {w c : Nat} (hc : c < w) {ls : List (List α)}
    (h : ∀ l ∈ ls, l.length = w) (i : Nat) :
    ls.flatten[i * w + c]? = (ls[i]?).bind (·[c]?) := by
  induction ls generalizing i with
  | nil => simp
  | cons l ls ih =>
    have hl : l.length = w := h l List.mem_cons_self
    rw [List.flatten_cons]
    cases i with
    | zero =>
      rw [Nat.zero_mul, Nat.zero_add, List.getElem?_append_left (by omega)]
      rfl
    | succ i =>
      have hplace : (i + 1) * w + c = l.length + (i * w + c) := by
        rw [Nat.add_mul, Nat.one_mul, hl]
        omega
      rw [hplace, List.getElem?_append_right (by omega), Nat.add_sub_cancel_left]
      exact ih (fun l hm => h l (List.mem_cons_of_mem _ hm)) i

end Entries

namespace Value

@[simp]
theorem length_row (width : Nat) (items : List Value) : (row width items).length = width := by
  rw [row, List.length_append, List.length_take, List.length_replicate]
  omega

/-- A row has zeros behind its own items. -/
theorem getElem?_row {width c : Nat} (hc : c < width) (items : List Value) :
    (row width items)[c]? = some (items[c]?.getD (.float .zero)) := by
  have hpad : row width items = padTo width (.float .zero) (items.take width) := by
    rw [row, padTo, List.length_take]
    congr 2
    omega
  rw [hpad, getElem?_padTo hc, List.getElem?_take, if_pos hc]

end Value

/-! ### Scalars in a row -/

namespace Value

/-- The entry that a value becomes in a buffer of unsigned words. -/
def unsignedEntry (v : Value) : Except Fault UInt32 := do
  toUInt32 (max 0 (← (← v.finiteOrZero).trunc))

/-- The entry that a value becomes in a buffer of signed words. -/
def signedEntry (v : Value) : Except Fault Int32 := do
  toInt32 (← (← v.finiteOrZero).trunc)

/-- The entry that a value becomes in a buffer of truth values, which are words. -/
def flagEntry (v : Value) : Except Fault Int32 := do
  pure (if ← v.truth then 1 else 0)

/-- The entry that a value becomes in a buffer of single precision. -/
def floatEntry (v : Value) : Except Fault Single :=
  v.finiteOrZero.map Double.toSingle

end Value

/-- The buffer of some scalars, filled up to a size. -/
def packScalars (e : ArrayElement) (size : Nat) (scalars : List Value) : Except Fault Buffer :=
  match e with
  | .uint => (scalars.mapM Value.unsignedEntry).map fun xs => .uint32 (padTo size 0 xs)
  | .int => (scalars.mapM Value.signedEntry).map fun xs => .int32 (padTo size 0 xs)
  | .bool => (scalars.mapM Value.flagEntry).map fun xs => .int32 (padTo size 0 xs)
  | .float | .vec2 | .vec3 | .vec4 =>
    (scalars.mapM Value.floatEntry).map fun xs => .float32 (padTo size .zero xs)

/-- An array is packed from its scalars, those behind its capacity apart. -/
theorem packArray_eq (e : ArrayElement) (v : Value) (capacity : Nat) :
    packArray e v capacity = (v.flatten e.type.components).bind fun scalars =>
      packScalars e (capacity * e.type.components) (scalars.take (capacity * e.type.components)) := by
  rw [packArray]
  dsimp only
  cases v.flatten e.type.components with
  | error f => rfl
  | ok scalars => cases e <;> rfl

/-- Vectors are packed in single precision. -/
theorem packScalars_of_isVector {e : ArrayElement} (he : e.type.isVector = true) (size : Nat)
    (scalars : List Value) : packScalars e size scalars =
      (scalars.mapM Value.floatEntry).map fun xs => .float32 (padTo size .zero xs) := by
  cases e with
  | vec2 | vec3 | vec4 => rfl
  | _ => cases he

/-! ### Rows of numbers -/

/-- Rows of numbers, as a value. -/
def rowsValue (rows : List (List Number)) : Value :=
  .list (rows.map fun row => .list (row.map .number))

/-- The capacity of an array that some rows are packed to: the length that is asked for, and at least one;
if none is asked for, the number of rows, or the default where there are none. -/
def rowCapacity (rows : List (List Number)) (length : Option Int) : Nat :=
  match length with
  | some n => max 1 n.toNat
  | none => if rows.length = 0 then defaultLength else rows.length

/-- The number becomes the entry: it is brought to double and then to single precision, and it counts as zero
if it is not finite. -/
def Number.UploadsAs (n : Number) (x : Single) : Prop :=
  ∃ d, n.toDouble = .ok d ∧ x = (if d.isFinite then d else .zero).toSingle

theorem Number.uploadsAs_of_floatEntry {n : Number} {x : Single}
    (h : (Value.number n).floatEntry = .ok x) : n.UploadsAs x := by
  obtain ⟨finite, hfinite, rfl⟩ := Fault.map_eq_ok_iff.1 h
  obtain ⟨d, hd, rfl⟩ := Fault.map_eq_ok_iff.1 hfinite
  exact ⟨d, hd, rfl⟩

/-- Every number that is not too great becomes an entry. -/
theorem Number.exists_floatEntry {n : Number} (h : ¬ n.IsHuge) :
    ∃ x, (Value.number n).floatEntry = .ok x := by
  cases hf : (Value.number n).finiteOrZero with
  | ok d => exact ⟨d.toSingle, by rw [Value.floatEntry, hf]; rfl⟩
  | error f =>
    obtain ⟨⟨_, ⟨⟩, hhuge⟩, -⟩ := Value.finiteOrZero_eq_error_iff.1 hf
    exact absurd hhuge h

/-- The scalars of some rows, each of them filled or cut. -/
def rowScalars (width : Nat) (rows : List (List Number)) : List Value :=
  (rows.map fun row => Value.row width (row.map .number)).flatten

theorem flatten_rowsValue (width : Nat) (rows : List (List Number)) :
    (rowsValue rows).flatten width = .ok (rowScalars width rows) := by
  have hrows : (rows.map fun row => Value.list (row.map .number)).mapM (Value.rowOf width) =
      .ok (rows.map fun row => Value.row width (row.map .number)) := by
    induction rows with
    | nil => rfl
    | cons row rows ih =>
      rw [List.map_cons, List.mapM_cons, ih]
      rfl
  rw [rowsValue, Value.flatten, hrows]
  rfl

/-- The scalar that stands for a component of a row: its own number, or zero where the row has none. -/
theorem getElem?_rowScalars {width i c : Nat} (hc : c < width) (rows : List (List Number)) :
    (rowScalars width rows)[i * width + c]? =
      (rows[i]?).map fun row => .number ((row[c]?).getD (.float .zero)) := by
  rw [rowScalars, getElem?_flatten_of_length hc (by simp), List.getElem?_map]
  cases rows[i]? with
  | none => rfl
  | some row =>
    rw [Option.map_some, Option.bind_some, Option.map_some, Value.getElem?_row hc,
      List.getElem?_map]
    cases row[c]? <;> rfl

/-- The scalars of rows of numbers become entries if the numbers do. -/
theorem exists_mapM_floatEntry {rows : List (List Number)}
    (h : ∀ row ∈ rows, ∀ n ∈ row, ¬ n.IsHuge) (width size : Nat) :
    ∃ xs, ((rowScalars width rows).take size).mapM Value.floatEntry = .ok xs := by
  refine exists_mapM_of_forall fun v hv => ?_
  obtain ⟨_, hl, hv⟩ := List.mem_flatten.1 (List.mem_of_mem_take hv)
  obtain ⟨row, hrow, rfl⟩ := List.mem_map.1 hl
  rcases List.mem_append.1 hv with hv | hv
  · obtain ⟨n, hn, rfl⟩ := List.mem_map.1 (List.mem_of_mem_take hv)
    exact Number.exists_floatEntry (h row hrow n hn)
  · rw [List.eq_of_mem_replicate hv]
    exact Number.exists_floatEntry (by simp [Number.IsHuge])

theorem mul_add_lt_mul {i c capacity width : Nat} (hi : i < capacity) (hc : c < width) :
    i * width + c < capacity * width := by
  have hrow : (i + 1) * width ≤ capacity * width := Nat.mul_le_mul_right width hi
  rw [Nat.add_mul, Nat.one_mul] at hrow
  omega

/-- The entries of an array of vectors of a given capacity. -/
theorem packArray_rows {e : ArrayElement} (he : e.type.isVector = true) {rows : List (List Number)}
    (hrows : ∀ row ∈ rows, ∀ n ∈ row, ¬ n.IsHuge) (capacity : Nat) :
    ∃ xs : List Single, packArray e (rowsValue rows) capacity = .ok (.float32 xs) ∧
      xs.length = capacity * e.type.components ∧
      ∀ i < capacity, ∀ c < e.type.components, ∃ x, xs[i * e.type.components + c]? = some x ∧
        match (rows[i]?).bind (·[c]?) with
        | some n => n.UploadsAs x
        | none => x = .zero := by
  generalize hwidth : e.type.components = width
  obtain ⟨xs, hxs⟩ := exists_mapM_floatEntry hrows width (capacity * width)
  have hlength : xs.length ≤ capacity * width := by
    rw [length_of_mapM hxs]
    exact List.length_take_le _ _
  refine ⟨padTo (capacity * width) .zero xs, ?_, ?_, fun i hi c hc => ?_⟩
  · rw [packArray_eq, hwidth, flatten_rowsValue]
    show packScalars e _ _ = _
    rw [packScalars_of_isVector he, hxs]
    rfl
  · rw [length_padTo, Nat.max_eq_left hlength]
  · have hplace := mul_add_lt_mul hi hc
    refine ⟨_, getElem?_padTo hplace _ xs, ?_⟩
    -- The entry is made of the scalar at its place, if there is one.
    have hscalar := getElem?_mapM hxs (i * width + c)
    rw [List.getElem?_take, if_pos hplace, getElem?_rowScalars hc] at hscalar
    cases hrow : rows[i]? with
    | none =>
      rw [hrow] at hscalar
      rw [Option.map_eq_none_iff.1 hscalar.symm]
      rfl
    | some row =>
      rw [hrow] at hscalar
      obtain ⟨x, hx, hentry⟩ := Option.map_eq_some_iff.1 hscalar.symm
      dsimp only at hentry
      rw [hx, Option.getD_some, Option.bind_some]
      cases hn : row[c]? with
      | some n =>
        rw [hn] at hentry
        exact Number.uploadsAs_of_floatEntry hentry.symm
      | none =>
        rw [hn] at hentry
        have hzero : (Value.float .zero).floatEntry = .ok .zero := by decide +kernel
        exact Except.ok.inj (hentry.trans hzero)

/-- An array of vectors is packed from rows of numbers that fit double precision, whatever the widths of the
rows and the wanted length are; memory is taken as unbounded. There are as many entries as the capacity has components. Component `c` of
row `i` is found at `i * width + c`; all other entries are zero. -/
theorem packTo_rows {e : ArrayElement} (he : e.type.isVector = true) {rows : List (List Number)}
    (hrows : ∀ row ∈ rows, ∀ n ∈ row, ¬ n.IsHuge) (length : Option Int) :
    ∃ xs : List Single,
      packTo (.array e) (rowsValue rows) (length.map .int) = .ok (.tensor (.flat (.float32 xs))) ∧
      xs.length = rowCapacity rows length * e.type.components ∧
      ∀ i < rowCapacity rows length, ∀ c < e.type.components,
        ∃ x, xs[i * e.type.components + c]? = some x ∧
          match (rows[i]?).bind (·[c]?) with
          | some n => n.UploadsAs x
          | none => x = .zero := by
  obtain ⟨xs, hpack, hentries⟩ := packArray_rows he hrows (rowCapacity rows length)
  refine ⟨xs, ?_, hentries⟩
  have hcount : (rowsValue rows).elementCount (.array e) = rows.length := by
    simp [rowsValue, Value.elementCount]
  have hpack' : packTo (.array e) (rowsValue rows) (length.map .int) =
      (packArray e (rowsValue rows) (rowCapacity rows length)).map fun b => .tensor (.flat b) := by
    cases length with
    | some n => rfl
    | none =>
      show (packArray e (rowsValue rows) (max 1 (if (rowsValue rows).elementCount (.array e) = 0
        then defaultLength else (rowsValue rows).elementCount (.array e)))).map _ = _
      rw [hcount, rowCapacity]
      congr 2
      split
      · rfl
      · omega
  rw [hpack', hpack]
  rfl

/-- A row that is too short, one that is too long and one with a number that is not finite, packed to four
elements of three components. -/
def unevenRows : List (List Number) :=
  [[.int 1, .int 2], [.int 3, .int 4, .int 5, .int 6], [.float (.infinity false)]]

theorem packTo_rows_uneven :
    ArrayElement.vec3.type.isVector = true ∧
      (∀ row ∈ unevenRows, ∀ n ∈ row, ¬ n.IsHuge) ∧
      ∃ xs : List Single,
        packTo (.array .vec3) (rowsValue unevenRows) (some (.int 4)) =
          .ok (.tensor (.flat (.float32 xs))) ∧ xs.length = 12 ∧
        xs[2]? = some .zero ∧ (∃ x, xs[5]? = some x ∧ Number.UploadsAs (.int 5) x) ∧
        (∃ x, xs[6]? = some x ∧ Number.UploadsAs (.float (.infinity false)) x) ∧
        xs[9]? = some .zero := by
  have hfit : ∀ row ∈ unevenRows, ∀ n ∈ row, ¬ n.IsHuge := by
    have hsmall (k : Int) (hk : k.natAbs ≤ 6) : ¬ Number.IsHuge (.int k) :=
      Number.not_isHuge_of_lt (by omega)
    have hfloat : ¬ Number.IsHuge (.float (.infinity false)) := by simp [Number.IsHuge]
    simp [unevenRows, hsmall, hfloat]
  refine ⟨rfl, hfit, ?_⟩
  obtain ⟨xs, hpack, hlength, hentries⟩ := packTo_rows (e := .vec3) rfl hfit (some 4)
  obtain ⟨_, h₂, rfl⟩ := hentries 0 (by decide) 2 (by decide)
  obtain ⟨_, h₉, rfl⟩ := hentries 3 (by decide) 0 (by decide)
  exact ⟨xs, hpack, hlength, h₂, hentries 1 (by decide) 2 (by decide),
    hentries 2 (by decide) 0 (by decide), h₉⟩

end RenderGraph
