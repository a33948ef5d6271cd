import Mathlib.Tactic.Positivity
import Mathlib.Tactic.Ring
import RenderGraph.Proofs.Outcome
import RenderGraph.Value.Pack

/-!
# Values that cannot be packed

An integer is too great for double precision from the midpoint between the greatest double and the power
of two behind it on, that is, from `2 ^ 1024 - 2 ^ 970`. Packing passes through double precision, so
that no type but truth values takes such an integer. The elements of word arrays have to fit a word
besides, while the components of vectors may have any size. Everything else is packed: what is no number
counts as zero.

## Main definitions

* `Number.IsHuge`: an integer that is too great for double precision
* `ArrayElement.Rejects`: a scalar that is no element of an array
* `Unpackable`: a value that cannot be packed, and why

## Main results

* `Double.ofInt_eq_error_iff`: which integers are too great
* `failsFor_pack`: which values cannot be packed
* `BoundValue.failsFor_capacity`, `BoundValue.failsFor_statedIndex`: which lengths and indices cannot be
  found
-/

namespace RenderGraph

variable {α β : Type}

/-! ### Reasons of failure -/

/-- The computation fails for one of some reasons, and it fails if there is a reason. -/
structure FailsFor (x : Except Fault α) (E : Fault → Prop) : Prop where
  fails : FailsIn x E
  exists_error : (∃ f, E f) → ∃ f, x = .error f

namespace FailsFor

variable {x : Except Fault α} {E E' : Fault → Prop}

theorem of_iff (h : ∀ f, x = .error f ↔ E f) : FailsFor x E :=
  ⟨failsIn_iff.2 fun f => (h f).1, fun ⟨f, hf⟩ => ⟨f, (h f).2 hf⟩⟩

theorem of_eq_ok {a : α} (h : x = .ok a) (hE : ∀ f, ¬ E f) : FailsFor x E :=
  ⟨.of_eq_ok h, fun ⟨f, hf⟩ => absurd hf (hE f)⟩

theorem congr (h : FailsFor x E) (hE : ∀ f, E f ↔ E' f) : FailsFor x E' := by
  have hEE : E = E' := funext fun f => propext (hE f)
  rwa [← hEE]

/-- A computation fails in what its reasons imply. -/
theorem failsIn (h : FailsFor x E) (hE : ∀ f, E f → E' f) : FailsIn x E' :=
  h.fails.mono (fun _ _ => trivial) hE

theorem map (h : FailsFor x E) (g : α → β) : FailsFor (x.map g) E := by
  refine ⟨h.fails.map g, fun hE => ?_⟩
  obtain ⟨f, rfl⟩ := h.exists_error hE
  exact ⟨f, rfl⟩

/-- A sequence fails for the reasons of its parts. -/
theorem bind {g : α → Except Fault β} {F : α → Fault → Prop} (h : FailsFor x E)
    (hg : ∀ a, x = .ok a → FailsFor (g a) (F a)) :
    FailsFor (x >>= g) fun f => E f ∨ ∃ a, x = .ok a ∧ F a f := by
  cases x with
  | error f =>
    refine ⟨Or.inl (failsIn_iff.1 h.fails f rfl), fun _ => ⟨f, rfl⟩⟩
  | ok a =>
    refine ⟨(hg a rfl).failsIn fun f hf => Or.inr ⟨a, rfl, hf⟩, ?_⟩
    rintro ⟨f, hE | ⟨_, ⟨⟩, hF⟩⟩
    · obtain ⟨_, ⟨⟩⟩ := h.exists_error ⟨f, hE⟩
    · exact (hg a rfl).exists_error ⟨f, hF⟩

/-- A loop that collects results fails for the reasons of its rounds. -/
theorem mapM {g : α → Except Fault β} {F : α → Fault → Prop} {l : List α}
    (h : ∀ a ∈ l, FailsFor (g a) (F a)) : FailsFor (l.mapM g) fun f => ∃ a ∈ l, F a f := by
  induction l with
  | nil => exact of_eq_ok rfl (by simp)
  | cons a l ih =>
    have htail := ih fun c hc => h c (List.mem_cons_of_mem a hc)
    have hhead := h a List.mem_cons_self
    rw [List.mapM_cons]
    refine ⟨?_, ?_⟩
    · refine FailsIn.bind (hhead.failsIn fun f hf => ⟨a, List.mem_cons_self, hf⟩) fun b _ => ?_
      refine FailsIn.bind (htail.failsIn ?_) fun _ _ => trivial
      rintro f ⟨c, hc, hf⟩
      exact ⟨c, List.mem_cons_of_mem a hc, hf⟩
    · rintro ⟨f, c, hc, hf⟩
      cases hb : g a with
      | error f => exact ⟨f, rfl⟩
      | ok b =>
        rcases List.mem_cons.1 hc with rfl | hc
        · obtain ⟨_, he⟩ := hhead.exists_error ⟨f, hf⟩
          rw [hb] at he
          cases he
        · obtain ⟨f', he⟩ := htail.exists_error ⟨f, c, hc, hf⟩
          exact ⟨f', by rw [he]; rfl⟩

end FailsFor

/-! ### Integers in double precision -/

private theorem floorLogTwo_one {n : Nat} (hn : n ≠ 0) : floorLogTwo n 1 = n.log2 := by
  have hle : 2 ^ n.log2 ≤ n := Nat.log2_self_le hn
  have hone : Nat.log2 1 = 0 := by decide
  simp [floorLogTwo, scaleBinary, hone, Nat.pow_eq, hle]

/-- The code of an integer is made of its binary logarithm and of a ratio of 53 bits. -/
private theorem exists_code_one {n : Nat} (hn : n ≠ 0) :
    ∃ a b, doubleFormat.code n 1 =
        min doubleFormat.infinity ((n.log2 + 1022) * 2 ^ 52 + roundHalfEven a b) ∧
      (n.log2 < 52 ∧ a = n * 2 ^ (52 - n.log2) ∧ b = 1 ∨
        52 ≤ n.log2 ∧ a = n ∧ b = 2 ^ (n.log2 - 52)) := by
  have he : max (-((1074 : Nat) : Int)) ((n.log2 : Int) - ((53 - 1 : Nat) : Int)) =
      (n.log2 : Int) - 52 := by
    omega
  have hfield : ((n.log2 : Int) - 52 + ((1074 : Nat) : Int)).toNat = n.log2 + 1022 := by
    omega
  refine ⟨(scaleBinary n 1 (n.log2 - 52)).1, (scaleBinary n 1 (n.log2 - 52)).2, ?_, ?_⟩
  · rw [BinaryFormat.code, if_neg (by simp [hn]), floorLogTwo_one hn, ← hfield, ← he]
    rfl
  · rw [scaleBinary]
    by_cases h : n.log2 < 52
    · have hexp : (-((n.log2 : Int) - 52)).toNat = 52 - n.log2 := by omega
      rw [if_neg (by omega), hexp]
      exact Or.inl ⟨h, rfl, rfl⟩
    · have hexp : ((n.log2 : Int) - 52).toNat = n.log2 - 52 := by omega
      rw [if_pos (by omega), hexp]
      exact Or.inr ⟨by omega, rfl, Nat.one_mul _⟩

/-- The ratio has 53 bits. -/
private theorem div_of_code_one {n a b : Nat} (hn : n ≠ 0)
    (hab : n.log2 < 52 ∧ a = n * 2 ^ (52 - n.log2) ∧ b = 1 ∨
      52 ≤ n.log2 ∧ a = n ∧ b = 2 ^ (n.log2 - 52)) : 2 ^ 52 ≤ a / b ∧ a / b < 2 ^ 53 := by
  have hle : 2 ^ n.log2 ≤ n := Nat.log2_self_le hn
  have hlt : n < 2 ^ (n.log2 + 1) := Nat.lt_log2_self
  rcases hab with ⟨hl, rfl, rfl⟩ | ⟨hl, rfl, rfl⟩
  · have hlow : 2 ^ n.log2 * 2 ^ (52 - n.log2) = 2 ^ 52 := by
      rw [← pow_add]
      congr 1
      omega
    have hhigh : 2 ^ (n.log2 + 1) * 2 ^ (52 - n.log2) = 2 ^ 53 := by
      rw [← pow_add]
      congr 1
      omega
    rw [Nat.div_one, ← hlow, ← hhigh]
    exact ⟨Nat.mul_le_mul_right _ hle, Nat.mul_lt_mul_of_pos_right hlt (by positivity)⟩
  · have hlow : 2 ^ 52 * 2 ^ (a.log2 - 52) = 2 ^ a.log2 := by
      rw [← pow_add]
      congr 1
      omega
    have hhigh : 2 ^ 53 * 2 ^ (a.log2 - 52) = 2 ^ (a.log2 + 1) := by
      rw [← pow_add]
      congr 1
      omega
    rw [Nat.le_div_iff_mul_le (by positivity), Nat.div_lt_iff_lt_mul (by positivity), hlow, hhigh]
    exact ⟨hle, hlt⟩

/-- What lies within half a unit of `2 ^ 53` units is rounded up to it. -/
private theorem roundHalfEven_lt_iff {n h : Nat} (hh : 0 < h) (hn : n < 2 ^ 54 * h) :
    roundHalfEven n (2 * h) < 2 ^ 53 ↔ n < 2 ^ 54 * h - h := by
  have hsplit := Nat.div_add_mod n (2 * h)
  have hmod : n % (2 * h) < 2 * h := Nat.mod_lt n (by omega)
  have hquot : n / (2 * h) < 2 ^ 53 := by
    rw [Nat.div_lt_iff_lt_mul (by omega)]
    omega
  rw [roundHalfEven]
  generalize n / (2 * h) = q at *
  by_cases hq : q = 2 ^ 53 - 1
  · subst hq
    split
    · omega
    · split <;> omega
  · -- There is a whole unit to spare.
    have hspare : 2 * h * (q + 2) ≤ 2 * h * 2 ^ 53 := Nat.mul_le_mul_left _ (by omega)
    have hexpand : 2 * h * (q + 2) = 2 * h * q + 4 * h := by ring
    have hsmall : n < 2 ^ 54 * h - h := by omega
    simp only [hsmall, iff_true]
    split
    · omega
    · split <;> omega

private theorem two_pow_le_mul {k i j : Nat} (h : k ≤ i + j) : 2 ^ k ≤ 2 ^ i * 2 ^ j := by
  rw [← pow_add]
  exact Nat.pow_le_pow_right (by decide) h

private theorem mul_le_two_pow {k i j : Nat} (h : i + j ≤ k) : 2 ^ i * 2 ^ j ≤ 2 ^ k := by
  rw [← pow_add]
  exact Nat.pow_le_pow_right (by decide) h

/-- The least natural number that is too great for double precision: the midpoint between the greatest
double and the power of two behind it. -/
def Double.bound : Nat :=
  2 ^ 1024 - 2 ^ 970

theorem code_lt_infinity_iff (n : Nat) :
    doubleFormat.code n 1 < doubleFormat.infinity ↔ n < Double.bound := by
  have htop : 2 ^ 1024 = 2 ^ 54 * 2 ^ 970 := by rw [← pow_add]
  have hunit : 2 ^ 971 = 2 * 2 ^ 970 := by rw [← pow_succ']
  have hpos : 0 < 2 ^ 970 := by positivity
  rw [Double.bound, htop]
  by_cases hn : n = 0
  · subst hn
    exact iff_of_true (by decide) (by omega)
  obtain ⟨a, b, hcode, hab⟩ := exists_code_one hn
  obtain ⟨hlow, hhigh⟩ := div_of_code_one hn hab
  have hround := roundHalfEven_le a b
  have hround' := le_roundHalfEven a b
  have hle : 2 ^ n.log2 ≤ n := Nat.log2_self_le hn
  have hlt : n < 2 ^ (n.log2 + 1) := Nat.lt_log2_self
  have hinf : doubleFormat.infinity = 2047 * 2 ^ 52 := by decide
  rw [hcode, hinf, min_lt_iff]
  simp only [lt_self_iff_false, false_or]
  rcases lt_trichotomy n.log2 1023 with hl | hl | hl
  · have hpow : 2 ^ (n.log2 + 1) ≤ 2 ^ 53 * 2 ^ 970 := two_pow_le_mul (by omega)
    have hfield : (n.log2 + 1022) * 2 ^ 52 ≤ 2044 * 2 ^ 52 := Nat.mul_le_mul_right _ (by omega)
    generalize 2 ^ 970 = h at *
    omega
  · obtain ⟨-, rfl, rfl⟩ := hab.resolve_left (by omega)
    have hbelow : a < 2 ^ 54 * 2 ^ 970 := hlt.trans_le (two_pow_le_mul (by omega))
    rw [hl, hunit, ← roundHalfEven_lt_iff hpos hbelow]
    omega
  · have hpow : 2 ^ 54 * 2 ^ 970 ≤ 2 ^ n.log2 := mul_le_two_pow (by omega)
    have hfield : 2046 * 2 ^ 52 ≤ (n.log2 + 1022) * 2 ^ 52 := Nat.mul_le_mul_right _ (by omega)
    generalize 2 ^ 970 = h at *
    omega

variable {f : Fault}

/-- Which integers are too great for double precision. -/
theorem Double.ofInt_eq_error_iff {n : Int} :
    Double.ofInt n = .error f ↔ Double.bound ≤ n.natAbs ∧ f = .outOfRange := by
  rw [Double.ofInt]
  by_cases h : n.natAbs < Double.bound
  · simp [(code_lt_infinity_iff _).2 h, Nat.not_le.2 h]
  · simp only [mt (code_lt_infinity_iff _).1 h, if_false, Except.error.injEq, Nat.not_lt.1 h, true_and]
    exact eq_comm

namespace Number

/-- The number is an integer that is too great for double precision. -/
def IsHuge (n : Number) : Prop :=
  ∃ k : Int, n = .int k ∧ Double.bound ≤ k.natAbs

theorem toDouble_eq_error_iff {n : Number} : n.toDouble = .error f ↔ n.IsHuge ∧ f = .outOfRange := by
  cases n with
  | int k =>
    rw [toDouble, Double.ofInt_eq_error_iff]
    simp [IsHuge]
  | float x => simp [toDouble, IsHuge]

theorem not_isHuge_of_lt {k : Int} (h : k.natAbs ≤ 2 ^ 32) : ¬ IsHuge (.int k) := by
  have hlow : 2 ^ 32 < Double.bound := by
    rw [← code_lt_infinity_iff]
    decide
  rintro ⟨_, ⟨⟩, hk⟩
  omega

end Number

namespace Double

variable {x : Double}

theorem isNaN_eq_false (h : x.isFinite = true) : x.isNaN = false := by
  simp only [isFinite, isNaN, decide_eq_true_eq, decide_eq_false_iff_not] at h ⊢
  omega

/-- Why a double cannot be rounded: it is not finite. -/
inductive Unbounded (x : Double) : Fault → Prop
  | nan (h : x.isNaN = true) : Unbounded x .notNumeric
  | infinite (hn : x.isNaN = false) (h : x.isFinite = false) : Unbounded x .outOfRange

theorem Unbounded.isCompilation_eq_false (h : x.Unbounded f) : f.isCompilation = false := by
  rcases h with _ | _ <;> rfl

theorem toIntBy_eq_error_iff {rounding : Nat → Nat → Nat} :
    x.toIntBy rounding = .error f ↔ x.Unbounded f := by
  rw [toIntBy]
  constructor
  · intro h
    split at h
    · next hn =>
      cases h
      exact .nan hn
    · next hn =>
      split at h
      · cases h
      · next hx =>
        cases h
        exact .infinite (Bool.eq_false_iff.2 hn) (Bool.eq_false_iff.2 hx)
  · rintro (hn | ⟨hn, hx⟩)
    · rw [if_pos hn]
    · rw [if_neg (by simp [hn]), if_neg (by simp [hx])]

theorem exists_toIntBy (h : x.isFinite = true) (rounding : Nat → Nat → Nat) :
    ∃ n, x.toIntBy rounding = .ok n := by
  cases hr : x.toIntBy rounding with
  | ok n => exact ⟨n, rfl⟩
  | error f =>
    rcases toIntBy_eq_error_iff.1 hr with hn | ⟨-, hx⟩
    · rw [isNaN_eq_false h] at hn
      cases hn
    · rw [h] at hx
      cases hx

end Double

/-! ### Scalars -/

namespace Value

/-- The elements of a tensor are truth values and numbers. -/
theorem isScalar_of_mem_items {b : Buffer} {v : Value} (h : v ∈ b.items) :
    (∃ c, v = .bool c) ∨ ∃ n, v = .number n := by
  cases b with
  | bool xs =>
    obtain ⟨x, -, rfl⟩ := List.mem_map.1 h
    exact Or.inl ⟨x, rfl⟩
  | _ xs =>
    obtain ⟨x, -, rfl⟩ := List.mem_map.1 h
    exact Or.inr ⟨_, rfl⟩

/-- The elements of a tensor are small. -/
theorem not_isHuge_of_mem_items {b : Buffer} {n : Number} (h : .number n ∈ b.items) : ¬ n.IsHuge := by
  cases b with
  | float32 xs =>
    obtain ⟨x, -, ⟨⟩⟩ := List.mem_map.1 h
    simp [Number.IsHuge]
  | float64 xs =>
    obtain ⟨x, -, ⟨⟩⟩ := List.mem_map.1 h
    simp [Number.IsHuge]
  | int32 xs =>
    obtain ⟨x, -, ⟨⟩⟩ := List.mem_map.1 h
    have hlow := x.le_toInt
    have hhigh := x.toInt_lt
    exact Number.not_isHuge_of_lt (by omega)
  | uint32 xs =>
    obtain ⟨x, -, ⟨⟩⟩ := List.mem_map.1 h
    have hlt := x.toNat_lt
    exact Number.not_isHuge_of_lt (by omega)
  | bool xs =>
    obtain ⟨x, -, ⟨⟩⟩ := List.mem_map.1 h

theorem toDouble_eq_error_iff {v : Value} :
    v.toDouble = .error f ↔ (∃ n, v = .number n ∧ n.IsHuge) ∧ f = .outOfRange := by
  cases v with
  | number n =>
    rw [toDouble, Number.toDouble_eq_error_iff]
    simp
  | tensor t =>
    rw [toDouble]
    split
    · simp
    · next n hn =>
      have hsmall : ¬ n.IsHuge := not_isHuge_of_mem_items (b := t.buffer) (by
        rw [show t.buffer.items = _ from hn]
        exact List.mem_singleton_self _)
      simp [Number.toDouble_eq_error_iff, hsmall]
    · simp
  | _ => simp [toDouble]

theorem finiteOrZero_eq_error_iff {v : Value} :
    v.finiteOrZero = .error f ↔ (∃ n, v = .number n ∧ n.IsHuge) ∧ f = .outOfRange := by
  rw [← toDouble_eq_error_iff, finiteOrZero]
  cases v.toDouble <;> simp [Except.map]

theorem isFinite_of_finiteOrZero {v : Value} {x : Double} (h : v.finiteOrZero = .ok x) :
    x.isFinite = true := by
  rw [finiteOrZero] at h
  cases hd : v.toDouble with
  | error f => simp [hd, Except.map] at h
  | ok y =>
    rw [hd] at h
    cases h
    by_cases hy : y.isFinite = true
    · simp [hy]
    · have hzero : Double.zero.isFinite = true := by decide
      simpa [hy] using hzero

theorem truth_eq_error_iff {v : Value} :
    v.truth = .error f ↔ (∃ t, v = .tensor t ∧ t.buffer.size ≠ 1) ∧ f = .notNumeric := by
  cases v with
  | tensor t =>
    have hlength : t.items.length = t.buffer.size := t.buffer.length_items
    rw [truth]
    split
    · next b hb => simp [← hlength, hb]
    · next n hn => simp [← hlength, hn]
    · next hb hn =>
      have hne : t.buffer.size ≠ 1 := by
        rw [← hlength]
        intro hone
        obtain ⟨v, hv⟩ := List.length_eq_one_iff.1 hone
        obtain ⟨b, rfl⟩ | ⟨n, rfl⟩ := isScalar_of_mem_items (b := t.buffer) (v := v) (by
          rw [show t.buffer.items = _ from hv]
          exact List.mem_singleton_self _)
        · exact hb b hv
        · exact hn n hv
      simpa [hne] using eq_comm
  | _ => simp [truth]

end Value

theorem toInt32_eq_error_iff {n : Int} :
    toInt32 n = .error f ↔ (n < -2 ^ 31 ∨ 2 ^ 31 ≤ n) ∧ f = .outOfRange := by
  rw [toInt32]
  by_cases h : -0x80000000 ≤ n ∧ n < 0x80000000
  · simp only [h, and_self, if_true, reduceCtorEq, false_iff]
    omega
  · simp only [h, if_false, Except.error.injEq]
    have hout : n < -2 ^ 31 ∨ 2 ^ 31 ≤ n := by omega
    simpa only [hout, true_and] using eq_comm

theorem toUInt32_eq_error_iff {n : Int} :
    toUInt32 n = .error f ↔ (n < 0 ∨ 2 ^ 32 ≤ n) ∧ f = .outOfRange := by
  rw [toUInt32]
  by_cases h : 0 ≤ n ∧ n < 0x100000000
  · simp only [h, and_self, if_true, reduceCtorEq, false_iff]
    omega
  · simp only [h, if_false, Except.error.injEq]
    have hout : n < 0 ∨ 2 ^ 32 ≤ n := by omega
    simpa only [hout, true_and] using eq_comm

/-- Why a scalar is no element of an array: it is too great, does not fit a word, or is a tensor of
several truth values. -/
inductive ArrayElement.Rejects : ArrayElement → Value → Fault → Prop
  | huge {e : ArrayElement} {n : Number} (he : e ≠ .bool) (h : n.IsHuge) :
      Rejects e (.number n) .outOfRange
  | signed {v : Value} {x : Double} {n : Int} (hx : v.finiteOrZero = .ok x) (hn : x.trunc = .ok n)
      (h : n < -2 ^ 31 ∨ 2 ^ 31 ≤ n) : Rejects .int v .outOfRange
  | unsigned {v : Value} {x : Double} {n : Int} (hx : v.finiteOrZero = .ok x) (hn : x.trunc = .ok n)
      (h : 2 ^ 32 ≤ n) : Rejects .uint v .outOfRange
  | several {t : Tensor} (h : t.buffer.size ≠ 1) : Rejects .bool (.tensor t) .notNumeric

theorem ArrayElement.Rejects.isCompilation_eq_false {e : ArrayElement} {v : Value}
    (h : e.Rejects v f) : f.isCompilation = false := by
  rcases h with _ | _ | _ | _ <;> rfl

section Scalars

variable {v : Value}

private theorem failsFor_float {e : ArrayElement} (he : e ≠ .bool ∧ e ≠ .int ∧ e ≠ .uint) (v : Value) :
    FailsFor (v.finiteOrZero.map Double.toSingle) (e.Rejects v) := by
  refine (FailsFor.of_iff fun f => Value.finiteOrZero_eq_error_iff.trans ⟨?_, ?_⟩).map _
  · rintro ⟨⟨n, rfl, hn⟩, rfl⟩
    exact .huge he.1 hn
  · rintro (⟨-, hn⟩ | _ | _ | _)
    · exact ⟨⟨_, rfl, hn⟩, rfl⟩
    · exact absurd rfl he.2.1
    · exact absurd rfl he.2.2
    · exact absurd rfl he.1

/-- A word array takes what has an integer part that fits a word. -/
private theorem word_eq_error_iff {store : Int → Except Fault β} {P : Int → Prop}
    (hs : ∀ n f, store n = .error f ↔ P n ∧ f = .outOfRange) :
    (do store (← (← v.finiteOrZero).trunc)) = .error f ↔
      ((∃ n, v = .number n ∧ n.IsHuge) ∨
        ∃ x n, v.finiteOrZero = .ok x ∧ x.trunc = .ok n ∧ P n) ∧ f = .outOfRange := by
  cases hx : v.finiteOrZero with
  | error f' =>
    obtain ⟨hhuge, rfl⟩ := Value.finiteOrZero_eq_error_iff.1 hx
    simp [bind, Except.bind, hhuge, eq_comm]
  | ok x =>
    have hsmall : ¬ ∃ n, v = .number n ∧ n.IsHuge := fun h => by
      rw [Value.finiteOrZero_eq_error_iff.2 ⟨h, rfl⟩] at hx
      cases hx
    obtain ⟨n, hn⟩ : ∃ n, x.trunc = .ok n :=
      Double.exists_toIntBy (Value.isFinite_of_finiteOrZero hx) _
    simp [bind, Except.bind, hsmall, hn, hs]

private theorem failsFor_signed (v : Value) :
    FailsFor (do toInt32 (← (← v.finiteOrZero).trunc)) (ArrayElement.int.Rejects v) := by
  refine .of_iff fun f => (word_eq_error_iff fun _ _ => toInt32_eq_error_iff).trans ⟨?_, ?_⟩
  · rintro ⟨⟨n, rfl, hn⟩ | ⟨x, n, hx, hn, h⟩, rfl⟩
    · exact .huge (by decide) hn
    · exact .signed hx hn h
  · rintro (⟨-, hn⟩ | ⟨hx, hn, h⟩ | _ | _)
    · exact ⟨Or.inl ⟨_, rfl, hn⟩, rfl⟩
    · exact ⟨Or.inr ⟨_, _, hx, hn, h⟩, rfl⟩

private theorem failsFor_unsigned (v : Value) :
    FailsFor (do toUInt32 (max 0 (← (← v.finiteOrZero).trunc))) (ArrayElement.uint.Rejects v) := by
  refine .of_iff fun f => (word_eq_error_iff (P := fun n => 2 ^ 32 ≤ n) fun n f => ?_).trans ⟨?_, ?_⟩
  · rw [toUInt32_eq_error_iff]
    refine and_congr_left fun _ => ?_
    omega
  · rintro ⟨⟨n, rfl, hn⟩ | ⟨x, n, hx, hn, h⟩, rfl⟩
    · exact .huge (by decide) hn
    · exact .unsigned hx hn h
  · rintro (⟨-, hn⟩ | _ | ⟨hx, hn, h⟩ | _)
    · exact ⟨Or.inl ⟨_, rfl, hn⟩, rfl⟩
    · exact ⟨Or.inr ⟨_, _, hx, hn, h⟩, rfl⟩

private theorem failsFor_truth (v : Value) :
    FailsFor (do pure (if ← v.truth then (1 : Int32) else 0)) (ArrayElement.bool.Rejects v) := by
  have htruth : FailsFor v.truth (ArrayElement.bool.Rejects v) := by
    refine .of_iff fun f => Value.truth_eq_error_iff.trans ⟨?_, ?_⟩
    · rintro ⟨⟨t, rfl, ht⟩, rfl⟩
      exact .several ht
    · rintro (⟨hne, -⟩ | _ | _ | ht)
      · exact absurd rfl hne
      · exact ⟨⟨_, rfl, ht⟩, rfl⟩
  exact htruth.map _

end Scalars

/-! ### Arrays -/

section Arrays

variable {e : ArrayElement} {v : Value}

theorem failsFor_rowOf (width : Nat) (item : Value) :
    FailsFor (item.rowOf width) fun f => ∃ t, item = .tensor t ∧ t.rank = 0 ∧ f = .wrongShape := by
  cases item with
  | tensor t =>
    refine FailsFor.map (.of_iff fun f => ?_) _
    rcases hs : t.shape with _ | ⟨n, _ | ⟨m, shape⟩⟩
    · simp [Value.parts, Tensor.parts?, Tensor.rank, hs, eq_comm]
    · simp [Value.parts, Tensor.parts?, Tensor.rank, hs]
    · simp [Value.parts, Tensor.parts?, Tensor.rank, hs]
  | _ => exact .of_eq_ok rfl (by simp)

/-- The scalars of an array value are found unless a tensor without axes stands for a row. -/
theorem failsFor_flatten (width : Nat) (v : Value) :
    FailsFor (v.flatten width) fun f =>
      ∃ items, v = .list items ∧ ∃ item ∈ items, ∃ t, item = .tensor t ∧ t.rank = 0 ∧ f = .wrongShape := by
  cases v with
  | list items =>
    refine ((FailsFor.mapM fun item _ => failsFor_rowOf width item).map _).congr fun f => ?_
    simp
  | _ => exact .of_eq_ok rfl (by simp)

theorem failsFor_packArray (e : ArrayElement) (v : Value) (capacity : Nat) :
    FailsFor (packArray e v capacity) fun f =>
      (∃ items, v = .list items ∧ ∃ item ∈ items, ∃ t, item = .tensor t ∧ t.rank = 0 ∧
        f = .wrongShape) ∨
      ∃ scalars, v.flatten e.type.components = .ok scalars ∧
        ∃ s ∈ scalars.take (capacity * e.type.components), e.Rejects s f := by
  refine (failsFor_flatten _ v).bind fun scalars _ => ?_
  cases e with
  | uint => exact (FailsFor.mapM fun s _ => failsFor_unsigned s).map _
  | int => exact (FailsFor.mapM fun s _ => failsFor_signed s).map _
  | bool => exact (FailsFor.mapM fun s _ => failsFor_truth s).map _
  | _ => exact (FailsFor.mapM fun s _ => failsFor_float (by decide) s).map _

end Arrays

/-! ### Sequences -/

namespace Number

/-- Why a number is no unsigned word: it does not fit, its integer part does not fit, or it has none. -/
inductive MissesWord : Number → Fault → Prop
  | int {k : Int} (h : k < 0 ∨ 2 ^ 32 ≤ k) : MissesWord (.int k) .outOfRange
  | float {x : Double} {k : Int} (hk : x.trunc = .ok k) (h : k < 0 ∨ 2 ^ 32 ≤ k) :
      MissesWord (.float x) .outOfRange
  | unbounded {x : Double} {f : Fault} (h : x.Unbounded f) : MissesWord (.float x) f

theorem MissesWord.isCompilation_eq_false {n : Number} (h : n.MissesWord f) :
    f.isCompilation = false := by
  rcases h with _ | _ | h
  · rfl
  · rfl
  · exact h.isCompilation_eq_false

theorem trunc_eq_error_iff {n : Number} :
    n.trunc = .error f ↔ ∃ x, n = .float x ∧ x.Unbounded f := by
  cases n with
  | int k => simp [trunc]
  | float x =>
    refine Double.toIntBy_eq_error_iff.trans ?_
    simp

theorem toUInt32_eq_error_iff {n : Number} : n.toUInt32 = .error f ↔ n.MissesWord f := by
  cases n with
  | int k =>
    refine RenderGraph.toUInt32_eq_error_iff.trans ⟨?_, ?_⟩
    · rintro ⟨h, rfl⟩
      exact .int h
    · rintro ⟨h⟩
      exact ⟨h, rfl⟩
  | float x =>
    show (x.trunc >>= RenderGraph.toUInt32) = .error f ↔ _
    cases hk : x.trunc with
    | ok k =>
      refine RenderGraph.toUInt32_eq_error_iff.trans ⟨?_, ?_⟩
      · rintro ⟨h, rfl⟩
        exact .float hk h
      · rintro (_ | ⟨hk', h⟩ | h)
        · cases hk.symm.trans hk'
          exact ⟨h, rfl⟩
        · cases hk.symm.trans (Double.toIntBy_eq_error_iff.2 h)
    | error f' =>
      have hx : x.Unbounded f' := Double.toIntBy_eq_error_iff.1 hk
      constructor
      · rintro ⟨⟩
        exact .unbounded hx
      · rintro (_ | ⟨hk', -⟩ | h)
        · cases hk.symm.trans hk'
        · cases hk.symm.trans (Double.toIntBy_eq_error_iff.2 h)
          rfl

end Number

theorem mapM_toNumber (ns : List Number) : (ns.map .number).mapM Value.toNumber = .ok ns := by
  induction ns with
  | nil => rfl
  | cons n ns ih =>
    rw [List.map_cons, List.mapM_cons, ih]
    rfl

theorem exists_map_number {items : List Value} (h : items.all Value.isNumber = true) :
    ∃ ns : List Number, items = ns.map .number := by
  induction items with
  | nil => exact ⟨[], rfl⟩
  | cons v items ih =>
    rw [List.all_cons, Bool.and_eq_true] at h
    obtain ⟨ns, rfl⟩ := ih h.2
    cases v with
    | number n => exact ⟨n :: ns, rfl⟩
    | _ => cases h.1

/-! ### Values -/

/-- How many elements an array of a given length is packed to. -/
def packedLength (t : DataType) (v : Value) (length : Option Nat) : Nat :=
  max 1 (length.getD (if v.elementCount t = 0 then defaultLength else v.elementCount t))

/-- Why a value cannot be packed. -/
inductive Unpackable (length : Option Nat) : DataType → Value → Fault → Prop
  /-- A tensor without axes stands for a row of an array. -/
  | row {e : ArrayElement} {items : List Value} {t : Tensor} (ht : .tensor t ∈ items)
      (hr : t.rank = 0) : Unpackable length (.array e) (.list items) .wrongShape
  /-- A scalar is no element of the array. -/
  | scalar {e : ArrayElement} {v s : Value} {scalars : List Value} {f : Fault}
      (hv : v.flatten e.type.components = .ok scalars)
      (hs : s ∈ scalars.take (packedLength (.array e) v length * e.type.components))
      (h : e.Rejects s f) : Unpackable length (.array e) v f
  /-- A component of a vector or a matrix is too great. -/
  | component {t : DataType} {items : List Value} {n : Number} (hu : t.isUnsigned = false)
      (ht : (t.isVector || t.isMatrix) = true) (hi : items.all Value.isNumber = true)
      (hn : .number n ∈ items) (h : n.IsHuge) : Unpackable length t (.list items) .outOfRange
  /-- A component of an unsigned vector is no word. -/
  | word {t : DataType} {items : List Value} {n : Number} {f : Fault} (hu : t.isUnsigned = true)
      (hi : items.all Value.isNumber = true) (hn : .number n ∈ items) (h : n.MissesWord f) :
      Unpackable length t (.list items) f

theorem Unpackable.isCompilation_eq_false {length : Option Nat} {t : DataType} {v : Value}
    (h : Unpackable length t v f) : f.isCompilation = false := by
  rcases h with _ | ⟨-, -, h⟩ | _ | ⟨-, -, -, h⟩
  · rfl
  · exact h.isCompilation_eq_false
  · rfl
  · exact h.isCompilation_eq_false

/-- The components of a vector or a matrix are packed unless one of them does not fit. -/
private theorem failsFor_packSequence (unsigned : Bool) {items : List Value}
    (hi : items.all Value.isNumber = true) :
    FailsFor (packSequence unsigned (.list items)) fun f =>
      ∃ n, .number n ∈ items ∧ if unsigned then n.MissesWord f else n.IsHuge ∧ f = .outOfRange := by
  obtain ⟨ns, rfl⟩ := exists_map_number hi
  rw [packSequence, mapM_toNumber]
  simp only [List.mem_map, Value.number.injEq, exists_eq_right]
  cases unsigned with
  | true => exact ((FailsFor.mapM fun n _ => .of_iff fun _ => Number.toUInt32_eq_error_iff).map _).map _
  | false =>
    have hsingle (n : Number) : FailsFor n.toSingle fun f => n.IsHuge ∧ f = .outOfRange :=
      (FailsFor.of_iff fun _ => Number.toDouble_eq_error_iff).map _
    exact ((FailsFor.mapM fun n _ => hsingle n).map _).map _

/-- The type is packed from the components of a sequence. -/
private def ofComponents (t : DataType) : Bool :=
  t.isUnsigned || t.isVector || t.isMatrix

/-- Only lists of numbers may fail to be packed as vectors and matrices. -/
private theorem Unpackable.exists_items {length : Option Nat} {t : DataType} {v : Value}
    (h : Unpackable length t v f) (ha : t.isArray = false) :
    ∃ items, v = .list items ∧ items.all Value.isNumber = true ∧ ofComponents t = true := by
  rcases h with _ | _ | ⟨-, ht, hi, -, -⟩ | ⟨hu, hi, -, -⟩
  · cases ha
  · cases ha
  · exact ⟨_, rfl, hi, by rw [ofComponents, Bool.or_assoc, ht, Bool.or_true]⟩
  · exact ⟨_, rfl, hi, by rw [ofComponents, hu, Bool.true_or, Bool.true_or]⟩

private theorem failsFor_packPlain {t : DataType} (ha : t.isArray = false) (v : Value)
    (length : Option Nat) : FailsFor (pack t v length) (Unpackable length t v) := by
  have hpack : pack t v length =
      if v.isNumberSequence && ofComponents t then packSequence t.isUnsigned v else .ok v := by
    cases t with
    | array e => cases ha
    | _ => rfl
  rw [hpack]
  by_cases hv : ∃ items, v = .list items ∧ items.all Value.isNumber = true ∧ ofComponents t = true
  · obtain ⟨items, rfl, hi, ht⟩ := hv
    rw [if_pos (by simp only [Value.isNumberSequence, hi, ht, Bool.and_self])]
    refine (failsFor_packSequence t.isUnsigned hi).congr fun f => ⟨?_, ?_⟩
    · rintro ⟨n, hn, h⟩
      cases hu : t.isUnsigned with
      | true => exact .word hu hi hn (by simpa [hu] using h)
      | false =>
        rw [hu] at h
        obtain ⟨h, rfl⟩ := h
        exact .component hu (by simpa [ofComponents, hu] using ht) hi hn h
    · rintro (_ | _ | ⟨hu, -, -, hn, h⟩ | ⟨hu, -, hn, h⟩)
      · cases ha
      · cases ha
      · exact ⟨_, hn, by rw [hu]; exact ⟨h, rfl⟩⟩
      · exact ⟨_, hn, by rw [hu]; exact h⟩
  · have hok : ∃ w, (if v.isNumberSequence && ofComponents t then packSequence t.isUnsigned v
        else .ok v) = .ok w := by
      split
      · next hs =>
        rw [Bool.and_eq_true] at hs
        cases v with
        | list items => exact absurd ⟨items, rfl, hs⟩ hv
        | tensor a => cases hu : t.isUnsigned <;> exact ⟨_, rfl⟩
        | _ => cases hs.1
      · exact ⟨v, rfl⟩
    obtain ⟨w, hw⟩ := hok
    exact .of_eq_ok hw fun f hf => hv (hf.exists_items ha)

/-- A value is packed unless there is a reason why it cannot be. -/
theorem failsFor_pack (t : DataType) (v : Value) (length : Option Nat) :
    FailsFor (pack t v length) (Unpackable length t v) := by
  cases t with
  | array e =>
    refine ((failsFor_packArray e v (packedLength (.array e) v length)).map _).congr fun f => ⟨?_, ?_⟩
    · rintro (⟨items, rfl, _, ht, t, rfl, hr, rfl⟩ | ⟨scalars, hv, s, hs, h⟩)
      · exact .row ht hr
      · exact .scalar hv hs h
    · rintro (⟨ht, hr⟩ | ⟨hv, hs, h⟩ | ⟨-, hv, -⟩ | ⟨hu, -⟩)
      · exact Or.inl ⟨_, rfl, _, ht, _, rfl, hr, rfl⟩
      · exact Or.inr ⟨_, hv, _, hs, h⟩
      · cases hv
      · cases hu
  | _ => exact failsFor_packPlain rfl v length

/-! ### Capacities -/

namespace Number

theorem round_eq_error_iff {n : Number} :
    n.round = .error f ↔ ∃ x, n = .float x ∧ x.Unbounded f := by
  cases n with
  | int k => simp [round]
  | float x =>
    refine Double.toIntBy_eq_error_iff.trans ?_
    simp

/-- A finite number can be rounded. -/
theorem exists_round {n : Number} (h : n.isFinite = .ok true) : ∃ k, n.round = .ok k := by
  cases n with
  | int k => exact ⟨k, rfl⟩
  | float x =>
    have hx : x.isFinite = true := by simpa [isFinite, toDouble, Except.map] using h
    exact Double.exists_toIntBy hx _

/-- A number that is rounded if it is finite is so unless it is too great an integer. -/
theorem failsFor_ifFinite (n : Number) {g : Int → Except Fault α} (hg : ∀ k, ∃ b, g k = .ok b) (a : α) :
    FailsFor (do if ← n.isFinite then g (← n.round) else pure a)
      fun f => n.IsHuge ∧ f = .outOfRange := by
  have hfinite : FailsFor n.isFinite fun f => n.IsHuge ∧ f = .outOfRange :=
    (FailsFor.of_iff fun _ => toDouble_eq_error_iff).map _
  refine (hfinite.bind (F := fun _ _ => False) fun finite h => ?_).congr fun f => by simp
  cases finite with
  | false => exact .of_eq_ok rfl fun _ => id
  | true =>
    obtain ⟨k, hk⟩ := exists_round h
    obtain ⟨b, hb⟩ := hg k
    refine .of_eq_ok (a := b) ?_ fun _ => id
    rw [if_pos rfl, hk]
    exact hb

end Number

namespace BoundValue

variable {t : DataType} {bound : Option BoundValue} {fallback : Number}

theorem failsFor_statedLength (b : BoundValue) :
    FailsFor b.statedLength fun f =>
      ∃ n, b.arrayLength = some (.number n) ∧ n.IsHuge ∧ f = .outOfRange := by
  rw [statedLength]
  split
  · next n h =>
    refine (Number.failsFor_ifFinite n (fun k => ⟨_, rfl⟩) none).congr fun f => ?_
    simp [h]
  · next h =>
    refine .of_eq_ok rfl ?_
    rintro f ⟨n, hn, -⟩
    exact h n hn

theorem failsFor_statedIndex (bound : Option BoundValue) :
    FailsFor (statedIndex bound) fun f =>
      ∃ n, bound.bind arrayIndex = some (.number n) ∧ n.IsHuge ∧ f = .outOfRange := by
  rw [statedIndex]
  split
  · next n h =>
    refine FailsFor.congr (E := fun f => n.IsHuge ∧ f = .outOfRange) ?_ fun f => by simp [h]
    have hround := Number.failsFor_ifFinite n (g := pure) (fun k => ⟨k, rfl⟩) 0
    simpa only [bind_pure] using hround
  · next h =>
    refine .of_eq_ok rfl ?_
    rintro f ⟨n, hn, -⟩
    exact h n hn

/-- Why the capacity of an array cannot be found: the stated length is too great, or nothing but the
fallback determines it and that is not finite. -/
inductive NoCapacity (t : DataType) (bound : Option BoundValue) (fallback : Number) : Fault → Prop
  | stated {b : BoundValue} {n : Number} (hb : bound = some b)
      (hn : b.arrayLength = some (.number n)) (h : n.IsHuge) : NoCapacity t bound fallback .outOfRange
  | fallback {x : Double} {f : Fault} (hx : fallback = .float x)
      (hb : ∀ b ∈ bound, b.statedLength = .ok none ∧ b.value.elementCount t = 0)
      (h : x.Unbounded f) : NoCapacity t bound fallback f

theorem NoCapacity.isCompilation_eq_false (h : NoCapacity t bound fallback f) :
    f.isCompilation = false := by
  rcases h with _ | ⟨-, -, h⟩
  · rfl
  · exact h.isCompilation_eq_false

theorem failsFor_fallbackCapacity (fallback : Number) :
    FailsFor (fallbackCapacity fallback) fun f => ∃ x, fallback = .float x ∧ x.Unbounded f :=
  (FailsFor.of_iff fun _ => Number.round_eq_error_iff).map _

theorem failsFor_capacity (t : DataType) (bound : Option BoundValue) (fallback : Number) :
    FailsFor (capacity t bound fallback) (NoCapacity t bound fallback) := by
  cases bound with
  | none =>
    rw [capacity]
    refine (failsFor_fallbackCapacity fallback).congr fun f => ⟨?_, ?_⟩
    · rintro ⟨x, hx, h⟩
      exact .fallback hx (by simp) h
    · rintro (⟨⟨⟩⟩ | ⟨hx, -, h⟩)
      exact ⟨_, hx, h⟩
  | some b =>
    rw [capacity]
    refine ((failsFor_statedLength b).bind (F := fun stated f => stated = none ∧
      b.value.elementCount t = 0 ∧ ∃ x, fallback = .float x ∧ x.Unbounded f) fun stated _ => ?_).congr
        fun f => ⟨?_, ?_⟩
    · cases stated with
      | some length => exact .of_eq_ok rfl (by simp)
      | none =>
        by_cases hc : 1 ≤ b.value.elementCount t
        · refine .of_eq_ok (a := b.value.elementCount t) ?_ ?_
          · simp [hc, pure, Except.pure]
          · rintro f ⟨-, hzero, -⟩
            omega
        · have hzero : b.value.elementCount t = 0 := by omega
          refine FailsFor.congr (E := fun f => ∃ x, fallback = .float x ∧ x.Unbounded f) ?_
            fun f => by simp [hzero]
          simpa only [hc, if_false] using failsFor_fallbackCapacity fallback
    · rintro (⟨n, hn, h, rfl⟩ | ⟨stated, hs, rfl, hc, x, hx, h⟩)
      · exact .stated rfl hn h
      · refine .fallback hx ?_ h
        rintro _ ⟨⟩
        exact ⟨hs, hc⟩
    · rintro (⟨⟨⟩, hn, h⟩ | ⟨hx, hb, h⟩)
      · exact Or.inl ⟨_, hn, h, rfl⟩
      · obtain ⟨hs, hc⟩ := hb b rfl
        exact Or.inr ⟨_, hs, rfl, hc, _, hx, h⟩

/-- Why the length of a uniform cannot be found. Its value counts before the fallback. -/
def NoLength (t : DataType) (bound : Option BoundValue) (value : Value) (fallback : Number)
    (f : Fault) : Prop :=
  t.isArray = true ∧
    NoCapacity t bound (if value.elementCount t = 0 then fallback else .int (value.elementCount t)) f

theorem failsFor_declaredLength (t : DataType) (bound : Option BoundValue) (value : Value)
    (fallback : Number) :
    FailsFor (declaredLength t bound value fallback) (NoLength t bound value fallback) := by
  rw [declaredLength]
  by_cases ht : t.isArray = true
  · rw [if_pos ht]
    exact ((failsFor_capacity _ _ _).map _).congr fun f => by simp [NoLength, ht]
  · rw [if_neg ht]
    exact .of_eq_ok rfl fun f h => ht h.1

end BoundValue

/-- Every default can be packed. -/
theorem exists_pack_defaultValue (t : DataType) :
    ∃ v, pack t (t.defaultValue defaultLength) none = .ok v := by
  have hall : ∀ t ∈ DataType.all,
      (pack t (t.defaultValue defaultLength) none).toOption.isSome = true := by
    decide +kernel
  have ht := hall t (DataType.mem_all t)
  cases hp : pack t (t.defaultValue defaultLength) none with
  | ok v => exact ⟨v, rfl⟩
  | error f =>
    rw [hp] at ht
    cases ht

end RenderGraph
