/-!
# Maps that keep the order of insertion

A `Keyed` map lists its entries in the order in which their keys were first inserted. Inserting a
present key changes its value and leaves its place.

## Main definitions

* `Keyed`, `Keyed.get?`, `Keyed.insert`, `Keyed.insertNew`, `Keyed.insertAll`,
  `Keyed.ofList`

## Main results

* `Keyed.get?_insert`, `Keyed.get?_insertNew`: what a map holds after an insertion
* `Keyed.get?_insertAll`: what a map holds after some insertions
* `Keyed.mem_entries_iff`: the entries are the keys with their values
* `Keyed.keys_insert`: insertion keeps the places of the keys
* `Keyed.ext_get?`: maps with the same keys and values are equal
-/

namespace RenderGraph

/-- Entries under distinct keys, in the order of first insertion. -/
structure Keyed (α : Type) where
  entries : List (String × α)
  /-- No key occurs twice. -/
  nodup : (entries.map (·.1)).Nodup
  deriving Repr, DecidableEq

namespace Keyed

variable {α β : Type}

/-- The map without entries. -/
def empty : Keyed α :=
  ⟨[], List.nodup_nil⟩

instance : EmptyCollection (Keyed α) :=
  ⟨empty⟩

instance : Inhabited (Keyed α) :=
  ⟨empty⟩

/-- The value under a key. -/
def get? (m : Keyed α) (key : String) : Option α :=
  (m.entries.find? (·.1 == key)).map (·.2)

/-- The key has a value. -/
def contains (m : Keyed α) (key : String) : Bool :=
  m.entries.any (·.1 == key)

def keys (m : Keyed α) : List String :=
  m.entries.map (·.1)

def values (m : Keyed α) : List α :=
  m.entries.map (·.2)

def size (m : Keyed α) : Nat :=
  m.entries.length

@[simp]
theorem length_keys (m : Keyed α) : m.keys.length = m.size :=
  List.length_map ..

/-- Entries with a new value at the place of the key, or a new last entry. -/
def insertEntry (key : String) (a : α) : List (String × α) → List (String × α)
  | [] => [(key, a)]
  | e :: es => if e.1 = key then (key, a) :: es else e :: insertEntry key a es

/-- Insertion keeps the places of the keys and puts a new key last. -/
theorem map_fst_insertEntry (key : String) (a : α) (es : List (String × α)) :
    (insertEntry key a es).map (·.1) =
      if key ∈ es.map (·.1) then es.map (·.1) else es.map (·.1) ++ [key] := by
  induction es with
  | nil => simp [insertEntry]
  | cons e es ih =>
    by_cases he : e.1 = key
    · simp [insertEntry, he]
    · rw [insertEntry, if_neg he, List.map_cons, ih, List.map_cons]
      by_cases hm : key ∈ es.map (·.1)
      · rw [if_pos hm, if_pos (List.mem_cons_of_mem _ hm)]
      · have hc : key ∉ e.1 :: es.map (·.1) := by
          simpa [Ne.symm he] using hm
        rw [if_neg hm, if_neg hc, List.cons_append]

private theorem nodup_insertEntry {key : String} {a : α} {es : List (String × α)}
    (h : (es.map (·.1)).Nodup) : ((insertEntry key a es).map (·.1)).Nodup := by
  rw [map_fst_insertEntry]
  by_cases hk : key ∈ es.map (·.1)
  · rw [if_pos hk]
    exact h
  · rw [if_neg hk]
    refine List.nodup_append.2 ⟨h, by simp, ?_⟩
    rintro k hm k' hk' rfl
    rw [List.mem_singleton] at hk'
    exact hk (hk' ▸ hm)

/-- The map with a value under a key. -/
def insert (m : Keyed α) (key : String) (a : α) : Keyed α :=
  ⟨insertEntry key a m.entries, nodup_insertEntry m.nodup⟩

/-- The map with a value under a key that had none. -/
def insertNew (m : Keyed α) (key : String) (a : α) : Keyed α :=
  if m.contains key then m else m.insert key a

/-- The map without a key. -/
def erase (m : Keyed α) (key : String) : Keyed α where
  entries := m.entries.filter (·.1 != key)
  nodup := m.nodup.sublist (List.filter_sublist.map _)

/-- The map with some entries inserted, one after the other. -/
def insertAll (m : Keyed α) (es : List (String × α)) : Keyed α :=
  es.foldl (fun m e => m.insert e.1 e.2) m

/-- The map of a list of entries: a repeated key keeps its first place and takes its last value. -/
def ofList (es : List (String × α)) : Keyed α :=
  empty.insertAll es

/-- The map with every value changed, in view of its key. -/
def mapWithKey (f : String → α → β) (m : Keyed α) : Keyed β where
  entries := m.entries.map fun e => (e.1, f e.1 e.2)
  nodup := by
    rw [List.map_map]
    exact m.nodup

/-- The map with every value changed. -/
def map (f : α → β) (m : Keyed α) : Keyed β :=
  m.mapWithKey fun _ => f

/-! ### What a map holds -/

@[simp]
theorem get?_empty (key : String) : (empty : Keyed α).get? key = none :=
  rfl

private theorem find?_insertEntry (key k : String) (a : α) (es : List (String × α)) :
    ((insertEntry key a es).find? (·.1 == k)).map (·.2) =
      if k = key then some a else (es.find? (·.1 == k)).map (·.2) := by
  induction es with
  | nil =>
    by_cases h : key = k
    · simp [insertEntry, h]
    · simp [insertEntry, h, Ne.symm h]
  | cons e es ih =>
    by_cases he : e.1 = key
    · by_cases h : key = k
      · simp [insertEntry, he, h]
      · have hkk : (key == k) = false := by simp [h]
        simp [insertEntry, he, hkk, Ne.symm h]
    · by_cases h : e.1 = k
      · have hk : k ≠ key := fun hk => he (h.trans hk)
        simp [insertEntry, h, hk]
      · have hek : (e.1 == k) = false := by simp [h]
        simp only [insertEntry, he, if_false, List.find?_cons, hek]
        exact ih

@[simp]
theorem get?_insert (m : Keyed α) (key k : String) (a : α) :
    (m.insert key a).get? k = if k = key then some a else m.get? k :=
  find?_insertEntry key k a m.entries

/-- What holds of all entries holds after an insertion for which it holds. -/
theorem forall_insert {m : Keyed α} {P : String → α → Prop} {key : String} {a : α}
    (h : ∀ k b, m.get? k = some b → P k b) (ha : P key a) :
    ∀ k b, (m.insert key a).get? k = some b → P k b := by
  intro k b hb
  rw [get?_insert] at hb
  split at hb
  · next heq =>
    cases hb
    exact heq ▸ ha
  · exact h k b hb

/-- The entries are the keys with their values. -/
theorem mem_entries_iff {m : Keyed α} {key : String} {a : α} :
    (key, a) ∈ m.entries ↔ m.get? key = some a := by
  obtain ⟨es, h⟩ := m
  simp only [get?]
  induction es with
  | nil => simp
  | cons e es ih =>
    rw [List.map_cons, List.nodup_cons] at h
    by_cases he : e.1 = key
    · have hm : (key, a) ∉ es := fun hm => h.1 (he ▸ List.mem_map_of_mem hm)
      have hc : (key, a) = e ↔ e.2 = a := by
        rw [← he, Prod.ext_iff]
        exact ⟨fun h => h.2.symm, fun h => ⟨rfl, h.symm⟩⟩
      simp [he, hm, hc]
    · have hc : (key, a) ≠ e := fun hc => he (hc ▸ rfl)
      simp [he, hc, ih h.2]

theorem exists_get?_of_mem_keys {m : Keyed α} {key : String} (h : key ∈ m.keys) :
    ∃ a, m.get? key = some a := by
  obtain ⟨⟨_, a⟩, he, rfl⟩ := List.mem_map.1 h
  exact ⟨a, mem_entries_iff.1 he⟩

theorem contains_eq_isSome (m : Keyed α) (key : String) : m.contains key = (m.get? key).isSome := by
  unfold contains get?
  induction m.entries with
  | nil => rfl
  | cons e es ih => by_cases h : e.1 = key <;> simp_all

theorem get?_insertNew (m : Keyed α) (key k : String) (a : α) :
    (m.insertNew key a).get? k = if k = key then some ((m.get? key).getD a) else m.get? k := by
  unfold insertNew
  rw [contains_eq_isSome]
  by_cases hk : k = key
  · subst hk
    cases h : m.get? k <;> simp [h]
  · cases h : m.get? key <;> simp [hk]

/-- After some insertions, a key has the value that was inserted last, else the one it had. -/
theorem get?_insertAll (m : Keyed α) (es : List (String × α)) (key : String) :
    (m.insertAll es).get? key = ((es.reverse.find? (·.1 == key)).map (·.2)).or (m.get? key) := by
  induction es generalizing m with
  | nil => rfl
  | cons e es ih =>
    have hs : (m.insertAll (e :: es)).get? key = ((m.insert e.1 e.2).insertAll es).get? key := rfl
    rw [hs, ih, get?_insert, List.reverse_cons, List.find?_append]
    cases hf : es.reverse.find? (·.1 == key) with
    | some d => simp
    | none => by_cases he : e.1 = key <;> simp [he, Ne.symm]

theorem mem_or_get?_of_get?_insertAll {m : Keyed α} {es : List (String × α)} {key : String} {a : α}
    (h : (m.insertAll es).get? key = some a) : (key, a) ∈ es ∨ m.get? key = some a := by
  rw [get?_insertAll, Option.or_eq_some_iff] at h
  rcases h with h | h
  · obtain ⟨e, he, rfl⟩ := Option.map_eq_some_iff.1 h
    have hk : e.1 = key := by simpa using List.find?_some he
    exact Or.inl (hk ▸ List.mem_reverse.1 (List.mem_of_find?_eq_some he))
  · exact Or.inr h.2

/-- What was inserted can be found. -/
theorem isSome_get?_insertAll {m : Keyed α} {es : List (String × α)} {key : String} {a : α}
    (h : (key, a) ∈ es) : ((m.insertAll es).get? key).isSome = true := by
  rw [get?_insertAll]
  cases hf : es.reverse.find? (·.1 == key) with
  | none => exact absurd (List.find?_eq_none.1 hf _ (List.mem_reverse.2 h)) (by simp)
  | some e => rfl

theorem mem_values_of_get? {m : Keyed α} {key : String} {a : α} (h : m.get? key = some a) :
    a ∈ m.values :=
  List.mem_map.2 ⟨(key, a), mem_entries_iff.2 h, rfl⟩

theorem exists_get?_of_mem_values {m : Keyed α} {a : α} (h : a ∈ m.values) :
    ∃ key, m.get? key = some a := by
  obtain ⟨⟨key, _⟩, he, rfl⟩ := List.mem_map.1 h
  exact ⟨key, mem_entries_iff.1 he⟩

theorem mem_of_get?_ofList {es : List (String × α)} {key : String} {a : α}
    (h : (ofList es).get? key = some a) : (key, a) ∈ es :=
  (mem_or_get?_of_get?_insertAll h).resolve_right (by simp)

/-- A key takes the value on which all its insertions agree. -/
theorem get?_insertAll_of_forall {m : Keyed α} {es : List (String × α)} {key : String} {a : α}
    (h : (key, a) ∈ es) (hs : ∀ e ∈ es, e.1 = key → e.2 = a) :
    (m.insertAll es).get? key = some a := by
  rw [get?_insertAll, Option.or_eq_some_iff]
  cases hf : es.reverse.find? (·.1 == key) with
  | none => exact absurd (List.find?_eq_none.1 hf _ (List.mem_reverse.2 h)) (by simp)
  | some e =>
    have hk : e.1 = key := by simpa using List.find?_some hf
    simp [hs e (List.mem_reverse.1 (List.mem_of_find?_eq_some hf)) hk]

theorem keys_insert (m : Keyed α) (key : String) (a : α) :
    (m.insert key a).keys = if key ∈ m.keys then m.keys else m.keys ++ [key] :=
  map_fst_insertEntry key a m.entries

/-- Insertions under new, distinct keys put these keys last. -/
theorem keys_insertAll {m : Keyed α} {es : List (String × α)}
    (h : (m.keys ++ es.map (·.1)).Nodup) : (m.insertAll es).keys = m.keys ++ es.map (·.1) := by
  induction es generalizing m with
  | nil => exact (List.append_nil _).symm
  | cons e es ih =>
    have hnew : e.1 ∉ m.keys := by
      intro hm
      exact (List.nodup_append.1 h).2.2 _ hm _ List.mem_cons_self rfl
    have hkeys : (m.insert e.1 e.2).keys = m.keys ++ [e.1] := by
      rw [keys_insert, if_neg hnew]
    have hs : (m.insertAll (e :: es)).keys = ((m.insert e.1 e.2).insertAll es).keys := rfl
    rw [hs, ih, hkeys, List.append_assoc]
    · rfl
    · rw [hkeys, List.append_assoc]
      exact h

theorem keys_ofList {es : List (String × α)} (h : (es.map (·.1)).Nodup) :
    (ofList es).keys = es.map (·.1) :=
  keys_insertAll (m := empty) h

theorem mem_keys_of_get? {m : Keyed α} {key : String} {a : α} (h : m.get? key = some a) :
    key ∈ m.keys :=
  List.mem_map.2 ⟨(key, a), mem_entries_iff.2 h, rfl⟩

/-- A map has no entries when no key has a value. -/
theorem size_eq_zero_iff {m : Keyed α} : m.size = 0 ↔ ∀ key, m.get? key = none := by
  constructor
  · intro h key
    rw [get?, List.length_eq_zero_iff.1 h]
    rfl
  · intro h
    refine List.length_eq_zero_iff.2 (List.eq_nil_iff_forall_not_mem.2 fun e he => ?_)
    cases (h e.1).symm.trans (mem_entries_iff.1 he)

/-- The keys with what stands under them. -/
theorem map_get?_keys (m : Keyed α) :
    m.keys.map (fun key => (key, m.get? key)) = m.entries.map fun e => (e.1, some e.2) := by
  rw [keys, List.map_map]
  refine List.map_congr_left fun e he => ?_
  rw [Function.comp, mem_entries_iff.1 he]

/-- Maps with the same keys, in the same order, and the same values are equal. -/
theorem ext_get? {m m' : Keyed α} (hk : m.keys = m'.keys) (hg : ∀ key, m.get? key = m'.get? key) :
    m = m' := by
  have he : m.entries = m'.entries := by
    refine (List.map_inj_right (f := fun e : String × α => (e.1, some e.2)) ?_).1 ?_
    · rintro ⟨k, a⟩ ⟨k', a'⟩ h
      cases h
      rfl
    · rw [← map_get?_keys m, ← map_get?_keys m', hk]
      simp only [hg]
  cases m
  cases he
  rfl

end Keyed

end RenderGraph
