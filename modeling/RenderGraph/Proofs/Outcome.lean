import Mathlib.Data.List.Forall2
import RenderGraph.Fault

/-!
# Outcomes of computations

Planning and emission are computations on a state that may fail, and what was done stays done when
they fail. `Ends x Q E s` says how such a computation ends when it is run from `s`: in `Q` when it
succeeds and in `E` when it fails. Of a computation without state, `Yields x Q E` says the same.

The lemmas follow the ways in which computations are put together. Loops are handled by an invariant
that every round keeps.

## Main definitions

* `Yields`, `FailsIn`: of computations without state
* `Ends`, `Leads`, `StopsIn`: of computations with state

## Main results

* `ends_bind`, `exists_of_run_bind`, `Ends.mono`: sequences and weaker ends
* `Ends.foldlM`, `Ends.forM`, `Ends.mapM`: loops with an invariant
-/

namespace RenderGraph

variable {σ α β : Type}

/-! ### Computations without state -/

/-- The computation succeeds in `Q` or fails in `E`. -/
def Yields (x : Except Fault α) (Q : α → Prop) (E : Fault → Prop) : Prop :=
  match x with
  | .ok a => Q a
  | .error f => E f

section Yields

variable {x : Except Fault α} {Q Q' : α → Prop} {E E' : Fault → Prop}

theorem yields_iff :
    Yields x Q E ↔ (∀ a, x = .ok a → Q a) ∧ ∀ f, x = .error f → E f := by
  cases x <;> simp [Yields]

/-- The result of a computation that has been evaluated. -/
theorem exists_of_isOk (h : x.isOk = true) : ∃ a, x = .ok a := by
  cases x with
  | error f => cases h
  | ok a => exact ⟨a, rfl⟩

@[simp]
theorem yields_ok (a : α) : Yields (.ok a) Q E ↔ Q a :=
  Iff.rfl

@[simp]
theorem yields_error (f : Fault) : Yields (.error f) Q E ↔ E f :=
  Iff.rfl

@[simp]
theorem yields_pure (a : α) : Yields (pure a) Q E ↔ Q a :=
  Iff.rfl

@[simp]
theorem yields_bind (f : α → Except Fault β) {Q : β → Prop} :
    Yields (x >>= f) Q E ↔ Yields x (fun a => Yields (f a) Q E) E := by
  cases x <;> rfl

@[simp]
theorem yields_map (f : α → β) {Q : β → Prop} :
    Yields (x.map f) Q E ↔ Yields x (fun a => Q (f a)) E := by
  cases x <;> rfl

theorem Yields.mono (h : Yields x Q E) (hQ : ∀ a, Q a → Q' a) (hE : ∀ f, E f → E' f) :
    Yields x Q' E' := by
  cases x with
  | ok a => exact hQ a h
  | error f => exact hE f h

/-- A loop that collects results: each of them has the property of its item. -/
theorem Yields.mapM {f : α → Except Fault β} {R : α → β → Prop} {l : List α}
    (h : ∀ a ∈ l, Yields (f a) (R a) E) : Yields (l.mapM f) (List.Forall₂ R l) E := by
  induction l with
  | nil => exact List.Forall₂.nil
  | cons a l ih =>
    rw [List.mapM_cons, yields_bind]
    refine (h a List.mem_cons_self).mono (fun b hb => ?_) fun _ => id
    rw [yields_bind]
    exact (ih fun c hc => h c (List.mem_cons_of_mem a hc)).mono
      (fun bs hbs => List.Forall₂.cons hb hbs) fun _ => id

/-- What stands in a list related to another is related to one of its items. -/
theorem exists_of_forall₂ {R : α → β → Prop} {l : List α} {bs : List β} (h : List.Forall₂ R l bs)
    {b : β} (hb : b ∈ bs) : ∃ a ∈ l, R a b := by
  induction h with
  | nil => simp at hb
  | cons hab _ ih =>
    rcases List.mem_cons.1 hb with rfl | hb
    · exact ⟨_, List.mem_cons_self, hab⟩
    · obtain ⟨a, ha, hr⟩ := ih hb
      exact ⟨a, List.mem_cons_of_mem _ ha, hr⟩

/-- Each result of a loop that succeeds comes from an item with the property of that item. -/
theorem exists_of_mem_mapM {f : α → Except Fault β} {R : α → β → Prop} {l : List α} {bs : List β}
    (h : ∀ a ∈ l, ∀ b, f a = .ok b → R a b) (hr : l.mapM f = .ok bs) {b : β} (hb : b ∈ bs) :
    ∃ a ∈ l, R a b := by
  have hall : Yields (l.mapM f) (List.Forall₂ R l) fun _ => True :=
    Yields.mapM fun a ha => yields_iff.2 ⟨h a ha, fun _ _ => trivial⟩
  rw [hr, yields_ok] at hall
  exact exists_of_forall₂ hall hb

/-- A loop that succeeds has the result of each item at its place. -/
theorem forall₂_of_mapM {f : α → Except Fault β} {l : List α} {bs : List β} (h : l.mapM f = .ok bs) :
    List.Forall₂ (fun a b => f a = .ok b) l bs := by
  have hall : Yields (l.mapM f) (List.Forall₂ (fun a b => f a = .ok b) l) fun _ => True :=
    Yields.mapM fun a _ => yields_iff.2 ⟨fun _ hb => hb, fun _ _ => trivial⟩
  rwa [h, yields_ok] at hall

/-- If a loop succeeds, so does every round. -/
theorem exists_of_mapM {f : α → Except Fault β} {l : List α} {bs : List β} (h : l.mapM f = .ok bs)
    {a : α} (ha : a ∈ l) : ∃ b, f a = .ok b := by
  obtain ⟨b, -, hb⟩ := exists_of_forall₂ (forall₂_of_mapM h).flip ha
  exact ⟨b, hb⟩

/-- If every round succeeds, so does the loop. -/
theorem exists_mapM_of_forall {f : α → Except Fault β} {l : List α}
    (h : ∀ a ∈ l, ∃ b, f a = .ok b) : ∃ bs, l.mapM f = .ok bs := by
  have hnever : Yields (l.mapM f) (fun _ => True) fun _ => False := by
    refine (Yields.mapM (R := fun _ _ => True) fun a ha => ?_).mono (fun _ _ => trivial) fun _ => id
    obtain ⟨b, hb⟩ := h a ha
    exact yields_iff.2 ⟨fun _ _ => trivial, fun f hf => by simp [hb] at hf⟩
  cases hbs : l.mapM f with
  | ok bs => exact ⟨bs, rfl⟩
  | error f => exact ((yields_iff.1 hnever).2 f hbs).elim

/-- A loop that succeeds has one result for each item. -/
theorem length_of_mapM {f : α → Except Fault β} {l : List α} {bs : List β} (h : l.mapM f = .ok bs) :
    bs.length = l.length := by
  have hall : Yields (l.mapM f) (List.Forall₂ (fun _ _ => True) l) fun _ => True :=
    Yields.mapM fun a _ => yields_iff.2 ⟨fun _ _ => trivial, fun _ _ => trivial⟩
  rw [h, yields_ok] at hall
  exact hall.length_eq.symm

/-- What is computed item by item may be written afterwards. -/
theorem mapM_map {γ : Type} (f : α → Except Fault β) (write : β → γ) (l : List α) :
    l.mapM (fun a => (f a).map write) = (l.mapM f).map (List.map write) := by
  induction l with
  | nil => rfl
  | cons a l ih =>
    rw [List.mapM_cons, List.mapM_cons, ih]
    cases f a with
    | error e => rfl
    | ok b => cases l.mapM f <;> rfl

/-- A loop that passes a value on keeps what every round keeps. -/
theorem Yields.foldlM {f : β → α → Except Fault β} {I : β → Prop} {l : List α}
    (h : ∀ b, ∀ a ∈ l, I b → Yields (f b a) I E) {b : β} (hb : I b) :
    Yields (l.foldlM f b) I E := by
  induction l generalizing b with
  | nil => exact hb
  | cons a l ih =>
    rw [List.foldlM_cons, yields_bind]
    exact (h b a List.mem_cons_self hb).mono
      (fun c hc => ih (fun b a ha => h b a (List.mem_cons_of_mem _ ha)) hc) fun _ => id

/-- If the computation fails, it fails in `E`. -/
abbrev FailsIn (x : Except Fault α) (E : Fault → Prop) : Prop :=
  Yields x (fun _ => True) E

theorem failsIn_iff : FailsIn x E ↔ ∀ f, x = .error f → E f := by
  simp [FailsIn, yields_iff]

theorem FailsIn.of_eq_ok {a : α} (h : x = .ok a) : FailsIn x E := by
  rw [h]
  trivial

theorem FailsIn.bind {f : α → Except Fault β} (h : FailsIn x E)
    (hf : ∀ a, x = .ok a → FailsIn (f a) E) : FailsIn (x >>= f) E := by
  rw [FailsIn, yields_bind, yields_iff]
  exact ⟨hf, failsIn_iff.1 h⟩

theorem FailsIn.map (h : FailsIn x E) (f : α → β) : FailsIn (x.map f) E := by
  rw [FailsIn, yields_map]
  exact h

theorem FailsIn.mapM {f : α → Except Fault β} {l : List α} (h : ∀ a ∈ l, FailsIn (f a) E) :
    FailsIn (l.mapM f) E :=
  (Yields.mapM h).mono (fun _ _ => trivial) fun _ => id

theorem FailsIn.foldlM {f : β → α → Except Fault β} {l : List α}
    (h : ∀ b, ∀ a ∈ l, FailsIn (f b a) E) (b : β) : FailsIn (l.foldlM f b) E :=
  Yields.foldlM (I := fun _ => True) (fun b a ha _ => h b a ha) trivial

end Yields

/-! ### Computations with state -/

/-- Run from `s`, the computation succeeds in `Q` or fails in `E`. -/
def Ends (x : ExceptT Fault (StateM σ) α) (Q : α → σ → Prop) (E : Fault → σ → Prop) (s : σ) : Prop :=
  match x.run s with
  | (.ok a, t) => Q a t
  | (.error f, t) => E f t

section Ends

variable {x : ExceptT Fault (StateM σ) α} {Q Q' : α → σ → Prop} {E E' : Fault → σ → Prop}
  {s t : σ} {a : α}

theorem ends_iff :
    Ends x Q E s ↔ (∀ a t, x.run s = (.ok a, t) → Q a t) ∧
      ∀ f t, x.run s = (.error f, t) → E f t := by
  have hr (r : Except Fault α × σ) :
      (match r with
        | (.ok a, t) => Q a t
        | (.error f, t) => E f t) ↔
        (∀ a t, r = (.ok a, t) → Q a t) ∧ ∀ f t, r = (.error f, t) → E f t := by
    rcases r with ⟨_ | _, t⟩ <;> simp
  exact hr (x.run s)

theorem Ends.of_run_ok (h : Ends x Q E s) (hr : x.run s = (.ok a, t)) : Q a t :=
  (ends_iff.1 h).1 a t hr

theorem Ends.of_run_error {f : Fault} (h : Ends x Q E s) (hr : x.run s = (.error f, t)) : E f t :=
  (ends_iff.1 h).2 f t hr

theorem Ends.mono (h : Ends x Q E s) (hQ : ∀ a t, Q a t → Q' a t) (hE : ∀ f t, E f t → E' f t) :
    Ends x Q' E' s :=
  ends_iff.2 ⟨fun a t hr => hQ a t (h.of_run_ok hr), fun f t hr => hE f t (h.of_run_error hr)⟩

/-- Run from `s`, the computation ends in `Q` if it succeeds. -/
abbrev Leads (x : ExceptT Fault (StateM σ) α) (Q : α → σ → Prop) (s : σ) : Prop :=
  Ends x Q (fun _ _ => True) s

/-- What is known of the run itself may be used for its end. -/
theorem Ends.and_run (h : Ends x Q E s) :
    Ends x (fun a t => Q a t ∧ x.run s = (.ok a, t)) E s :=
  ends_iff.2 ⟨fun _ _ hr => ⟨h.of_run_ok hr, hr⟩, fun _ _ hr => h.of_run_error hr⟩

theorem Ends.of_run_eq_ok (hr : x.run s = (.ok a, t)) (hq : Q a t) : Ends x Q E s := by
  rw [Ends, hr]
  exact hq

/-- The run of a computation that has been evaluated. -/
theorem exists_run_of_isOk (h : (x.run s).1.isOk = true) : ∃ a t, x.run s = (.ok a, t) := by
  obtain ⟨a, ha⟩ := exists_of_isOk h
  exact ⟨a, (x.run s).2, Prod.ext ha rfl⟩

@[simp]
theorem ends_pure (a : α) : Ends (pure a) Q E s ↔ Q a s :=
  Iff.rfl

@[simp]
theorem ends_throw (f : Fault) : Ends (throw f) Q E s ↔ E f s :=
  Iff.rfl

@[simp]
theorem ends_get {Q : σ → σ → Prop} : Ends get Q E s ↔ Q s s :=
  Iff.rfl

@[simp]
theorem ends_modify (f : σ → σ) {Q : PUnit → σ → Prop} : Ends (modify f) Q E s ↔ Q ⟨⟩ (f s) :=
  Iff.rfl

@[simp]
theorem ends_lift (x : Except Fault α) :
    Ends (liftM x : ExceptT Fault (StateM σ) α) Q E s ↔ Yields x (Q · s) (E · s) := by
  cases x <;> rfl

/-- A sequence is run part by part. -/
theorem run_bind (x : ExceptT Fault (StateM σ) α) (f : α → ExceptT Fault (StateM σ) β) (s : σ) :
    (x >>= f).run s =
      match x.run s with
      | (.ok a, t) => (f a).run t
      | (.error e, t) => (.error e, t) := by
  show (x.run >>= ExceptT.bindCont f) s = _
  simp only [bind, StateT.bind]
  rcases x.run s with ⟨_ | _, t⟩ <;> rfl

@[simp]
theorem ends_bind (f : α → ExceptT Fault (StateM σ) β) {Q : β → σ → Prop} :
    Ends (x >>= f) Q E s ↔ Ends x (fun a => Ends (f a) Q E) E s := by
  unfold Ends
  rw [run_bind]
  rcases x.run s with ⟨_ | _, t⟩ <;> rfl

@[simp]
theorem ends_map (f : α → β) {Q : β → σ → Prop} :
    Ends (f <$> x) Q E s ↔ Ends x (fun a => Q (f a)) E s := by
  rw [map_eq_pure_bind, ends_bind]
  rfl

/-- The end of a sequence, where nothing has to be known of its first part. -/
theorem Leads.bind {f : α → ExceptT Fault (StateM σ) β} {Q : β → σ → Prop}
    (h : ∀ a t, Leads (f a) Q t) : Leads (x >>= f) Q s := by
  rw [Leads, ends_bind, ends_iff]
  exact ⟨fun a t _ => h a t, fun _ _ _ => trivial⟩

/-- A sequence that succeeds is a run of its first part and a run of the rest. -/
theorem exists_of_run_bind {f : α → ExceptT Fault (StateM σ) β} {b : β} {u : σ}
    (h : (x >>= f).run s = (.ok b, u)) :
    ∃ a t, x.run s = (.ok a, t) ∧ (f a).run t = (.ok b, u) := by
  have hleads : Leads (x >>= f)
      (fun b u => ∃ a t, x.run s = (.ok a, t) ∧ (f a).run t = (.ok b, u)) s := by
    rw [Leads, ends_bind, ends_iff]
    refine ⟨fun a t hx => ends_iff.2 ⟨fun b u hf => ⟨a, t, hx, hf⟩, ?_⟩, ?_⟩
    · exact fun _ _ _ => trivial
    · exact fun _ _ _ => trivial
  exact hleads.of_run_ok h

/-- Run from any state, the computation fails in `E` if it fails. -/
def StopsIn (x : ExceptT Fault (StateM σ) α) (E : Fault → Prop) : Prop :=
  ∀ s, Ends x (fun _ _ => True) (fun f _ => E f) s

theorem stopsIn_pure (a : α) (E : Fault → Prop) :
    StopsIn (pure a : ExceptT Fault (StateM σ) α) E :=
  fun _ => trivial

theorem stopsIn_lift {x : Except Fault α} {E : Fault → Prop} (h : FailsIn x E) :
    StopsIn (liftM x : ExceptT Fault (StateM σ) α) E := by
  intro s
  rw [ends_lift]
  exact h

theorem StopsIn.bind {f : α → ExceptT Fault (StateM σ) β} {E : Fault → Prop} (h : StopsIn x E)
    (hf : ∀ a, StopsIn (f a) E) : StopsIn (x >>= f) E := by
  intro s
  rw [ends_bind]
  exact (h s).mono (fun a t _ => hf a t) fun _ _ => id

theorem StopsIn.forM {f : α → ExceptT Fault (StateM σ) PUnit} {E : Fault → Prop} {l : List α}
    (h : ∀ a ∈ l, StopsIn (f a) E) : StopsIn (l.forM f) E := by
  intro s
  induction l generalizing s with
  | nil => trivial
  | cons a l ih =>
    show Ends (f a >>= fun _ => l.forM f) _ _ s
    exact StopsIn.bind (h a List.mem_cons_self)
      (fun _ t => ih (fun a ha => h a (List.mem_cons_of_mem _ ha)) t) s

theorem StopsIn.mapM {f : α → ExceptT Fault (StateM σ) β} {E : Fault → Prop} {l : List α}
    (h : ∀ a ∈ l, StopsIn (f a) E) : StopsIn (l.mapM f) E := by
  induction l with
  | nil =>
    rw [List.mapM_nil]
    exact stopsIn_pure _ E
  | cons a l ih =>
    rw [List.mapM_cons]
    refine (h a List.mem_cons_self).bind fun b => ?_
    exact (ih fun a ha => h a (List.mem_cons_of_mem _ ha)).bind fun bs => stopsIn_pure _ E

/-- A loop that passes a value on keeps what every round keeps. -/
theorem Ends.foldlM {f : β → α → ExceptT Fault (StateM σ) β} {I : β → σ → Prop} {l : List α}
    (h : ∀ b, ∀ a ∈ l, ∀ s, I b s → Ends (f b a) I E s) {b : β} (hb : I b s) :
    Ends (l.foldlM f b) I E s := by
  induction l generalizing b s with
  | nil => exact hb
  | cons a l ih =>
    rw [List.foldlM_cons, ends_bind]
    exact (h b a List.mem_cons_self s hb).mono
      (fun c t hc => ih (fun b a ha => h b a (List.mem_cons_of_mem _ ha)) hc) fun _ _ => id

/-- A loop without results keeps what every round keeps. -/
theorem Ends.forM {f : α → ExceptT Fault (StateM σ) PUnit} {I : σ → Prop} {l : List α}
    (h : ∀ a ∈ l, ∀ s, I s → Ends (f a) (fun _ => I) E s) (hs : I s) :
    Ends (l.forM f) (fun _ => I) E s := by
  induction l generalizing s with
  | nil => exact hs
  | cons a l ih =>
    show Ends (f a >>= fun _ => l.forM f) _ E s
    rw [ends_bind]
    exact (h a List.mem_cons_self s hs).mono
      (fun _ t ht => ih (fun a ha => h a (List.mem_cons_of_mem _ ha)) ht) fun _ _ => id

/-- A loop that collects results: its invariant speaks of the items done and of their results. -/
theorem Ends.mapM {f : α → ExceptT Fault (StateM σ) β} {I : List α → List β → σ → Prop}
    {l : List α} (h : ∀ done a bs s, a ∈ l → I done bs s →
      Ends (f a) (fun b => I (done ++ [a]) (bs ++ [b])) E s)
    (hs : I [] [] s) : Ends (l.mapM f) (I l) E s := by
  suffices hg : ∀ (rest done : List α) (bs : List β) (s : σ), (∀ a ∈ rest, a ∈ l) → I done bs s →
      Ends (rest.mapM f) (fun cs => I (done ++ rest) (bs ++ cs)) E s by
    simpa using hg l [] [] s (fun _ => id) hs
  intro rest
  induction rest with
  | nil =>
    intro done bs s _ hI
    rw [List.mapM_nil, ends_pure]
    simpa using hI
  | cons a rest ih =>
    intro done bs s hl hI
    rw [List.mapM_cons, ends_bind]
    refine (h done a bs s (hl a List.mem_cons_self) hI).mono (fun b t hb => ?_) fun _ _ => id
    rw [ends_bind]
    refine (ih (done ++ [a]) (bs ++ [b]) t (fun c hc => hl c (List.mem_cons_of_mem a hc)) hb).mono
      (fun cs u hcs => ?_) fun _ _ => id
    rw [ends_pure]
    simpa using hcs

end Ends

end RenderGraph
