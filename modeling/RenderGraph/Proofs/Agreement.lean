import RenderGraph.Proofs.Outcome

/-!
# Two runs side by side

Two computations agree when they give related results or report the same fault. Nothing is asked of a
computation that raises a fault instead of reporting it: once a run has raised a fault, there is no
result to compare.

The rules follow the ways in which computations are put together. Loops go over lists that are related
item by item.

## Main definitions

* `Agree`: of computations without state
* `Agrees`: of computations with state, under a relation between the states

## Main results

* `Agree.bind`, `Agree.mapM`, `Agree.foldlM`, and the same for `Agrees`
* `Agree.of_imp`: computations that report nothing
-/

namespace RenderGraph

variable {σ α β γ δ : Type}

/-! ### Computations without state -/

/-- The outcomes are related results or the same fault, unless a fault is raised. -/
inductive Agree (R : α → β → Prop) : Except Fault α → Except Fault β → Prop
  | ok {a : α} {b : β} (h : R a b) : Agree R (.ok a) (.ok b)
  | fault (f : Fault) : Agree R (.error f) (.error f)
  | left {f : Fault} (y : Except Fault β) (h : f.isCompilation = false) : Agree R (.error f) y
  | right {f : Fault} (x : Except Fault α) (h : f.isCompilation = false) : Agree R x (.error f)

/-- The computation reports nothing: if it fails, it raises a fault. -/
abbrev Raises (x : Except Fault α) : Prop :=
  FailsIn x fun f => f.isCompilation = false

namespace Agree

variable {x : Except Fault α} {y : Except Fault β} {R R' : α → β → Prop}

theorem refl (x : Except Fault α) : Agree Eq x x := by
  cases x with
  | ok a => exact .ok rfl
  | error f => exact .fault f

theorem of_eq {y : Except Fault α} (h : x = y) : Agree Eq x y :=
  h ▸ refl x

theorem mono (h : Agree R x y) (hR : ∀ a b, R a b → R' a b) : Agree R' x y := by
  cases h with
  | ok h => exact .ok (hR _ _ h)
  | fault f => exact .fault f
  | left y h => exact .left y h
  | right x h => exact .right x h

/-- What is known of the outcomes themselves may be used for their results. -/
theorem and_eq (h : Agree R x y) : Agree (fun a b => R a b ∧ x = .ok a ∧ y = .ok b) x y := by
  cases h with
  | ok h => exact .ok ⟨h, rfl, rfl⟩
  | fault f => exact .fault f
  | left y h => exact .left y h
  | right x h => exact .right x h

theorem bind {f : α → Except Fault γ} {g : β → Except Fault δ} {Q : γ → δ → Prop}
    (h : Agree R x y) (hf : ∀ a b, R a b → Agree Q (f a) (g b)) :
    Agree Q (x >>= f) (y >>= g) := by
  cases h with
  | ok h => exact hf _ _ h
  | fault f => exact .fault f
  | left y h => exact .left _ h
  | right x h => exact .right _ h

theorem map {f : α → γ} {g : β → δ} {Q : γ → δ → Prop} (h : Agree R x y)
    (hf : ∀ a b, R a b → Q (f a) (g b)) : Agree Q (x.map f) (y.map g) := by
  cases h with
  | ok h => exact .ok (hf _ _ h)
  | fault f => exact .fault f
  | left y h => exact .left _ h
  | right x h => exact .right _ h

/-- Computations that report nothing agree on all that holds of their results. -/
theorem of_raises (hx : Raises x) (hy : Raises y) (h : ∀ a b, x = .ok a → y = .ok b → R a b) :
    Agree R x y := by
  cases x with
  | error f => exact .left y hx
  | ok a =>
    cases y with
    | error f => exact .right _ hy
    | ok b => exact .ok (h a b rfl rfl)

/-- Computations that report nothing agree as far as they are known to be equal. -/
theorem of_imp {P : Prop} {y : Except Fault α} (hx : Raises x) (hy : Raises y) (h : P → x = y) :
    Agree (fun a b => P → a = b) x y :=
  of_raises hx hy fun _ _ ha hb hP => Except.ok.inj (ha.symm.trans ((h hP).trans hb))

/-- A loop that collects results, over related items. -/
theorem mapM {f : α → Except Fault γ} {g : β → Except Fault δ} {Q : γ → δ → Prop} {l : List α}
    {m : List β} (hl : List.Forall₂ R l m) (h : ∀ a b, R a b → Agree Q (f a) (g b)) :
    Agree (List.Forall₂ Q) (l.mapM f) (m.mapM g) := by
  induction hl with
  | nil => exact .ok .nil
  | cons hab _ ih =>
    rw [List.mapM_cons, List.mapM_cons]
    exact (h _ _ hab).bind fun c d hcd => ih.bind fun cs ds hcs => .ok (.cons hcd hcs)

/-- A loop that passes a value on, over related items. -/
theorem foldlM {f : γ → α → Except Fault γ} {g : δ → β → Except Fault δ} {I : γ → δ → Prop}
    {l : List α} {m : List β} (hl : List.Forall₂ R l m)
    (h : ∀ c d a b, I c d → R a b → Agree I (f c a) (g d b)) {c : γ} {d : δ} (hcd : I c d) :
    Agree I (l.foldlM f c) (m.foldlM g d) := by
  induction hl generalizing c d with
  | nil => exact .ok hcd
  | cons hab _ ih =>
    rw [List.foldlM_cons, List.foldlM_cons]
    exact (h c d _ _ hcd hab).bind fun _ _ => ih

end Agree

/-- Items of one list are related to themselves. -/
theorem forall₂_self (l : List α) : List.Forall₂ (fun a b => a ∈ l ∧ a = b) l l :=
  List.forall₂_same.2 fun _ ha => ⟨ha, rfl⟩

/-! ### Computations with state -/

/-- The runs end in related states with related results or the same fault, unless a fault is raised. -/
inductive EndAlike (S : σ → σ → Prop) (R : α → β → Prop) :
    Except Fault α × σ → Except Fault β × σ → Prop
  | ok {a : α} {b : β} {s t : σ} (h : R a b) (hs : S s t) : EndAlike S R (.ok a, s) (.ok b, t)
  | fault {s t : σ} (f : Fault) (hs : S s t) : EndAlike S R (.error f, s) (.error f, t)
  | left {f : Fault} {s : σ} (q : Except Fault β × σ) (h : f.isCompilation = false) :
      EndAlike S R (.error f, s) q
  | right {f : Fault} {t : σ} (p : Except Fault α × σ) (h : f.isCompilation = false) :
      EndAlike S R p (.error f, t)

/-- Run from related states, the computations end in related states with related results or the same
fault, unless a fault is raised. -/
def Agrees (S : σ → σ → Prop) (R : α → β → Prop) (x : ExceptT Fault (StateM σ) α)
    (y : ExceptT Fault (StateM σ) β) : Prop :=
  ∀ s t, S s t → EndAlike S R (x.run s) (y.run t)

namespace Agrees

variable {S : σ → σ → Prop} {R R' : α → β → Prop} {x : ExceptT Fault (StateM σ) α}
  {y : ExceptT Fault (StateM σ) β}

theorem pure {a : α} {b : β} (h : R a b) : Agrees S R (pure a) (pure b) :=
  fun _ _ hs => .ok h hs

theorem get : Agrees S S (get : ExceptT Fault (StateM σ) σ) get :=
  fun _ _ hs => .ok hs hs

theorem modify {f g : σ → σ} (h : ∀ s t, S s t → S (f s) (g t)) :
    Agrees S (fun _ _ => True) (modify f : ExceptT Fault (StateM σ) PUnit) (modify g) :=
  fun s t hs => .ok trivial (h s t hs)

theorem lift {x : Except Fault α} {y : Except Fault β} (h : Agree R x y) :
    Agrees S R (liftM x : ExceptT Fault (StateM σ) α) (liftM y) := by
  intro s t hs
  cases h with
  | ok h => exact .ok h hs
  | fault f => exact .fault f hs
  | left y h => exact .left _ h
  | right x h => exact .right _ h

theorem throw (f : Fault) : Agrees S R (throw f) (throw f) :=
  fun _ _ hs => .fault f hs

/-- Nothing is asked of a computation that always raises a fault. -/
theorem of_left (h : ∀ s, Ends x (fun _ _ => False) (fun f _ => f.isCompilation = false) s) :
    Agrees S R x y := by
  intro s t _
  rcases hr : x.run s with ⟨f | a, u⟩
  · exact .left _ ((h s).of_run_error hr)
  · exact ((h s).of_run_ok hr).elim

theorem of_right (h : ∀ t, Ends y (fun _ _ => False) (fun f _ => f.isCompilation = false) t) :
    Agrees S R x y := by
  intro s t _
  rcases hr : y.run t with ⟨f | b, u⟩
  · exact .right _ ((h t).of_run_error hr)
  · exact ((h t).of_run_ok hr).elim

theorem mono (h : Agrees S R x y) (hR : ∀ a b, R a b → R' a b) : Agrees S R' x y := by
  intro s t hs
  have hr := h s t hs
  generalize x.run s = p at hr ⊢
  generalize y.run t = q at hr ⊢
  cases hr with
  | ok h hs => exact .ok (hR _ _ h) hs
  | fault f hs => exact .fault f hs
  | left q h => exact .left q h
  | right p h => exact .right p h

theorem bind {f : α → ExceptT Fault (StateM σ) γ} {g : β → ExceptT Fault (StateM σ) δ}
    {Q : γ → δ → Prop} (h : Agrees S R x y) (hf : ∀ a b, R a b → Agrees S Q (f a) (g b)) :
    Agrees S Q (x >>= f) (y >>= g) := by
  intro s t hs
  have hr := h s t hs
  rw [run_bind, run_bind]
  generalize x.run s = p at hr ⊢
  generalize y.run t = q at hr ⊢
  cases hr with
  | ok h hs => exact hf _ _ h _ _ hs
  | fault f hs => exact .fault f hs
  | left q h => exact .left _ h
  | right p h => exact .right _ h

theorem mapM {f : α → ExceptT Fault (StateM σ) γ} {g : β → ExceptT Fault (StateM σ) δ}
    {Q : γ → δ → Prop} {l : List α} {m : List β} (hl : List.Forall₂ R l m)
    (h : ∀ a b, R a b → Agrees S Q (f a) (g b)) :
    Agrees S (List.Forall₂ Q) (l.mapM f) (m.mapM g) := by
  induction hl with
  | nil => exact pure .nil
  | cons hab _ ih =>
    rw [List.mapM_cons, List.mapM_cons]
    exact (h _ _ hab).bind fun c d hcd => ih.bind fun cs ds hcs => pure (.cons hcd hcs)

theorem foldlM {f : γ → α → ExceptT Fault (StateM σ) γ} {g : δ → β → ExceptT Fault (StateM σ) δ}
    {I : γ → δ → Prop} {l : List α} {m : List β} (hl : List.Forall₂ R l m)
    (h : ∀ c d a b, I c d → R a b → Agrees S I (f c a) (g d b)) {c : γ} {d : δ} (hcd : I c d) :
    Agrees S I (l.foldlM f c) (m.foldlM g d) := by
  induction hl generalizing c d with
  | nil => exact pure hcd
  | cons hab _ ih =>
    rw [List.foldlM_cons, List.foldlM_cons]
    exact (h c d _ _ hcd hab).bind fun _ _ => ih

theorem forM {f : α → ExceptT Fault (StateM σ) PUnit} {g : β → ExceptT Fault (StateM σ) PUnit}
    {l : List α} {m : List β} (hl : List.Forall₂ R l m)
    (h : ∀ a b, R a b → Agrees S (fun _ _ => True) (f a) (g b)) :
    Agrees S (fun _ _ => True) (l.forM f) (m.forM g) := by
  induction hl with
  | nil => exact pure trivial
  | cons hab _ ih => exact (h _ _ hab).bind fun _ _ _ => ih

end Agrees

end RenderGraph
