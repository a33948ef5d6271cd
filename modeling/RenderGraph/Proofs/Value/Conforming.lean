import RenderGraph.Value.Bound

/-!
# Bound values that were brought in line

Whatever a bound value holds, and whatever type it was set for: once it is brought in line with a type, it
has that type, its value fits it, and it is edited as before. The values that are left alone are those that
conform, so bringing a value in line a second time changes nothing.

## Main definitions

* `BoundValue.editing`: how a bound value is edited

## Main results

* `BoundValue.conform_eq_self_iff`: which bound values are left alone
* `BoundValue.conform_spec`: what a bound value is once it is brought in line
-/

namespace RenderGraph.BoundValue

variable {bound : Option BoundValue} {t : DataType} {b : BoundValue}

/-- How a bound value is edited: its widget and the settings of it, neither for an absent one. -/
def editing (bound : Option BoundValue) : Value × Keyed Value :=
  match bound with
  | none => (.null, .empty)
  | some b => (b.widget, b.settings)

theorem editing_migrate (h : migrate bound t = .ok b) : editing (some b) = editing bound := by
  cases bound with
  | none =>
    cases h
    rfl
  | some a =>
    obtain ⟨plain, -, h⟩ := Fault.bind_eq_ok_iff.1 h
    obtain ⟨value, -, h⟩ := Fault.bind_eq_ok_iff.1 h
    cases h
    rfl

theorem editing_conform (h : conform bound t = .ok b) : editing (some b) = editing bound := by
  unfold conform at h
  cases bound with
  | none => exact editing_migrate h
  | some a =>
    dsimp only at h
    split at h
    · exact editing_migrate h
    · split at h
      · cases h
        rfl
      · cases h
        rfl

/-- A bound value is left alone if and only if it conforms. -/
theorem conform_eq_self_iff : conform (some b) t = .ok b ↔ b.conforms t = true :=
  ⟨conforms_of_conform, conform_of_conforms⟩

/-- Once a bound value, or an absent one, is brought in line with a type: it has that type, its value fits
it, it is edited as before, and it is left alone from then on. -/
theorem conform_spec (h : conform bound t = .ok b) :
    b.type = t ∧ b.value.fits t = true ∧ (b.widget, b.settings) = editing bound ∧
      conform (some b) t = .ok b := by
  have hconforms := conforms_of_conform h
  have hboth := hconforms
  rw [conforms, Bool.and_eq_true, decide_eq_true_eq] at hboth
  exact ⟨hboth.1, hboth.2, editing_conform h, conform_eq_self_iff.2 hconforms⟩

/-- Two components become three, beside the settings of their widget; from then on there are three. -/
theorem conform_spec_slider :
    conform (some { type := .vec2, value := .list [.int 1, .int 2], widget := .text "slider",
                    settings := Keyed.ofList [("min", .int 0)] }) .vec3 =
      .ok { type := .vec3, value := .list [.int 1, .int 2, .float .zero], widget := .text "slider",
            settings := Keyed.ofList [("min", .int 0)] } ∧
    conform (some { type := .vec3, value := .list [.int 1, .int 2, .float .zero],
                    widget := .text "slider", settings := Keyed.ofList [("min", .int 0)] }) .vec3 =
      .ok { type := .vec3, value := .list [.int 1, .int 2, .float .zero], widget := .text "slider",
            settings := Keyed.ofList [("min", .int 0)] } := by
  have h : conform (some { type := .vec2, value := .list [.int 1, .int 2], widget := .text "slider",
                           settings := Keyed.ofList [("min", .int 0)] }) .vec3 =
      .ok { type := .vec3, value := .list [.int 1, .int 2, .float .zero], widget := .text "slider",
            settings := Keyed.ofList [("min", .int 0)] } :=
    rfl
  exact ⟨h, (conform_spec h).2.2.2⟩

end RenderGraph.BoundValue
