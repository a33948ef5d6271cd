import RenderGraph.Proofs.Plan.StageProgram
import RenderGraph.Proofs.Shader.CommentedBody

/-!
# Comments do not matter where they stand aside

Two bodies that are the same without their comments are prepared alike up to comments, and as bodies of stages
they are completed alike, as long as the comments of both stand aside and declare none of the functions that
are looked for. A comment that declares one is taken for the declaration.

## Main definitions

* `Plan.stageFrame`: the program of a stage around its body, given whether that has a main function

## Main results

* `Plan.stageProgram_eq`: the program of a stage is its body in a frame
* `Plan.commented_alike`: comments matter neither to the preparation of a body nor to the main function
* `Plan.commented_declarations_count`: but the declarations in them do
-/

namespace RenderGraph.Plan

open Source (Comment Woven comments mainDeclaration stripChars stripComments)
open Shader (Unobtrusive prepareBody)

/-! ### Main functions -/

/-- A main function is found with comments where it is found without them. -/
theorem occurs_main_stripComments {code : String} (h : ∀ c ∈ comments code, c.Aside ["main"]) :
    Text.occurs mainDeclaration (stripComments code).toList = Text.occurs mainDeclaration code.toList := by
  have hmeets (c : Comment) (hc : c.Aside ["main"]) : Text.Meets c.before c.behind = false :=
    (Source.joins_eq_false_iff.1 hc.apart).1
  have hwoven := Source.woven_of_comments hmeets h
  have hp : Text.Phrased mainDeclaration (Source.Declares "main") :=
    Source.phrased_voidDeclaration (by decide) (by decide)
  rw [stripComments, String.toList_ofList]
  refine (hwoven.occurs_eq hp fun code m raw clear hm hok hw => ?_).symm
  obtain ⟨before, hmeets, haside⟩ := hok
  have hplaced : Source.Placed (fun _ _ => True) ["main"] code m clear := haside.placed hmeets trivial
  exact hplaced.declares (by simp) (by decide) (by decide) hm hw

/-- What stands before the body of a stage and behind it, and the uniforms of its program. A stage whose body
has no main function gets one. -/
def stageFrame (scene : Scene) (node : Node) (io : Source.Interface) (textures : Keyed String)
    (isLoop hasFeedback hasMain : Bool) : Except Fault (String × String × Keyed Uniform) := do
  let d ← Shader.declareStages scene node {}
  let main ← if hasMain then pure "" else (io.inputs.mapM (entryArgument scene node textures)).map mainCall
  let defines := definedReferences io.references textures
  pure (unlines (stageLines scene node io.references textures isLoop hasFeedback d.lines) ++ "\n",
    "\n" ++ main,
    defines.foldl (fun u r => u.insert r.1 { type := .sampler2D, value := .text r.2 }) d.uniforms)

/-- The program of a stage depends on its body in one place, and on whether that has a main function. -/
theorem stageProgram_eq (scene : Scene) (node : Node) (body : String) (io : Source.Interface)
    (textures : Keyed String) (isLoop hasFeedback : Bool) :
    stageProgram scene node body io textures isLoop hasFeedback =
      (stageFrame scene node io textures isLoop hasFeedback
        (Text.occurs mainDeclaration body.toList)).map
          fun r => (r.1 ++ Source.stripPragmas body ++ r.2.1, r.2.2) := by
  unfold stageProgram stageFrame
  cases Shader.declareStages scene node {} with
  | error e => rfl
  | ok d =>
    have hassoc (front main : String) : front ++ "\n" ++ Source.stripPragmas body ++ "\n" ++ main =
        front ++ "\n" ++ Source.stripPragmas body ++ ("\n" ++ main) := String.append_assoc ..
    dsimp only [bind, Except.bind]
    rw [code_eq_unlines]
    simp only [hassoc]
    cases Text.occurs mainDeclaration body.toList with
    | true => rfl
    | false =>
      cases harguments : io.inputs.mapM (entryArgument scene node textures) with
      | error e => rfl
      | ok arguments => rfl

/-- Two bodies that are the same without comments are prepared alike up to comments, if their comments are
unobtrusive; and the programs of stages are the same around them, if no comment declares a main function or
stands inside of its declaration. -/
theorem commented_alike {s₁ s₂ : String} (hkept : stripComments s₁ = stripComments s₂) (node : Node) :
    (Unobtrusive node s₁ → Unobtrusive node s₂ → ∀ fallback,
      (prepareBody node s₁ fallback).map stripComments = (prepareBody node s₂ fallback).map stripComments) ∧
    ((∀ c ∈ comments s₁ ++ comments s₂, c.Aside ["main"]) →
      ∃ hasMain, ∀ body ∈ [s₁, s₂], ∀ scene io textures isLoop hasFeedback,
        stageProgram scene node body io textures isLoop hasFeedback =
          (stageFrame scene node io textures isLoop hasFeedback hasMain).map
            fun r => (r.1 ++ Source.stripPragmas body ++ r.2.1, r.2.2)) := by
  refine ⟨fun h₁ h₂ fallback => ?_, fun haside => ?_⟩
  · rw [Shader.prepareBody_stripComments h₁, hkept, ← Shader.prepareBody_stripComments h₂]
  · obtain ⟨h₁, h₂⟩ := List.forall_mem_append.1 haside
    have hmain : Text.occurs mainDeclaration s₁.toList = Text.occurs mainDeclaration s₂.toList := by
      rw [← occurs_main_stripComments h₁, hkept, occurs_main_stripComments h₂]
    refine ⟨Text.occurs mainDeclaration s₁.toList,
      fun body hbody scene io textures isLoop hasFeedback => ?_⟩
    rw [stageProgram_eq]
    rcases List.mem_pair.1 hbody with rfl | rfl
    · rfl
    · rw [hmain]

/-- A node with an array input. -/
def sumNode : Node :=
  { id := "sum", inputs := [{ id := "xs", name := none, type := .array .float }] }

/-- A body with comments inside of calls and behind them. -/
def sumBody : String :=
  "void run(float xs[]) \x7b f(/* [2] */); \x7d\nfloat f() \x7b // run"

/-- The same with other comments. -/
def sumBodyRevised : String :=
  "void run(float xs[]) \x7b f(/**/); \x7d//\nfloat f() \x7b /* f"

theorem commented_alike_sum :
    stripComments sumBody = stripComments sumBodyRevised ∧
    (prepareBody sumNode sumBody (.int 3)).map stripComments =
      (prepareBody sumNode sumBodyRevised (.int 3)).map stripComments ∧
    ∃ hasMain, ∀ body ∈ [sumBody, sumBodyRevised], ∀ scene io textures isLoop hasFeedback,
      stageProgram scene sumNode body io textures isLoop hasFeedback =
        (stageFrame scene sumNode io textures isLoop hasFeedback hasMain).map
          fun r => (r.1 ++ Source.stripPragmas body ++ r.2.1, r.2.2) := by
  have hkept : stripComments sumBody = stripComments sumBodyRevised :=
    congrArg String.ofList (by decide +kernel)
  obtain ⟨hprepared, hcompleted⟩ := commented_alike hkept sumNode
  exact ⟨hkept, hprepared (by decide +kernel) (by decide +kernel) (.int 3), hcompleted (by decide +kernel)⟩

/-- A comment that declares the entry function keeps a body from being exchanged for one that gives black, and
one that declares a main function keeps a stage from getting one. -/
theorem commented_declarations_count :
    (stripComments "//void run(" = stripComments "" ∧
      (prepareBody sumNode "//void run(" (.int 3)).map stripComments ≠
        (prepareBody sumNode "" (.int 3)).map stripComments) ∧
    stripComments "//void main(" = stripComments "" ∧
      Text.occurs mainDeclaration "//void main(".toList = true ∧
      Text.occurs mainDeclaration "".toList = false := by
  refine ⟨⟨by decide +kernel, ?_⟩, by decide +kernel⟩
  have hkept : prepareBody sumNode "//void run(" (.int 3) = .ok "//void node_sum_run(" := by decide +kernel
  have hexchanged : prepareBody sumNode "" (.int 3) = .ok ("void node_sum_run(vec2 uv, out vec4 out_fallback)" ++
      " \x7b\n  int xs_index = clamp(u_sum_xs_index, 0, 2);\n out_fallback = vec4(0.0); \x7d") := by
    decide +kernel
  rw [hkept, hexchanged]
  intro h
  have hchars := String.ofList_injective (Except.ok.inj h)
  rw [String.toList_append] at hchars
  repeat rw [String.toList_ofList] at hchars
  exact absurd hchars (by decide +kernel)

end RenderGraph.Plan
