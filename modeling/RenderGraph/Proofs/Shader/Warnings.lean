import RenderGraph.Proofs.Outcome
import RenderGraph.Shader.Fragment

/-!
# What the writing of a program warns of

The writing of a program warns of one thing only: of an element of an array whose source is not called
before it.

## Main definitions

* `Shader.TellsOfElement`: the warning tells of an element of an array

## Main results

* `Shader.tellsOfElement_of_fragment`
-/

namespace RenderGraph.Shader

/-- The warning tells of an element of an array. -/
def TellsOfElement (warning : String) : Prop :=
  ∃ rest, warning = "Array element " ++ rest

variable {α β : Type}

/-- The computation warns of elements of arrays only. -/
private def Warns (x : CallM α) : Prop :=
  ∀ s : CallState, (∀ w ∈ s.warnings, TellsOfElement w) →
    Leads x (fun _ s' => ∀ w ∈ s'.warnings, TellsOfElement w) s

namespace Warns

private theorem pure (a : α) : Warns (Pure.pure a) :=
  fun _ hs => hs

private theorem lift (x : Except Fault α) : Warns (liftM x) := by
  intro s hs
  rw [Leads, ends_lift, yields_iff]
  exact ⟨fun _ _ => hs, fun _ _ => trivial⟩

private theorem bind {x : CallM α} {f : α → CallM β} (h : Warns x) (hf : ∀ a, Warns (f a)) :
    Warns (x >>= f) := by
  intro s hs
  rw [Leads, ends_bind]
  exact (h s hs).mono (fun a t ht => hf a t ht) fun _ _ => id

private theorem forM {f : α → CallM PUnit} (l : List α) (h : ∀ a, Warns (f a)) :
    Warns (l.forM f) :=
  fun _ hs => Ends.forM (I := fun s : CallState => ∀ w ∈ s.warnings, TellsOfElement w)
    (fun a _ s hs => h a s hs) hs

private theorem mapM {f : α → CallM β} (l : List α) (h : ∀ a, Warns (f a)) : Warns (l.mapM f) :=
  fun _ hs => Ends.mapM (I := fun _ _ (s : CallState) => ∀ w ∈ s.warnings, TellsOfElement w)
    (fun _ a _ s _ hs => h a s hs) hs

end Warns

private theorem warns_writeLine (line : String) : Warns (writeLine line) :=
  fun _ hs => hs

variable {ctx : CallContext}

private theorem warns_assignElement (n : Node) (port : Port) (length : Nat) (element : Edge × Nat) :
    Warns (assignElement ctx n port length element) := by
  unfold assignElement
  refine (Warns.lift _).bind fun value => ?_
  cases value with
  | some value => exact warns_writeLine _
  | none =>
    refine Warns.bind (fun s hs w hw => ?_) fun _ => warns_writeLine _
    rcases List.mem_append.1 hw with hw | hw
    · exact hs w hw
    · obtain rfl := List.mem_singleton.1 hw
      refine ⟨element.1.targetPort.getD "" ++ (" of " ++ (n.id ++ " is not reachable in this pass")), ?_⟩
      rw [String.append_assoc, String.append_assoc, String.append_assoc]

private theorem warns_argument (n : Node) (port : Port) : Warns (argument ctx n port) := by
  unfold argument
  split
  · exact .pure _
  · dsimp only
    have hrest (elements : List (Edge × Nat)) : Warns (if elements.isEmpty then
        (liftM (plainArgument ctx n port (ctx.scene.graph.edgeInto n.id (some port.id))) : CallM String)
        else assembleArray ctx n port elements) := by
      split
      · exact .lift _
      · unfold assembleArray
        refine (Warns.lift _).bind fun length => (Warns.forM _ warns_writeLine).bind fun _ => ?_
        exact (Warns.forM _ fun element => warns_assignElement n port length element).bind
          fun _ => .pure _
    split
    · exact (Warns.lift _).bind hrest
    · exact (Warns.pure _).bind hrest

private theorem warns_nodeCall (n : Node) : Warns (nodeCall ctx n) := by
  have hwith (results : List Port) : Warns (callWith ctx n results) := by
    unfold callWith
    refine (Warns.mapM _ (warns_argument n)).bind fun arguments => ?_
    exact (Warns.forM _ fun _ => warns_writeLine _).bind fun _ => warns_writeLine _
  unfold nodeCall
  refine (Warns.lift _).bind fun role => ?_
  cases role with
  | uniform => exact .pure _
  | inputProxy => exact (Warns.forM _ fun _ => warns_writeLine _).bind fun _ => warns_writeLine _
  | outputProxy => exact hwith _
  | function => exact hwith _

private theorem warns_callNodes (order : List Node) : Warns (callNodes ctx order) := by
  induction order generalizing ctx with
  | nil => exact .pure _
  | cons n order ih => exact (warns_nodeCall n).bind fun _ => ih

/-- Whoever writes a program warns of elements of arrays only. -/
theorem tellsOfElement_of_fragment {scene : Scene} {textures : Keyed String} {order : List Node}
    {output : Node} {port : Port} {program : String × Keyed Uniform} {s : CallState}
    (h : (fragment scene textures order output port).run {} = (.ok program, s)) :
    ∀ w ∈ s.warnings, TellsOfElement w := by
  have hwarns : Warns (fragment scene textures order output port) := by
    unfold fragment
    refine (Warns.lift _).bind fun d => (Warns.lift _).bind fun functions => ?_
    refine Warns.bind ?_ fun main => .pure _
    unfold mainFunction
    exact (warns_callNodes order).bind fun _ => fun s hs => hs
  have hnone : ∀ w ∈ ({} : CallState).warnings, TellsOfElement w := by
    intro w hw
    cases hw
  exact (hwarns {} hnone).of_run_ok h

end RenderGraph.Shader
