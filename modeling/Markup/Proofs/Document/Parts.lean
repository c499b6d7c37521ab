import Markup.Document.Documents
import Markup.Proofs.Stateful

/-!
# The parts of a node

A host sets up an element through its capabilities alone.  So whatever sort of operations its
capabilities belong to (`Operation.Closed`), all that is done with the parts of a node belongs to
the same sort: its plain attributes, its id, its classes and its style, its listeners, its content
and the children that cannot be nodes.
-/

namespace Markup.Operation.Closed

variable {P : ∀ ⦃α : Type⦄, Operation α → Prop} (hP : Closed P) {h : Host Operation Value}
  {e : Value}

include hP

section Attributes

variable (hset : ∀ key value, P (h.setAttribute e key value))

include hset

protected theorem setPlain (key value : Term) : P (h.setPlain e key value) := by
  refine hP.bind (hP.raised _) fun shown => ?_
  cases shown with
  | none => exact hP.done ()
  | some shown => exact hset key.toValue shown.toValue

protected theorem setAttributes (attrs : Term) : P (h.setAttributes e attrs) :=
  hP.bind (hP.raised _) fun entries =>
    hP.forM (fun entry => hP.setPlain hset entry.1 entry.2) entries

protected theorem setAttributesStepwise (attrs : Value) : P (setAttributesStepwise h e attrs) := by
  refine hP.bind (hP.read attrs) fun t => hP.bind (hP.ofExcept _) fun entries => ?_
  refine hP.forM (fun entry => ?_) entries
  exact hP.bind (hP.read _) fun key => hP.bind (hP.read _) fun value => hP.setPlain hset key value

protected theorem setStyle (style : Term) : P (h.setStyle e style) := by
  rw [Host.setStyle]
  split
  · exact hP.done ()
  · exact hP.bind (hP.raised _) fun text => hset (.text "style") (.text text)

end Attributes

section Properties

variable (hassign : ∀ changed value, P (h.setProperty e changed value))

include hassign

protected theorem setId (id : Term) : P (h.setId e id) := by
  rw [Host.setId]
  split
  · exact hP.done ()
  · exact hassign .id id.toValue

protected theorem setClasses (classes : Term) : P (h.setClasses e classes) := by
  rw [Host.setClasses]
  split
  · exact hP.bind (hP.raised _) fun joined => hassign .className (.text joined)
  · exact hP.done ()

end Properties

section Listeners

variable (hadd : ∀ event listener, P (h.addEventListener e event listener))

include hadd

protected theorem addListenersFor (event : Value) (listeners : Term) :
    P (h.addListenersFor e event listeners) := by
  rw [Host.addListenersFor.eq_def]
  split
  · next p => exact hP.discard (hP.answers (fun i => hadd event (.int i)) p)
  · exact hP.bind (hP.raised _) fun items =>
      hP.forM (fun listener => hadd event listener.toValue) items

protected theorem addListeners (listeners : Term) : P (h.addListeners e listeners) :=
  hP.bind (hP.raised _) fun entries =>
    hP.forM (fun entry => hP.addListenersFor hadd entry.1.toValue entry.2) entries

end Listeners

protected theorem addContent (happend : ∀ text, P (h.appendText e text)) (content : Term) :
    P (h.addContent e content) := by
  rw [Host.addContent]
  split
  · exact hP.done ()
  · exact happend content.toValue

protected theorem appendLeaves (happend : ∀ text, P (h.createTextNode text >>= h.appendChild e))
    (ts : List Term) : P (h.appendLeaves e ts) := by
  induction ts with
  | nil =>
    rw [Host.appendLeaves]
    exact hP.done ()
  | cons t ts ih =>
    rw [Host.appendLeaves.eq_def]
    split
    · exact hP.done ()
    · next s rest heq =>
      obtain ⟨rfl, rfl⟩ := List.cons.inj heq
      rw [← bind_assoc]
      exact hP.bind (happend (.text s)) fun _ => ih
    · exact hP.failed _

end Markup.Operation.Closed
