import Markup.Proofs.Tree.Rendered

/-!
# Trees of elements and the calls that make them

An `ElementTree` is what an element in memory is with all that is below it.  `Tree.element` is the
tree of elements that a document makes of a tree of nodes, and `Tree.calls` are the calls on the
document by which it is made.

`Replay.run` carries calls out on a stack: making a node pushes it, setting something acts on the
element on top, which has to have the recorded label and no children yet, and appending pops a
child into the element below it, both of which have to have the recorded labels.  The calls of a
tree push exactly its elements, whatever lies on the stack (`Replay.run_calls`).
-/

namespace Markup

/-- What an element in memory holds beside its children. -/
structure ElementParts where
  name : String
  isVoid : Bool
  id : String
  className : String
  attributes : Entries String String
  listeners : Entries String (List Value)

/-- Something that is set of an element before it has children. -/
inductive Setting where
  | attribute (key value : String)
  | property (changed : ElementProperty) (value : String)
  | listener (event : String) (callee : Value)

/-- The call by which something is set of the element with a label. -/
def Setting.call (label : String) : Setting → DocumentCall
  | .attribute key value => .setAttribute (.text label) (.text key) (.text value)
  | .property changed value => .setProperty (.text label) changed (.text value)
  | .listener event callee => .addEventListener (.text label) (.text event) callee

namespace ElementParts

/-- An element of which nothing is set. -/
def new (name : String) (isVoid : Bool) : ElementParts := ⟨name, isVoid, "", "", [], []⟩

@[simp] theorem name_new (name : String) (isVoid : Bool) : (new name isVoid).name = name := rfl

/-- The element with something set: a map keeps the place of a key that it has. -/
def set (p : ElementParts) : Setting → ElementParts
  | .attribute key value => { p with attributes := p.attributes.set key value }
  | .property .id value => { p with id := value }
  | .property .className value => { p with className := value }
  | .listener event callee => { p with listeners := p.listeners.extend event [callee] }

@[simp] theorem name_set (p : ElementParts) (s : Setting) : (p.set s).name = p.name := by
  rcases s with _ | ⟨_ | _, _⟩ | _ <;> rfl

@[simp] theorem isVoid_set (p : ElementParts) (s : Setting) : (p.set s).isVoid = p.isVoid := by
  rcases s with _ | ⟨_ | _, _⟩ | _ <;> rfl

/-- The element with several things set in order. -/
def setAll (p : ElementParts) (settings : List Setting) : ElementParts := settings.foldl set p

@[simp] theorem setAll_nil (p : ElementParts) : p.setAll [] = p := rfl

@[simp] theorem setAll_cons (p : ElementParts) (s : Setting) (settings : List Setting) :
    p.setAll (s :: settings) = (p.set s).setAll settings := rfl

theorem setAll_append (p : ElementParts) (first later : List Setting) :
    p.setAll (first ++ later) = (p.setAll first).setAll later :=
  List.foldl_append

@[simp] theorem name_setAll (p : ElementParts) (settings : List Setting) :
    (p.setAll settings).name = p.name := by
  induction settings generalizing p with
  | nil => rfl
  | cons s settings ih => rw [setAll_cons, ih, name_set]

/-- The element without its void flag. -/
def unflagged (p : ElementParts) : ElementParts := { p with isVoid := false }

theorem unflagged_set (p : ElementParts) (s : Setting) :
    (p.set s).unflagged = p.unflagged.set s := by
  rcases s with _ | ⟨_ | _, _⟩ | _ <;> rfl

theorem unflagged_setAll (p : ElementParts) (settings : List Setting) :
    (p.setAll settings).unflagged = p.unflagged.setAll settings := by
  induction settings generalizing p with
  | nil => rfl
  | cons s settings ih => rw [setAll_cons, ih, unflagged_set, setAll_cons]

end ElementParts

/-- An element in memory with all that is below it, or a text node. -/
inductive ElementTree where
  | text (data : String)
  | element (parts : ElementParts) (children : List ElementTree)

namespace ElementTree

@[elab_as_elim, induction_eliminator]
theorem ind {p : ElementTree → Prop} (text : ∀ s, p (.text s))
    (element : ∀ parts children, (∀ c ∈ children, p c) → p (.element parts children))
    (t : ElementTree) : p t := by
  refine t.rec (motive_2 := fun children => ∀ c ∈ children, p c) text element ?_ ?_
  · intro c hc
    cases hc
  · intro t ts ht hts c hc
    rcases List.mem_cons.mp hc with rfl | hc
    · exact ht
    · exact hts c hc

/-- The label under which a document knows it. -/
def label : ElementTree → String
  | .text _ => "#text"
  | .element p _ => p.name

mutual

/-- The same tree with all void flags taken down. -/
def unflagged : ElementTree → ElementTree
  | .text s => .text s
  | .element p children => .element p.unflagged (unflaggedAll children)

/-- The same trees with all void flags taken down. -/
def unflaggedAll : List ElementTree → List ElementTree
  | [] => []
  | t :: ts => t.unflagged :: unflaggedAll ts

end

theorem unflaggedAll_append (ts us : List ElementTree) :
    unflaggedAll (ts ++ us) = unflaggedAll ts ++ unflaggedAll us := by
  induction ts with
  | nil => rfl
  | cons t ts ih => rw [List.cons_append, unflaggedAll, ih, unflaggedAll, List.cons_append]

end ElementTree

/-! ## What is made of a node -/

namespace Head

/-- The style, if it is set. -/
def styleSetting (h : Head) : List Setting :=
  (h.style.map fun s => .attribute "style" s.write).toList

/-- The id, if it is assigned. -/
def idSetting (h : Head) : List Setting := (h.id.map (.property .id)).toList

/-- The classes, if they are assigned. -/
def classSetting (h : Head) : List Setting :=
  if h.classes.isEmpty then [] else [.property .className h.className]

/-- The plain attributes that are set. -/
def attrSettings (h : Head) : List Setting := h.shownAttrs.map fun e => .attribute e.1 e.2

/-- The listeners that are registered. -/
def listenerSettings (h : Head) : List Setting :=
  h.listeners.flatMap fun e => e.2.map (.listener e.1)

/-- All that is set of an element, in order. -/
def settings (h : Head) : List Setting :=
  h.attrSettings ++ h.idSetting ++ h.classSetting ++ h.styleSetting ++ h.listenerSettings

/-- The element without its children. -/
def parts (h : Head) : ElementParts := (ElementParts.new h.name h.isVoid).setAll h.settings

@[simp] theorem name_parts (h : Head) : h.parts.name = h.name := ElementParts.name_setAll _ _

/-- The calls that make an element and set all that it holds beside its children. -/
def calls (h : Head) : List DocumentCall :=
  .createElement (.text h.name) :: h.settings.map (Setting.call h.name)

/-- The call that appends a child with a label. -/
def appendCall (h : Head) (label : String) : DocumentCall :=
  .appendChild (.text h.name) (.text label)

/-- The content as a text node, if there is one. -/
def contentElement (h : Head) : List ElementTree := (h.content.map .text).toList

/-- The calls that make and append the content. -/
def contentCalls (h : Head) : List DocumentCall :=
  match h.content with
  | none => []
  | some s => [.createTextNode (.text s), h.appendCall "#text"]

end Head

namespace Tree

/-- The label under which a document knows what is made of a tree. -/
def label : Tree → String
  | .text _ => "#text"
  | .node h _ => h.name

mutual

/-- What a document makes of a tree. -/
def element : Tree → ElementTree
  | .text s => .text s
  | .node h children => .element h.parts (h.contentElement ++ elementsOf children)

/-- What a document makes of some trees. -/
def elementsOf : List Tree → List ElementTree
  | [] => []
  | t :: ts => t.element :: elementsOf ts

end

mutual

/-- The calls on a document by which it makes a tree. -/
def calls : Tree → List DocumentCall
  | .text s => [.createTextNode (.text s)]
  | .node h children => h.calls ++ h.contentCalls ++ callsBelow h children

/-- The calls by which the children of a node are made, each appended when it is complete. -/
def callsBelow (h : Head) : List Tree → List DocumentCall
  | [] => []
  | t :: ts => t.calls ++ h.appendCall t.label :: callsBelow h ts

end

@[simp] theorem label_element (t : Tree) : t.element.label = t.label := by
  cases t with
  | text s => rfl
  | node h children => exact h.name_parts

end Tree

/-! ## Carrying calls out on a stack -/

namespace Replay

/-- The label of an element, and what a call sets of it. -/
def setting? : DocumentCall → Option (String × Setting)
  | .setAttribute (.text label) (.text key) (.text value) => some (label, .attribute key value)
  | .setProperty (.text label) changed (.text value) => some (label, .property changed value)
  | .addEventListener (.text label) (.text event) callee => some (label, .listener event callee)
  | _ => none

@[simp] theorem setting?_call (label : String) (s : Setting) :
    setting? (s.call label) = some (label, s) := by
  cases s <;> rfl

/-- Carries out one call; what was made last is on top of the stack. -/
def step (stack : List ElementTree) (c : DocumentCall) : Option (List ElementTree) :=
  match c, stack with
  | .createElement (.text name), stack => some (.element (.new name false) [] :: stack)
  | .createTextNode (.text s), stack => some (.text s :: stack)
  | .appendChild (.text parent) (.text label), child :: .element p children :: stack =>
    if p.name = parent ∧ child.label = label then
      some (.element p (children ++ [child]) :: stack)
    else none
  | c, .element p [] :: stack =>
    match setting? c with
    | some (label, s) => if p.name = label then some (.element (p.set s) [] :: stack) else none
    | none => none
  | _, _ => none

/-- Carries out some calls in order. -/
def run (stack : List ElementTree) (calls : List DocumentCall) : Option (List ElementTree) :=
  calls.foldlM step stack

theorem run_cons {stack stack' : List ElementTree} {c : DocumentCall}
    (h : step stack c = some stack') (calls : List DocumentCall) :
    run stack (c :: calls) = run stack' calls := by
  rw [run, List.foldlM_cons, h]
  rfl

theorem run_append {stack stack' : List ElementTree} {calls : List DocumentCall}
    (h : run stack calls = some stack') (later : List DocumentCall) :
    run stack (calls ++ later) = run stack' later := by
  rw [run, List.foldlM_append, show calls.foldlM step stack = some stack' from h]
  rfl

theorem step_setting {p : ElementParts} {label : String} (hlabel : p.name = label) (s : Setting)
    (stack : List ElementTree) :
    step (.element p [] :: stack) (s.call label) = some (.element (p.set s) [] :: stack) := by
  rcases s with _ | ⟨_ | _, _⟩ | _ <;> simp [step, Setting.call, setting?, hlabel]

theorem step_append {p : ElementParts} {child : ElementTree} {parent label : String}
    (hparent : p.name = parent) (hlabel : child.label = label) (children stack : List ElementTree) :
    step (child :: .element p children :: stack) (.appendChild (.text parent) (.text label)) =
      some (.element p (children ++ [child]) :: stack) := by
  rw [step, if_pos ⟨hparent, hlabel⟩]

/-- What is set of the element on top is set in order. -/
theorem run_settings {p : ElementParts} {label : String} (hlabel : p.name = label)
    (settings : List Setting) (stack : List ElementTree) :
    run (.element p [] :: stack) (settings.map (Setting.call label)) =
      some (.element (p.setAll settings) [] :: stack) := by
  induction settings generalizing p with
  | nil => rfl
  | cons s settings ih =>
    rw [List.map_cons, run_cons (step_setting hlabel s stack), ih ((p.name_set s).trans hlabel)]
    rfl

end Replay

theorem ElementTree.label_unflagged (t : ElementTree) : t.unflagged.label = t.label := by
  cases t <;> rfl

open ElementTree in
/-- The calls of a tree push what is made of it, whatever lies on the stack. -/
theorem Replay.run_calls (t : Tree) (stack : List ElementTree) :
    run stack t.calls = some (t.element.unflagged :: stack) := by
  induction t generalizing stack with
  | text s => rfl
  | node h children ih =>
    have hhead : run stack h.calls = some (.element h.parts.unflagged [] :: stack) := by
      have hnew : step stack (.createElement (.text h.name)) =
          some (.element (.new h.name false) [] :: stack) := by cases stack <;> rfl
      have hsettings := run_settings (show (ElementParts.new h.name false).name = h.name from rfl)
        h.settings stack
      rw [Head.calls, run_cons hnew, hsettings, Head.parts, ElementParts.unflagged_setAll]
      rfl
    have hname : h.parts.unflagged.name = h.name := h.name_parts
    have hcontent : run (.element h.parts.unflagged [] :: stack) h.contentCalls =
        some (.element h.parts.unflagged (unflaggedAll h.contentElement) :: stack) := by
      rw [Head.contentCalls, Head.contentElement]
      cases h.content with
      | none => rfl
      | some s =>
        have htext : step (.element h.parts.unflagged [] :: stack) (.createTextNode (.text s)) =
            some (.text s :: .element h.parts.unflagged [] :: stack) := rfl
        rw [run_cons htext]
        exact run_cons (step_append hname rfl [] stack) []
    have hbelow : ∀ made : List ElementTree,
        run (.element h.parts.unflagged made :: stack) (Tree.callsBelow h children) =
          some (.element h.parts.unflagged (made ++ unflaggedAll (Tree.elementsOf children)) ::
            stack) := by
      induction children with
      | nil =>
        intro made
        simp [Tree.callsBelow, Tree.elementsOf, unflaggedAll, run]
      | cons c cs ihcs =>
        intro made
        have hlabel : c.element.unflagged.label = c.label := by simp [label_unflagged]
        rw [Tree.callsBelow, run_append (ih c List.mem_cons_self _), Head.appendCall,
          run_cons (step_append hname hlabel made stack),
          ihcs fun d hd => ih d (List.mem_cons_of_mem c hd)]
        simp [Tree.elementsOf, unflaggedAll]
    rw [Tree.calls, List.append_assoc, run_append hhead, run_append hcontent, hbelow, Tree.element,
      unflagged, unflaggedAll_append]

end Markup
