import Markup.Document.Documents
import Markup.Proofs.Document.ElementTree
import Markup.Proofs.Store

/-!
# Materialising a tree on any host

What a node shows of its fields is set of an element one setting after the other: each part of
`Host.materializeNode` is the run of the settings of that part (`Host.setAttributes_eq` and its
siblings).

`Host.Follows` says of a host what each single capability does, in terms of a relation between a
world, the calls so far and the elements on a stack.  From that, by induction on the tree, what
materialising does as a whole is that the calls of the tree are added and its elements are pushed,
whether the node is read at once (`Follows.materializeChild`) or field by field as it goes
(`Follows.materializeStepwise`).
-/

namespace Markup

/-! ## Settings -/

/-- Sets something of an element of a host. -/
def Host.set {m : Type → Type} [Monad m] {H : Type} (host : Host m H) (e : H) :
    Setting → m Unit
  | .attribute key value => host.setAttribute e (.text key) (.text value)
  | .property changed value => host.setProperty e changed (.text value)
  | .listener event callee => host.addEventListener e (.text event) callee

namespace Host

variable (host : Host Operation Value) (e : Value) {n : Node Term} {h : Head}

/-- Sets several things of an element in order. -/
def setAll (settings : List Setting) : Operation Unit := settings.forM (host.set e)

theorem setAll_append (first later : List Setting) :
    host.setAll e (first ++ later) = host.setAll e first >>= fun _ => host.setAll e later :=
  List.forM_append

theorem ofExcept_ok {α : Type} (a : α) :
    (MonadExcept.ofExcept (.ok a : Except Fault α) : Operation α) = pure a := rfl

theorem setPlain_eq (key : String) (value : AttributeValue) :
    host.setPlain e (.text key) (.atom value.toAtom) =
      host.setAll e ((value.shown? key).map (.attribute key)).toList := by
  rw [setPlain, Html.shownValue_attribute, ofExcept_ok, pure_bind]
  cases value.shown? key with
  | none => rfl
  | some s => exact (bind_pure _).symm

/-- The attributes that an entry of a map of attributes sets. -/
theorem attrSettings_eq (h : Head) :
    h.attrSettings = h.attrs.flatMap fun a => ((a.2.shown? a.1).map (.attribute a.1)).toList := by
  rw [Head.attrSettings, Head.shownAttrs, List.map_filterMap, List.filterMap_eq_flatMap_toList]
  congr 1
  funext a
  cases a.2.shown? a.1 <;> rfl

/-- Setting the attributes of a head one by one. -/
theorem forM_setPlain_eq (h : Head) :
    (h.attrs.map fun a => (Term.text a.1, Term.atom a.2.toAtom)).forM
      (fun entry => host.setPlain e entry.1 entry.2) = host.setAll e h.attrSettings := by
  rw [attrSettings_eq]
  induction h.attrs with
  | nil => rfl
  | cons a attrs ih =>
    rw [List.flatMap_cons, setAll_append, ← ih, ← setPlain_eq]
    rfl

theorem setAttributes_eq (s : n.Shows h) :
    host.setAttributes e n.attrs = host.setAll e h.attrSettings := by
  obtain ⟨id, hattrs⟩ := s.attrs
  rw [hattrs, setAttributes, Term.entries_map, ofExcept_ok, pure_bind, forM_setPlain_eq]

theorem setId_eq (s : n.Shows h) : host.setId e n.id = host.setAll e h.idSetting := by
  rw [s.id, setId, Head.idSetting]
  cases h.id with
  | none => rfl
  | some id => exact (bind_pure _).symm

theorem setClasses_eq (s : n.Shows h) :
    host.setClasses e n.classes = host.setAll e h.classSetting := by
  obtain ⟨id, hclasses⟩ := s.classes
  rw [hclasses, setClasses, Head.classSetting]
  cases hc : h.classes with
  | nil => rfl
  | cons c cs =>
    have htrue : (Term.list id ((c :: cs).map .text)).truthy = true := rfl
    rw [if_pos htrue, Html.joinClasses, Html.joinTexts_texts, ofExcept_ok, pure_bind,
      Head.className, hc]
    exact (bind_pure _).symm

theorem setStyle_eq (s : n.Shows h) :
    host.setStyle e n.style = host.setAll e h.styleSetting := by
  have hstyle := s.style
  rw [Head.styleSetting]
  cases hs : h.style with
  | none =>
    rw [hs, Term.ShowsStyle] at hstyle
    rw [hstyle]
    rfl
  | some style =>
    rw [hs, Term.ShowsStyle] at hstyle
    obtain ⟨id, hstyle⟩ := hstyle
    rw [hstyle, setStyle, Html.styleText_terms, ofExcept_ok, pure_bind]
    exact (bind_pure _).symm

theorem addListenersFor_eq {row : Term} {event : String} {callees : List Value}
    (hrow : row.Lists callees) :
    host.addListenersFor e (.text event) row = host.setAll e (callees.map (.listener event)) := by
  obtain ⟨id, items, rfl, rfl⟩ := hrow
  rw [addListenersFor, Term.items_list, ofExcept_ok, pure_bind, setAll, List.map_map]
  · induction items with
    | nil => rfl
    | cons item items ih => exact congrArg _ (funext fun _ => ih)
  · intro p hp
    cases hp

theorem addListeners_eq {t : Term} {listeners : Entries String (List Value)}
    (h : t.ShowsListeners listeners) : host.addListeners e t =
      host.setAll e (listeners.flatMap fun l => l.2.map (.listener l.1)) := by
  obtain ⟨id, rows, rfl, hall⟩ := h
  rw [addListeners, Term.entries_map, ofExcept_ok, pure_bind]
  induction hall with
  | nil => rfl
  | @cons row l _ _ hrow _ ih =>
    have hevent : row.1.toValue = .text l.1 := by
      rw [hrow.1]
      rfl
    rw [List.flatMap_cons, setAll_append, ← ih, ← addListenersFor_eq host e hrow.2, ← hevent]
    rfl

/-- The parts that set fields of an element are one run of settings. -/
theorem setFields_eq {α : Type} (s : n.Shows h) (k : Unit → Operation α) :
    (do
      host.setAttributes e n.attrs
      host.setId e n.id
      host.setClasses e n.classes
      host.setStyle e n.style
      host.addListeners e n.listeners
      k ()) = host.setAll e h.settings >>= k := by
  rw [setAttributes_eq host e s, setId_eq host e s, setClasses_eq host e s, setStyle_eq host e s,
    addListeners_eq host e s.listeners, Head.settings, Head.listenerSettings]
  simp only [setAll_append, bind_assoc]

/-- Children are appended one after the other. -/
theorem appendItems_eq (items : List Term) : host.appendItems e items =
    (items.mapM fun item => do host.appendChild e (← host.materializeChild item)) >>=
      fun _ => pure () := by
  induction items with
  | nil => rfl
  | cons item items ih =>
    rw [appendItems, ih, List.mapM_cons]
    simp only [bind_assoc, pure_bind]

/-- A node is materialised by its head, then its children. -/
theorem materializeChild_node {id : Nat} (s : n.Shows h) :
    host.materializeChild (.node id n) = (do
      let e ← host.createElement (.text h.name)
      host.keepVoid e (.bool h.isVoid)
      host.setAll e h.settings
      host.addContent e (.ofText? h.content)
      host.appendChildren e n.children
      return e) := by
  have hfields := fun e => setFields_eq host e s fun _ => do
    host.addContent e n.content
    host.appendChildren e n.children
    return e
  simp only [s.content] at hfields
  simp only [← hfields]
  have hname : n.name.toValue = .text h.name := by
    rw [s.name]
    rfl
  have hvoid : n.isVoid.toValue = .bool h.isVoid := by
    rw [s.isVoid]
    rfl
  rw [← hname, ← hvoid, ← s.content]
  obtain ⟨name, isVoid, nodeId, classes, style, listeners, attrs, content, held⟩ := n
  rw [materializeChild, materializeNode]

end Host

/-! ## What each capability does -/

/-- The listeners of a setting are all of some sort. -/
def Setting.Hears (sort : Value → Prop) : Setting → Prop
  | .listener _ callee => sort callee
  | _ => True

/-- The listeners of a node are all of some sort. -/
def Head.Hears (sort : Value → Prop) (h : Head) : Prop :=
  ∀ l ∈ h.listeners, ∀ callee ∈ l.2, sort callee

/-- The listeners of a tree are all of some sort. -/
def Tree.Hears (sort : Value → Prop) (t : Tree) : Prop := ∀ n ∈ t.nodes, n.1.Hears sort

/--
What is asked of a host that may refuse, in terms of a relation between a world, the calls so far
and the elements on a stack.  Each capability works on what is on top of the stack, adds its call
and leaves the stack as it should be, or it refuses, and then something is true of the calls up to
the refused one and of more calls as well.  Only listeners of a sort are registered.
-/
structure Host.Serves (host : Host Operation Value)
    (R : World → List DocumentCall → List (Value × ElementTree) → Prop)
    (refused : Fault → World → List DocumentCall → Prop) (sort : Value → Prop) : Prop where
  createElement {w calls stack} (name : String) : R w calls stack →
    (host.createElement (.text name)).Outcome w
      (fun e w' => ∃ isVoid, R w' (calls ++ [.createElement (.text name)])
        ((e, .element (.new name isVoid) []) :: stack))
      (fun f w' => refused f w' (calls ++ [.createElement (.text name)]))
  keepVoid {w calls stack e p} (isVoid : Bool) : R w calls ((e, .element p []) :: stack) →
    ∃ w', (host.keepVoid e (.bool isVoid)).runIn w = (.ok (), w') ∧
      R w' calls ((e, .element { p with isVoid } []) :: stack)
  set {w calls stack e p} {s : Setting} : s.Hears sort →
    R w calls ((e, .element p []) :: stack) →
    (host.set e s).Outcome w
      (fun _ w' => R w' (calls ++ [s.call p.name]) ((e, .element (p.set s) []) :: stack))
      (fun f w' => refused f w' (calls ++ [s.call p.name]))
  createTextNode {w calls stack} (s : String) : R w calls stack →
    (host.createTextNode (.text s)).Outcome w
      (fun v w' => R w' (calls ++ [.createTextNode (.text s)]) ((v, .text s) :: stack))
      (fun f w' => refused f w' (calls ++ [.createTextNode (.text s)]))
  appendChild {w calls stack v child e p children} :
    R w calls ((v, child) :: (e, .element p children) :: stack) →
    (host.appendChild e v).Outcome w
      (fun _ w' => R w' (calls ++ [.appendChild (.text p.name) (.text child.label)])
        ((e, .element p (children ++ [child])) :: stack))
      (fun f w' => refused f w' (calls ++ [.appendChild (.text p.name) (.text child.label)]))
  appendText (e v : Value) :
    host.appendText e v = host.createTextNode v >>= fun text => host.appendChild e text
  more {f w calls} (later : List DocumentCall) : refused f w calls → refused f w (calls ++ later)

/-- A host follows a relation if it serves and never refuses. -/
structure Host.Follows (host : Host Operation Value)
    (R : World → List DocumentCall → List (Value × ElementTree) → Prop)
    (sort : Value → Prop) : Prop where
  createElement {w calls stack} (name : String) : R w calls stack →
    ∃ e w' isVoid, (host.createElement (.text name)).runIn w = (.ok e, w') ∧
      R w' (calls ++ [.createElement (.text name)])
        ((e, .element (.new name isVoid) []) :: stack)
  keepVoid {w calls stack e p} (isVoid : Bool) : R w calls ((e, .element p []) :: stack) →
    ∃ w', (host.keepVoid e (.bool isVoid)).runIn w = (.ok (), w') ∧
      R w' calls ((e, .element { p with isVoid } []) :: stack)
  set {w calls stack e p} {s : Setting} : s.Hears sort →
    R w calls ((e, .element p []) :: stack) →
    ∃ w', (host.set e s).runIn w = (.ok (), w') ∧
      R w' (calls ++ [s.call p.name]) ((e, .element (p.set s) []) :: stack)
  createTextNode {w calls stack} (s : String) : R w calls stack →
    ∃ v w', (host.createTextNode (.text s)).runIn w = (.ok v, w') ∧
      R w' (calls ++ [.createTextNode (.text s)]) ((v, .text s) :: stack)
  appendChild {w calls stack v child e p children} :
    R w calls ((v, child) :: (e, .element p children) :: stack) →
    ∃ w', (host.appendChild e v).runIn w = (.ok (), w') ∧
      R w' (calls ++ [.appendChild (.text p.name) (.text child.label)])
        ((e, .element p (children ++ [child])) :: stack)
  appendText (e v : Value) :
    host.appendText e v = host.createTextNode v >>= fun text => host.appendChild e text

theorem Host.Follows.serves {host : Host Operation Value}
    {R : World → List DocumentCall → List (Value × ElementTree) → Prop} {sort : Value → Prop}
    (F : host.Follows R sort) : host.Serves R (fun _ _ _ => False) sort where
  createElement name hR := by
    obtain ⟨e, w', isVoid, hrun, hR'⟩ := F.createElement name hR
    exact .of_ok hrun ⟨isVoid, hR'⟩
  keepVoid := F.keepVoid
  set hs hR := by
    obtain ⟨w', hrun, hR'⟩ := F.set hs hR
    exact .of_ok hrun hR'
  createTextNode s hR := by
    obtain ⟨v, w', hrun, hR'⟩ := F.createTextNode s hR
    exact .of_ok hrun hR'
  appendChild hR := by
    obtain ⟨w', hrun, hR'⟩ := F.appendChild hR
    exact .of_ok hrun hR'
  appendText := F.appendText
  more _ h := h

theorem Setting.Hears.mono {sort sort' : Value → Prop} (himp : ∀ v, sort v → sort' v) {s : Setting}
    (hs : s.Hears sort) : s.Hears sort' := by
  cases s with
  | listener event callee => exact himp callee hs
  | _ => trivial

/-- What follows a relation with listeners of some sort does so with fewer of them. -/
theorem Host.Follows.mono {host : Host Operation Value}
    {R : World → List DocumentCall → List (Value × ElementTree) → Prop} {sort sort' : Value → Prop}
    (F : host.Follows R sort') (himp : ∀ v, sort v → sort' v) : host.Follows R sort where
  createElement := F.createElement
  keepVoid := F.keepVoid
  set hs := F.set (hs.mono himp)
  createTextNode := F.createTextNode
  appendChild := F.appendChild
  appendText := F.appendText

theorem Head.hears_settings {h : Head} {sort : Value → Prop} (hs : h.Hears sort) :
    ∀ s ∈ h.settings, s.Hears sort := by
  intro s hmem
  rw [settings] at hmem
  rcases s with ⟨_, _⟩ | ⟨_, _⟩ | ⟨event, callee⟩
  · trivial
  · trivial
  · have hlisteners : Setting.listener event callee ∈ h.listenerSettings := by
      simpa [attrSettings, idSetting, classSetting, styleSetting] using hmem
    obtain ⟨l, hl, hcallee⟩ := List.mem_flatMap.mp hlisteners
    obtain ⟨_, hc, heq⟩ := List.mem_map.mp hcallee
    cases heq
    exact hs l hl _ hc

theorem Tree.Hears.head {h : Head} {children : List Tree} {sort : Value → Prop}
    (hs : (Tree.node h children).Hears sort) : h.Hears sort :=
  hs (h, children) (by simp)

theorem Tree.Hears.below {h : Head} {children : List Tree} {sort : Value → Prop}
    (hs : (Tree.node h children).Hears sort) : ∀ c ∈ children, c.Hears sort := by
  intro c hc n hn
  exact hs n (by simpa using .inr ⟨c, hc, hn⟩)

/-! ## What materialising does -/

namespace Host.Serves

variable {host : Host Operation Value}
  {R : World → List DocumentCall → List (Value × ElementTree) → Prop}
  {refused : Fault → World → List DocumentCall → Prop} {sort : Value → Prop}
  {w : World} {calls : List DocumentCall} {stack : List (Value × ElementTree)}

/-- What is true of calls after a refusal is true of more calls, however they are grouped. -/
theorem refused_of_prefix (F : host.Serves R refused sort) {f : Fault}
    {first all : List DocumentCall} (hfirst : first <+: all) (h : refused f w first) :
    refused f w all := by
  obtain ⟨later, rfl⟩ := hfirst
  exact F.more later h

/-- What is set of an element on top is set in order, up to what is refused. -/
theorem setAll (F : host.Serves R refused sort) {e : Value} {p : ElementParts}
    (settings : List Setting) (hsort : ∀ s ∈ settings, s.Hears sort)
    (hR : R w calls ((e, .element p []) :: stack)) :
    (host.setAll e settings).Outcome w
      (fun _ w' => R w' (calls ++ settings.map (Setting.call p.name))
        ((e, .element (p.setAll settings) []) :: stack))
      (fun f w' => refused f w' (calls ++ settings.map (Setting.call p.name))) := by
  induction settings generalizing w calls p with
  | nil => exact .of_ok rfl (by simpa using hR)
  | cons s settings ih =>
    show (host.set e s >>= fun _ => host.setAll e settings).Outcome w _ _
    refine (F.set (hsort s List.mem_cons_self) hR).bind (fun f w' hf => ?_) fun _ w' hR' => ?_
    · exact F.refused_of_prefix (by simp) hf
    · simpa using ih (fun s hs => hsort s (List.mem_cons_of_mem _ hs)) hR'

/-- The content is made and appended, if there is one. -/
theorem addContent (F : host.Serves R refused sort) {e : Value} {h : Head}
    (hR : R w calls ((e, .element h.parts []) :: stack)) :
    (host.addContent e (.ofText? h.content)).Outcome w
      (fun _ w' => R w' (calls ++ h.contentCalls) ((e, .element h.parts h.contentElement) :: stack))
      (fun f w' => refused f w' (calls ++ h.contentCalls)) := by
  rw [Head.contentCalls, Head.contentElement]
  cases h.content with
  | none => exact .of_ok rfl (by simpa using hR)
  | some s =>
    show (host.appendText e (.text s)).Outcome w _ _
    rw [F.appendText]
    refine (F.createTextNode s hR).bind (fun f w' hf => ?_) fun text w' hR' => ?_
    · exact F.refused_of_prefix (by simp) hf
    · simpa [Head.appendCall, ElementTree.label] using F.appendChild hR'

end Host.Serves

namespace Host.Follows

variable {host : Host Operation Value}
  {R : World → List DocumentCall → List (Value × ElementTree) → Prop} {sort : Value → Prop}
  {w : World} {calls : List DocumentCall} {stack : List (Value × ElementTree)}

/-- What is set of an element on top is set in order, and nothing else happens. -/
theorem setAll (F : host.Follows R sort) {e : Value} {p : ElementParts} (settings : List Setting)
    (hsort : ∀ s ∈ settings, s.Hears sort) (hR : R w calls ((e, .element p []) :: stack)) :
    ∃ w', (host.setAll e settings).runIn w = (.ok (), w') ∧
      R w' (calls ++ settings.map (Setting.call p.name))
        ((e, .element (p.setAll settings) []) :: stack) := by
  obtain ⟨⟨⟩, w', hrun, hR'⟩ := (F.serves.setAll settings hsort hR).exists_ok
  exact ⟨w', hrun, hR'⟩

/-- The content is made and appended, if there is one. -/
theorem addContent (F : host.Follows R sort) {e : Value} {h : Head}
    (hR : R w calls ((e, .element h.parts []) :: stack)) :
    ∃ w', (host.addContent e (.ofText? h.content)).runIn w = (.ok (), w') ∧
      R w' (calls ++ h.contentCalls) ((e, .element h.parts h.contentElement) :: stack) := by
  obtain ⟨⟨⟩, w', hrun, hR'⟩ := (F.serves.addContent hR).exists_ok
  exact ⟨w', hrun, hR'⟩

/-- A child that is complete is appended to its parent. -/
theorem appendTree (F : host.Follows R sort) {e v : Value} {h : Head} {child : Tree}
    {made : List ElementTree} (hR : R w calls ((v, child.element) :: (e, .element h.parts made) ::
      stack)) :
    ∃ w', (host.appendChild e v).runIn w = (.ok (), w') ∧
      R w' (calls ++ [h.appendCall child.label])
        ((e, .element h.parts (made ++ [child.element])) :: stack) := by
  obtain ⟨w', hrun, hR'⟩ := F.appendChild hR
  exact ⟨w', hrun, by simpa [Head.appendCall] using hR'⟩

/-- The child that an item is made into adds the calls of its tree and is pushed. -/
def Makes (R : World → List DocumentCall → List (Value × ElementTree) → Prop)
    (x : Operation Value) (child : Tree) : Prop :=
  ∀ ⦃w calls stack⦄, R w calls stack → ∃ v w', x.runIn w = (.ok v, w') ∧
    R w' (calls ++ child.calls) ((v, child.element) :: stack)

/-- Each child is pushed above its parent and popped onto it. -/
theorem appendEach (F : host.Follows R sort) {α : Type} {make : α → Operation Value}
    {items : List α} {children : List Tree} {e : Value} {h : Head}
    (hmake : List.Forall₂ (fun item child => Makes R (make item) child) items children)
    {made : List ElementTree} (hR : R w calls ((e, .element h.parts made) :: stack)) :
    ∃ us w', (items.mapM fun item => do host.appendChild e (← make item)).runIn w = (.ok us, w') ∧
      R w' (calls ++ Tree.callsBelow h children)
        ((e, .element h.parts (made ++ Tree.elementsOf children)) :: stack) := by
  induction hmake generalizing w calls made with
  | nil => exact ⟨[], w, rfl, by simpa [Tree.callsBelow, Tree.elementsOf] using hR⟩
  | cons hitem _ ih =>
    obtain ⟨v, w₁, hchild, hR₁⟩ := hitem hR
    obtain ⟨w₂, happend, hR₂⟩ := F.appendTree hR₁
    obtain ⟨us, w₃, hrest, hR₃⟩ := ih hR₂
    refine ⟨() :: us, w₃, ?_, by simpa [Tree.callsBelow, Tree.elementsOf] using hR₃⟩
    rw [List.mapM_cons, bind_assoc, Operation.runIn_bind_ok hchild,
      Operation.runIn_bind_ok happend, Operation.runIn_bind_ok hrest]
    rfl

/-- A child that is read at once adds the calls of its tree and is pushed as its element. -/
theorem materializeChild (F : host.Follows R sort) {t : Term} {tree : Tree} (s : t.Shows tree)
    (hsort : tree.Hears sort) : Makes R (host.materializeChild t) tree := by
  intro w calls stack hR
  induction tree generalizing t w calls stack with
  | text x =>
    cases s
    exact F.createTextNode x hR
  | node h children ih =>
    obtain ⟨id, n, list, items, rfl, fields, holder, below⟩ := s.exists_node
    obtain ⟨e, w₁, isVoid, hcreate, hR₁⟩ := F.createElement h.name hR
    obtain ⟨w₂, hvoid, hR₂⟩ := F.keepVoid h.isVoid hR₁
    have hnew : R w₂ _ ((e, .element (.new h.name h.isVoid) []) :: stack) := hR₂
    obtain ⟨w₃, hset, hR₃⟩ := F.setAll h.settings (Head.hears_settings hsort.head) hnew
    obtain ⟨w₄, hcontent, hR₄⟩ := F.addContent hR₃
    have hmake : List.Forall₂ (fun item child => Makes R (host.materializeChild item) child)
        items children :=
      forall₂_imp_of_mem below fun c hc _ hshows => ih c hc hshows (hsort.below c hc)
    obtain ⟨us, w₅, hmapM, hR₅⟩ := F.appendEach hmake hR₄
    have hitems : (host.appendItems e items).runIn w₄ = (.ok (), w₅) := by
      rw [Host.appendItems_eq]
      exact Operation.runIn_bind_ok hmapM
    refine ⟨e, w₅, ?_, by simpa [Tree.calls, Head.calls, Tree.element] using hR₅⟩
    rw [materializeChild_node host fields, Operation.runIn_bind_ok hcreate,
      Operation.runIn_bind_ok hvoid, Operation.runIn_bind_ok hset,
      Operation.runIn_bind_ok hcontent, holder]
    show (host.appendItems e items >>= fun _ => pure e).runIn w₄ = _
    rw [Operation.runIn_bind_ok hitems]
    rfl

end Host.Follows

end Markup
