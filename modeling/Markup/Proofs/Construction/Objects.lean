import Markup.Proofs.Construction
import Markup.Proofs.Store.Extension

/-!
# The objects of a new node

A constructor makes the objects of a node one after the other: the list of the classes, the map of
the style if there is one, a list for each event that has listeners, the maps of the listeners and
of the attributes, the list of the children, and the node itself (`Operation.cases_makeNodeWith`).
Which objects these are depends on the attributes that the call describes and on how many objects
there are, not on which objects were given.  So nothing that was there before is changed, whether a
value is called or fails to be (`Operation.extending_callValue`).
-/

namespace Markup

open Operation

/-! ## The numbers of the objects -/

/-- The map of a style, if there is one. -/
def Style.objects : Option Style → List (Object Value)
  | none => []
  | some style => [.map (style.map fun e => (.text e.1, .text e.2))]

/-- The keys of a map with one number after the other. -/
def Entries.numberedFrom {β : Type} : Nat → Entries String β → Entries String Nat
  | _, [] => []
  | n, e :: es => (e.1, n) :: numberedFrom (n + 1) es

theorem Entries.map_snd_numberedFrom {β : Type} (n : Nat) (es : Entries String β) :
    (numberedFrom n es).map (·.2) = List.range' n es.length := by
  induction es generalizing n with
  | nil => rfl
  | cons e es ih => rw [numberedFrom, List.map_cons, ih, List.length_cons, List.range'_succ]

namespace AttributeSet

variable (s : AttributeSet) (n : Nat)

/-- The value of the style, where it is the object with the next number. -/
def styleValue : Value :=
  match s.style with
  | none => .none
  | some _ => .ref (n + 1)

/-- The number of the first list of listeners. -/
def rowsAt : Nat := n + 1 + (Style.objects s.style).length

/-- The events with the numbers of the lists of their listeners. -/
def rows : Entries String Nat := Entries.numberedFrom (s.rowsAt n) s.listeners

/-- The number of the map of the listeners. -/
def listenersAt : Nat := s.rowsAt n + s.listeners.length

/-- The objects that are made before the node, the first of them having the number `n`. -/
def cells (children : List Term) : List (Object Value) :=
  .list (values s.classes) :: (Style.objects s.style ++
    (s.listeners.map (fun e => .list (values e.2)) ++
      [.map ((s.rows n).stored .text .ref),
        .map (s.attrs.map fun e => (e.1.toValue, .atom e.2.toAtom)), .list (values children)]))

/-- The node over these objects. -/
def node (name flag : Value) (content : String) : Node Value where
  name := name
  isVoid := flag
  id := textOrNone s.id
  classes := .ref n
  style := s.styleValue n
  listeners := .ref (s.listenersAt n)
  attrs := .ref (s.listenersAt n + 1)
  content := .text content
  children := .ref (s.listenersAt n + 2)

/-- All objects of the node, itself the last of them. -/
def made (name flag : Value) (content : String) (children : List Term) : List (Object Value) :=
  s.cells n children ++ [.node (s.node n name flag content)]

theorem add_length_cells (children : List Term) :
    n + (s.cells n children).length = s.listenersAt n + 3 := by
  simp only [cells, listenersAt, rowsAt, List.length_cons, List.length_append, List.length_map,
    List.length_nil]
  omega

theorem add_length_made (name flag : Value) (content : String) (children : List Term) :
    n + (s.made n name flag content children).length = s.listenersAt n + 4 := by
  have hcells := s.add_length_cells n children
  rw [made, List.length_append, List.length_singleton]
  omega

end AttributeSet

/-! ## Making them -/

namespace World

/-- A collection that was given, or the next object if none was, and the world that it is in. -/
def orMade (w : World) (given : Option Value) (o : Object Value) : Value × World :=
  match given with
  | none | some .none => (.ref w.objects.size, w.add o)
  | some v => (v, w)

/-- The classes of a new node, then its listeners, its attributes and its children. -/
def classesFor (w : World) (f : NodeFields) : Value × World := w.orMade f.classes (.list [])

@[inherit_doc classesFor]
def listenersFor (w : World) (f : NodeFields) : Value × World :=
  (w.classesFor f).2.orMade f.listeners (.map [])

@[inherit_doc classesFor]
def attrsFor (w : World) (f : NodeFields) : Value × World :=
  (w.listenersFor f).2.orMade f.attrs (.map [])

@[inherit_doc classesFor]
def childrenFor (w : World) (f : NodeFields) : Value × World :=
  (w.attrsFor f).2.orMade f.children (.list [])

/-- The world with the collections of a new node. -/
def withCollections (w : World) (f : NodeFields) : World := (w.childrenFor f).2

/-- The new node over its collections. -/
def nodeOver (w : World) (name flag : Value) (f : NodeFields) : Node Value where
  name := name
  isVoid := flag
  id := f.id.getD .none
  classes := (w.classesFor f).1
  style := f.style.getD .none
  listeners := (w.listenersFor f).1
  attrs := (w.attrsFor f).1
  content := f.content.getD (.text "")
  children := (w.childrenFor f).1

variable {w : World} {f : NodeFields}

theorem orMade_some {v : Value} (h : v ≠ .none) (w : World) (o : Object Value) :
    w.orMade (some v) o = (v, w) := by
  rw [orMade.eq_def]
  split
  · next heq => cases heq
  · next heq => exact absurd (Option.some.inj heq) h
  · next heq => rw [Option.some.inj heq]

theorem extends_orMade (given : Option Value) {o : Object Value} (ho : o.holdings = []) :
    w.Extends (w.orMade given o).2 := by
  rw [orMade.eq_def]
  split
  · exact extends_add (Object.madeBetween_of_nil ho)
  · exact extends_add (Object.madeBetween_of_nil ho)
  · exact Extends.refl w

/-- Only empty collections are made. -/
theorem extends_withCollections (w : World) (f : NodeFields) : w.Extends (w.withCollections f) :=
  (extends_orMade f.classes rfl).trans <| (extends_orMade f.listeners rfl).trans <|
    (extends_orMade f.attrs rfl).trans (extends_orMade f.children rfl)

end World

namespace Operation

variable {w : World}

theorem runIn_makeStyle (style : Option Style) (w : World) :
    (makeStyle style).runIn w =
      (.ok (match style with | none => .none | some _ => .ref w.objects.size),
        w.addAll (Style.objects style)) := by
  cases style with
  | none => rw [Style.objects, World.addAll_nil]; rfl
  | some style => rw [Style.objects, ← World.add_eq_addAll]; rfl

theorem runIn_makeListeners (listeners : Entries String (List Term)) (w : World) :
    (makeListeners listeners).runIn w =
      (.ok (.ref (w.objects.size + listeners.length)),
        w.addAll (listeners.map (fun e => .list (values e.2)) ++
          [.map ((Entries.numberedFrom w.objects.size listeners).stored .text .ref)])) := by
  have hrows : ∀ w : World, (listeners.mapM fun e => do
      return (Value.text e.1, ← makeList (values e.2)) : Operation _).runIn w =
      (.ok ((Entries.numberedFrom w.objects.size listeners).stored .text .ref),
        w.addAll (listeners.map fun e => .list (values e.2))) := by
    induction listeners with
    | nil =>
      intro w
      rw [List.map_nil, World.addAll_nil]
      rfl
    | cons e listeners ih =>
      intro w
      have hfirst : (do return (Value.text e.1, ← makeList (values e.2)) : Operation _).runIn w =
          (.ok (.text e.1, .ref w.objects.size), w.add (.list (values e.2))) := rfl
      have hrest := ih (w.add (.list (values e.2)))
      rw [World.size_add] at hrest
      rw [List.mapM_cons, runIn_bind_ok hfirst, runIn_bind_ok hrest, List.map_cons,
        World.addAll_cons, Entries.numberedFrom]
      rfl
  rw [makeListeners, runIn_bind_ok (hrows w), World.addAll_append, ← World.add_eq_addAll]
  refine (runIn_make' _ _).trans ?_
  rw [World.size_addAll, List.length_map]

/-- Finding a void flag changes nothing. -/
theorem cases_voidOr (given : Option Value) (name : Value) (w : World) :
    (∃ f, (voidOr given name).runIn w = (.error f, w)) ∨
      ∃ flag, (voidOr given name).runIn w = (.ok flag, w) := by
  have hdefault : (∃ f, (defaultVoid name).runIn w = (.error f, w)) ∨
      ∃ flag, (defaultVoid name).runIn w = (.ok flag, w) := by
    rw [defaultVoid, runIn_bind]
    cases hkey : (w.read name).asKey with
    | error f =>
      have hread : (readKey name).runIn w = (.error f, w) := by rw [← hkey]; rfl
      exact .inl ⟨f, by rw [hread]⟩
    | ok key =>
      have hread : (readKey name).runIn w = (.ok key, w) := by rw [← hkey]; rfl
      refine .inr ?_
      rw [hread]
      dsimp only
      split <;> exact ⟨_, rfl⟩
  rw [voidOr.eq_def]
  split
  · exact hdefault
  · exact hdefault
  · next flag _ => exact .inr ⟨flag, rfl⟩

/-- A void flag that is given is taken as it is. -/
theorem runIn_voidOr_some {flag : Value} (h : flag ≠ .none) (name : Value) (w : World) :
    (voidOr (some flag) name).runIn w = (.ok flag, w) := by
  rw [voidOr.eq_def]
  split
  · next heq => cases heq
  · next heq => exact absurd (Option.some.inj heq) h
  · next heq => rw [Option.some.inj heq]; rfl

theorem runIn_orMake (given : Option Value) (o : Object Value) (w : World) :
    (orMake given o).runIn w = (.ok (w.orMade given o).1, (w.orMade given o).2) := by
  rw [orMake.eq_def]
  split
  · rfl
  · rfl
  · next v hv =>
    rw [World.orMade_some hv]
    rfl

/-- A node that has a name is made last, after the collections that were not given. -/
theorem runIn_makeNode {name flag : Value} {f : NodeFields}
    (htrue : (w.read name).truthy = true)
    (hvoid : (voidOr f.isVoid name).runIn w = (.ok flag, w)) :
    (makeNode name f).runIn w = (.ok (.ref (w.withCollections f).objects.size),
      (w.withCollections f).add (.node (w.nodeOver name flag f))) := by
  rw [makeNode, runIn_bind_ok (runIn_read name w), htrue]
  show (voidOr f.isVoid name >>= _).runIn w = _
  rw [runIn_bind_ok hvoid, runIn_bind_ok (runIn_orMake _ _ _),
    runIn_bind_ok (runIn_orMake _ _ _), runIn_bind_ok (runIn_orMake _ _ _),
    runIn_bind_ok (runIn_orMake _ _ _), runIn_make']
  rfl

/-- A node is made, or nothing is. -/
theorem cases_makeNode (name : Value) (f : NodeFields) (w : World) :
    (∃ fault, (makeNode name f).runIn w = (.error fault, w)) ∨
      ∃ flag, (voidOr f.isVoid name).runIn w = (.ok flag, w) ∧
        (makeNode name f).runIn w = (.ok (.ref (w.withCollections f).objects.size),
          (w.withCollections f).add (.node (w.nodeOver name flag f))) := by
  by_cases htrue : (w.read name).truthy = true
  · rcases cases_voidOr f.isVoid name w with ⟨fault, hvoid⟩ | ⟨flag, hvoid⟩
    · refine .inl ⟨fault, ?_⟩
      rw [makeNode, runIn_bind_ok (runIn_read name w), htrue]
      show (voidOr f.isVoid name >>= _).runIn w = _
      rw [runIn_bind, hvoid]
    · exact .inr ⟨flag, hvoid, runIn_makeNode htrue hvoid⟩
  · refine .inl ⟨.emptyNodeName, ?_⟩
    rw [makeNode, runIn_bind_ok (runIn_read name w)]
    simp only [htrue]
    rfl

/-- The objects before the node are made in order, whatever becomes of the node. -/
theorem runIn_makeNodeWith (name isVoid : Value) (s : AttributeSet) (content : String)
    (children : List Term) (w : World) :
    (makeNodeWith name isVoid s content children).runIn w =
      (makeNode name {
        isVoid := some isVoid
        id := some (textOrNone s.id)
        classes := some (.ref w.objects.size)
        style := some (s.styleValue w.objects.size)
        listeners := some (.ref (s.listenersAt w.objects.size))
        attrs := some (.ref (s.listenersAt w.objects.size + 1))
        content := some (.text content)
        children := some (.ref (s.listenersAt w.objects.size + 2)) }).runIn
        (w.addAll (s.cells w.objects.size children)) := by
  generalize hn : w.objects.size = n
  let attrs : Object Value := .map (s.attrs.map fun e => (e.1.toValue, .atom e.2.toAtom))
  -- the worlds after the classes, the style, the listeners and the attributes
  let w₁ := w.add (.list (values s.classes))
  let w₂ := w₁.addAll (Style.objects s.style)
  let w₃ := w₂.addAll (s.listeners.map (fun e => .list (values e.2)) ++
    [.map ((Entries.numberedFrom w₂.objects.size s.listeners).stored .text .ref)])
  let w₄ := w₃.add attrs
  have hn₁ : w₁.objects.size = n + 1 := by rw [World.size_add, hn]
  have hn₂ : w₂.objects.size = s.rowsAt n := by rw [World.size_addAll, hn₁, AttributeSet.rowsAt]
  have hn₃ : w₃.objects.size = s.listenersAt n + 1 := by
    rw [World.size_addAll, hn₂, AttributeSet.listenersAt, List.length_append, List.length_map,
      List.length_singleton, Nat.add_assoc]
  have hn₄ : w₄.objects.size = s.listenersAt n + 2 := by rw [World.size_add, hn₃]
  have hclasses : (makeList (values s.classes)).runIn w = (.ok (.ref n), w₁) := by rw [← hn]; rfl
  have hstyle : (makeStyle s.style).runIn w₁ = (.ok (s.styleValue n), w₂) := by
    rw [runIn_makeStyle, hn₁, AttributeSet.styleValue]
  have hlisteners : (makeListeners s.listeners).runIn w₂ = (.ok (.ref (s.listenersAt n)), w₃) := by
    rw [runIn_makeListeners, hn₂, AttributeSet.listenersAt, ← hn₂]
  have hattrs : (makeAttrs s.attrs).runIn w₃ = (.ok (.ref (s.listenersAt n + 1)), w₄) := by
    rw [← hn₃]
    rfl
  have hchildren : (makeList (values children)).runIn w₄ =
      (.ok (.ref (s.listenersAt n + 2)), w₄.add (.list (values children))) := by
    rw [← hn₄]
    rfl
  have hall : w₄.add (.list (values children)) = w.addAll (s.cells n children) := by
    rw [AttributeSet.cells, World.addAll_cons, World.addAll_append, World.addAll_append,
      World.addAll_cons, World.addAll_cons, World.addAll_cons, World.addAll_nil]
    simp only [w₄, w₃, hn₂, World.addAll_append, ← World.add_eq_addAll]
    rfl
  rw [makeNodeWith, runIn_bind_ok hclasses, runIn_bind_ok hstyle, runIn_bind_ok hlisteners,
    runIn_bind_ok hattrs, runIn_bind_ok hchildren, hall]

/-- The objects of a node are made in order, the node last unless it is refused. -/
theorem cases_makeNodeWith (name isVoid : Value) (s : AttributeSet) (content : String)
    (children : List Term) (w : World) :
    (∃ fault, (makeNodeWith name isVoid s content children).runIn w =
      (.error fault, w.addAll (s.cells w.objects.size children))) ∨
    ∃ flag, (makeNodeWith name isVoid s content children).runIn w =
      (.ok (.ref (s.listenersAt w.objects.size + 3)),
        w.addAll (s.made w.objects.size name flag content children)) := by
  have hsize : (w.addAll (s.cells w.objects.size children)).objects.size =
      s.listenersAt w.objects.size + 3 := by
    rw [World.size_addAll, AttributeSet.add_length_cells]
  rw [runIn_makeNodeWith]
  rcases cases_makeNode name _ (w.addAll (s.cells w.objects.size children)) with
    ⟨fault, hrun⟩ | ⟨flag, -, hrun⟩
  · exact .inl ⟨fault, hrun⟩
  · refine .inr ⟨flag, ?_⟩
    rw [AttributeSet.made, World.addAll_append, ← World.add_eq_addAll, hrun, ← hsize]
    rfl

end Operation

/-! ## What is reached from them -/

namespace AttributeSet

variable {s : AttributeSet} {n : Nat} {children : List Term}

theorem le_listenersAt : n < s.listenersAt n := by
  rw [listenersAt, rowsAt]
  omega

theorem between_styleValue : (s.styleValue n).Between n (s.listenersAt n) := by
  rw [styleValue, listenersAt, rowsAt]
  cases hstyle : s.style with
  | none => exact Value.between_atom _ _ _
  | some style =>
    rw [Style.objects]
    refine Value.between_ref (by omega) ?_
    simp only [List.length_singleton]
    omega

/-- The lists of listeners are among the new objects. -/
theorem between_of_mem_rows {e : Value × Value}
    (h : e ∈ (s.rows n).stored Value.text Value.ref) : e.2.Between n (s.listenersAt n) := by
  obtain ⟨row, hrow, rfl⟩ := List.mem_map.mp h
  have hcell : row.2 ∈ (s.rows n).map (·.2) := List.mem_map_of_mem hrow
  rw [rows, Entries.map_snd_numberedFrom, List.mem_range'_1] at hcell
  have hfirst : n < s.rowsAt n := by
    rw [rowsAt]
    omega
  exact Value.between_ref (by omega) hcell.2

theorem madeBetween_of_mem_cells {o : Object Value} (h : o ∈ s.cells n children) :
    o.MadeBetween n (s.listenersAt n) := by
  rw [cells, List.mem_cons, List.mem_append, List.mem_append, List.mem_map] at h
  rcases h with rfl | hstyle | ⟨row, -, rfl⟩ | hlast
  · exact Object.madeBetween_of_nil rfl
  · cases hs : s.style with
    | none =>
      rw [hs, Style.objects] at hstyle
      cases hstyle
    | some style =>
      rw [hs, Style.objects, List.mem_singleton] at hstyle
      subst hstyle
      refine Object.madeBetween_map fun e he => ?_
      obtain ⟨p, -, rfl⟩ := List.mem_map.mp he
      exact Value.between_atom _ _ _
  · exact Object.madeBetween_of_nil rfl
  · rw [List.mem_cons, List.mem_cons, List.mem_singleton] at hlast
    rcases hlast with rfl | rfl | rfl
    · exact Object.madeBetween_map fun e he => between_of_mem_rows he
    · refine Object.madeBetween_map fun e he => ?_
      obtain ⟨p, -, rfl⟩ := List.mem_map.mp he
      exact Value.between_atom _ _ _
    · exact Object.madeBetween_of_nil rfl

/-- The node has its collections among the new objects. -/
theorem madeBetween_node {name flag : Value} {content : String} :
    (Object.node (s.node n name flag content)).MadeBetween n (s.listenersAt n + 3) := by
  have hn := le_listenersAt (s := s) (n := n)
  intro v hv
  simp only [Object.holdings, Node.collections, node, List.mem_cons, List.not_mem_nil,
    or_false] at hv
  rcases hv with rfl | rfl | rfl | rfl | rfl
  · exact Value.between_ref (by omega) (by omega)
  · exact between_styleValue.mono (by omega) (by omega)
  · exact Value.between_ref (by omega) (by omega)
  · exact Value.between_ref (by omega) (by omega)
  · exact Value.between_ref (by omega) (by omega)

variable {w : World} {name flag : Value} {content : String}

theorem size_made : (w.addAll (s.made w.objects.size name flag content children)).objects.size =
    s.listenersAt w.objects.size + 4 := by
  rw [World.size_addAll, add_length_made]

/-- Even where no node comes of them, the objects are closed in themselves. -/
theorem extends_cells : w.Extends (w.addAll (s.cells w.objects.size children)) := by
  refine World.extends_addAll fun o ho => ?_
  rw [add_length_cells]
  exact (madeBetween_of_mem_cells ho).mono (Nat.le_refl _) (by omega)

theorem extends_made :
    w.Extends (w.addAll (s.made w.objects.size name flag content children)) := by
  refine World.extends_addAll fun o ho => ?_
  rw [add_length_made]
  rw [made, List.mem_append, List.mem_singleton] at ho
  rcases ho with ho | rfl
  · exact (madeBetween_of_mem_cells ho).mono (Nat.le_refl _) (by omega)
  · exact madeBetween_node.mono (Nat.le_refl _) (by omega)

end AttributeSet

/-! ## Calling a value -/

namespace Operation

theorem extending_makeNodeWith (name isVoid : Value) (s : AttributeSet) (content : String)
    (children : List Term) : Extending (makeNodeWith name isVoid s content children) := by
  intro w
  rcases cases_makeNodeWith name isVoid s content children w with
    ⟨fault, hrun⟩ | ⟨flag, hrun⟩
  · rw [hrun]
    exact AttributeSet.extends_cells
  · rw [hrun]
    exact AttributeSet.extends_made

section Closure

variable {P : ∀ ⦃α : Type⦄, Operation α → Prop} (hP : Closed P)
  (hhear : ∀ name args, P (hear name args)) (herror : ∀ c args, P (make (.error c args [])))
  (hnode : ∀ name isVoid s content children, P (makeNodeWith name isVoid s content children))

include hP

protected theorem Closed.makeError (herror : ∀ c args, P (make (.error c args []))) (e : ErrorClass)
    (c : Call Value) : P (makeError e c) := by
  rw [makeError.eq_def]
  split
  · split
    · split
      · exact herror e _
      · exact hP.bind (hP.failed _) fun _ => herror e _
    · exact hP.failed _
  · split
    · exact herror e _
    · exact hP.bind (hP.failed _) fun _ => herror e _

protected theorem Closed.callListener (hhear : ∀ name args, P (hear name args)) (name : Value)
    (refusal : Option String) (c : Call Value) : P (callListener name refusal c) := by
  rw [callListener.eq_def]
  by_cases hkw : c.kw.isEmpty = true
  · rw [if_pos hkw]
    refine hP.bind (hhear name c.args) fun _ => ?_
    cases refusal with
    | none => exact hP.done _
    | some message => exact hP.failed _
  · rw [if_neg hkw]
    refine hP.bind (hP.failed _) fun _ => hP.bind (hhear name c.args) fun _ => ?_
    cases refusal with
    | none => exact hP.done _
    | some message => exact hP.failed _

include hhear herror hnode

/-- What is kept when a listener is heard, and when an error or a node is made, any call keeps. -/
protected theorem Closed.callValue (callee : Value) (c : Call Value) : P (callValue callee c) := by
  rw [callValue.eq_def]
  split
  · exact hP.makeError herror _ c
  · exact hP.failed _
  · next id =>
    refine hP.bind (hP.get? id) fun found => ?_
    split
    · next made =>
      exact hP.bind (hP.ofExcept _) fun a => hP.bind hP.looked fun _ =>
        hP.bind (hP.ofExcept _) fun described =>
          hnode made.name made.isVoid described.1 described.2.1 described.2.2
    · exact hP.callListener hhear _ _ c
    · exact hP.failed _

/-- So does asking a value for something, if the skill that it may have does. -/
protected theorem Closed.request (htuple : ∀ items, P (make (.tuple items))) (v : Value)
    {name : String} (hname : name ∉ madeMembers) (c : Call Value) {skill : Operation Value}
    (hskill : P skill) : P (request v name c skill) := by
  refine hP.bind (hP.find htuple v hname) fun found => ?_
  cases found with
  | part callee => exact hP.callValue hhear herror hnode callee c
  | skill => exact hskill

end Closure

/-- Nothing that is there is changed by calling a value. -/
theorem extending_callValue (callee : Value) (c : Call Value) : Extending (callValue callee c) :=
  closed_extending.callValue extending_hear (fun _ _ => extending_make rfl) extending_makeNodeWith
    callee c

theorem extending_request (v : Value) {name : String} (hname : name ∉ madeMembers)
    (c : Call Value) {skill : Operation Value} (hskill : Extending skill) :
    Extending (request v name c skill) :=
  closed_extending.request extending_hear (fun _ _ => extending_make rfl) extending_makeNodeWith
    (fun _ => extending_make rfl) v hname c hskill

theorem extending_demand (v : Value) {name : String} (hname : name ∉ madeMembers)
    (args : List Value) : Extending (demand v name args) :=
  extending_request v hname _ (closed_extending.failed _)

/-! ### What a call answers -/

variable {w w' : World} {v : Value}

/-- What a constructor made: the objects of the node that the call describes, and nothing else. -/
theorem exists_made_of_construct {name isVoid one two three : Value} {kw : List (String × Value)}
    (h : (construct name isVoid one two three kw).runIn w = (.ok v, w')) :
    ∃ s content children flag,
      describe (w.read one) (w.read two) (w.read three) (kw.map fun e => (e.1, w.readPart e.2)) =
        .ok (s, content, children) ∧
      v = .ref (s.listenersAt w.objects.size + 3) ∧
      w' = w.addAll (s.made w.objects.size name flag content children) := by
  obtain ⟨w₁, w₂, hw, h⟩ := ok_of_runIn_bind h
  cases hw
  obtain ⟨⟨s, content, children⟩, w₃, hdescribe, h⟩ := ok_of_runIn_bind h
  rw [runIn_ofExcept, Prod.mk.injEq] at hdescribe
  obtain ⟨hdescribe, rfl⟩ := hdescribe
  rcases cases_makeNodeWith name isVoid s content children w with
    ⟨fault, hrun⟩ | ⟨flag, hrun⟩
  · rw [h] at hrun
    cases hrun
  · rw [h, Prod.mk.injEq, Except.ok.injEq] at hrun
    exact ⟨s, content, children, flag, hdescribe, hrun.1, hrun.2⟩

theorem between_of_construct {name isVoid one two three : Value} {kw : List (String × Value)}
    (h : (construct name isVoid one two three kw).runIn w = (.ok v, w')) :
    v.Between w.objects.size w'.objects.size := by
  obtain ⟨s, content, children, flag, -, rfl, rfl⟩ := exists_made_of_construct h
  have hn := AttributeSet.le_listenersAt (s := s) (n := w.objects.size)
  refine Value.between_ref (by omega) ?_
  rw [AttributeSet.size_made]
  omega

theorem between_of_make {o : Object Value} (h : (make o).runIn w = (.ok v, w')) :
    v.Between w.objects.size w'.objects.size := by
  rw [runIn_make', Prod.mk.injEq, Except.ok.injEq] at h
  obtain ⟨rfl, rfl⟩ := h
  exact Value.between_ref (Nat.le_refl _) (by rw [World.size_add]; omega)

theorem between_of_callConstructor {made : Constructor Value} {c : Call Value}
    (h : (callConstructor made c).runIn w = (.ok v, w')) :
    v.Between w.objects.size w'.objects.size := by
  obtain ⟨a, w₁, ha, h⟩ := ok_of_runIn_bind h
  rw [runIn_ofExcept, Prod.mk.injEq] at ha
  rw [← ha.2] at h
  exact between_of_construct h

theorem eq_none_of_callListener {name : Value} {refusal : Option String} {c : Call Value}
    (h : (callListener name refusal c).runIn w = (.ok v, w')) : v = .none := by
  rw [callListener.eq_def] at h
  by_cases hkw : c.kw.isEmpty = true
  · rw [if_pos hkw] at h
    cases refusal with
    | none => cases h; rfl
    | some message => cases h
  · rw [if_neg hkw] at h
    cases h

theorem between_of_makeError {e : ErrorClass} {c : Call Value}
    (h : (makeError e c).runIn w = (.ok v, w')) : v.Between w.objects.size w'.objects.size := by
  rw [makeError.eq_def] at h
  split at h
  · split at h
    · split at h
      · exact between_of_make h
      · cases h
    · cases h
  · split at h
    · exact between_of_make h
    · cases h

/-- What a call answers is nothing or a new object. -/
theorem between_of_callValue {callee : Value} {c : Call Value}
    (h : (callValue callee c).runIn w = (.ok v, w')) :
    v.Between w.objects.size w'.objects.size := by
  rw [callValue.eq_def] at h
  split at h
  · exact between_of_makeError h
  · cases h
  · obtain ⟨found, w₁, hfound, h⟩ := ok_of_runIn_bind h
    cases hfound
    split at h
    · exact between_of_callConstructor h
    · rw [eq_none_of_callListener h]
      exact Value.between_atom _ _ _
    · cases h

theorem between_of_demand {asked : Value} {name : String} {args : List Value}
    (hname : name ∉ madeMembers) (h : (demand asked name args).runIn w = (.ok v, w')) :
    v.Between w.objects.size w'.objects.size := by
  have hfound := extending_find asked hname w
  obtain ⟨found, w₁, hfind, h⟩ := ok_of_runIn_bind h
  rw [hfind] at hfound
  cases found with
  | skill => cases h
  | part callee =>
    exact (between_of_callValue h).mono hfound.size_le (Nat.le_refl _)

end Operation

end Markup
