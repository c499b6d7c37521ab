import Markup.Proofs.Document.Memory
import Markup.Proofs.Document.Parts
import Markup.Proofs.Node.Change
import Markup.Proofs.Node.Frozen

/-!
# Elements are set up apart from all else

While a document in memory sets up an element, it changes only what belongs to that element: the
element and its attributes first, then its listeners, and its child nodes last
(`Operation.Touches`).  The elements below are set up in between and are new as a whole, so
materialising changes nothing that was there (`Host.retains_materializeNode`), and the listeners of
an element stay as they were registered while its children are made
(`Host.exists_of_materializeNode`).

Unlike what is said of trees that constructors make, this holds of any node, whatever is in its
fields, as far as it can be materialised at all.
-/

namespace Markup

open Operation

/-- An element of a document over collections of its own, with nothing else. -/
structure Element.Over (e : Element Value) (d : Nat) (c : Cells) : Prop where
  document : e.document = .ref d
  attributes : e.attributes = .ref c.attributes
  listeners : e.listeners = .ref c.listeners
  childNodes : e.childNodes = .ref c.childNodes
  extras : e.extras = []

namespace World

variable {w w₁ w' : World} {d n : Nat} {opened : Nat → Prop} {stored : Value → Prop}

/--
A document in memory, and an element of it that was made when there were `n` objects: what is
stored for its listeners was made later.
-/
structure Hosts (w : World) (d n : Nat) : Prop where
  document : w.objects[d]? = some (.memoryDocument [])
  element : ∃ e, w.objects[n + 3]? = some (.element e) ∧ e.Over d (Cells.new n)
  listeners : ∃ es, w.objects[n + 1]? = some (.map es) ∧ ∀ k, .ref k ∈ es.map (·.2) → n + 3 < k

theorem Alters.changesOnly (h : w.Alters opened stored w') : w.ChangesOnly opened w' :=
  ⟨h.size_le, h.kept⟩

/-- An element stays where its objects do. -/
theorem Hosts.frame (h : w.Hosts d n) (hchanges : w.ChangesOnly opened w') (hd : ¬ opened d)
    (hlisteners : ¬ opened (n + 1)) (helement : ¬ opened (n + 3)) : w'.Hosts d n := by
  obtain ⟨e, he, hover⟩ := h.element
  obtain ⟨es, hes, hlater⟩ := h.listeners
  exact ⟨hchanges.spared h.document hd, ⟨e, hchanges.spared he helement, hover⟩,
    ⟨es, hchanges.spared hes hlisteners, hlater⟩⟩

theorem Hosts.retains (h : w.Hosts d n) (hretains : w.Retains 0 w') : w'.Hosts d n :=
  h.frame hretains (Nat.not_lt_zero _) (Nat.not_lt_zero _) (Nat.not_lt_zero _)

/-- No element is altered by a change in place, and only what is new goes among its listeners. -/
theorem Hosts.alters (h : w.Hosts d n) (halters : w.Alters opened stored w')
    (hstored : ∀ k, opened (n + 1) → stored (.ref k) → n + 3 < k) : w'.Hosts d n := by
  obtain ⟨e, he, hover⟩ := h.element
  obtain ⟨es, hes, hlater⟩ := h.listeners
  refine ⟨?_, ⟨e, ?_, hover⟩, ?_⟩
  · obtain ⟨o, ho, haltered⟩ := halters.altered h.document
    cases haltered
    exact ho
  · obtain ⟨o, ho, haltered⟩ := halters.altered he
    cases haltered
    exact ho
  · by_cases hopen : opened (n + 1)
    · obtain ⟨o, ho, haltered⟩ := halters.altered hes
      have hsize := lt_size he
      cases haltered with
      | same => exact ⟨es, ho, hlater⟩
      | map _ es' hvalues =>
        refine ⟨es', ho, fun k hk => ?_⟩
        obtain ⟨entry, hentry, hvalue⟩ := List.mem_map.mp hk
        rcases hvalues entry hentry with hold | hnew | hbetween
        · exact hlater k (hvalue ▸ hold)
        · exact hstored k hopen (hvalue ▸ hnew)
        · have hk := (hbetween k hvalue).1
          omega
    · exact ⟨es, halters.kept hes hopen, hlater⟩

/-- The element itself may be replaced by one over the same collections. -/
theorem Hosts.replace (h : w.Hosts d n) {e : Element Value} (he : e.Over d (Cells.new n)) :
    (w.replace (n + 3) (.element e)).Hosts d n := by
  obtain ⟨e', he', -⟩ := h.element
  obtain ⟨es, hes, hlater⟩ := h.listeners
  have hne : d ≠ n + 3 := by
    rintro rfl
    exact nomatch h.document.symm.trans he'
  exact ⟨(get_replace_ne hne).trans h.document, ⟨e, get_replace_self (lt_size he'), he⟩,
    ⟨es, (get_replace_ne (by omega)).trans hes, hlater⟩⟩

end World

namespace Operation

open World

variable {α β : Type} {d n : Nat} {opened opened' : Nat → Prop} {w w' : World}

/-! ## What an operation touches while an element is set up -/

/-- An operation that succeeds changes only certain objects, and the element stays one. -/
def Touches (d n : Nat) (opened : Nat → Prop) (x : Operation α) : Prop :=
  ∀ ⦃w w' : World⦄ ⦃a : α⦄, w.Hosts d n → x.runIn w = (.ok a, w') →
    w.ChangesOnly opened w' ∧ w'.Hosts d n

theorem closed_touches (d n : Nat) (opened : Nat → Prop) :
    Closed fun _ x => Touches d n opened x where
  done a := by
    intro w w' b hw hrun
    cases hrun
    exact ⟨.refl opened w, hw⟩
  failed f := by
    intro w w' a _ hrun
    cases hrun
  looked := by
    intro w w' b hw hrun
    cases hrun
    exact ⟨.refl opened w, hw⟩
  bind hx hk := by
    intro w w' b hw hrun
    obtain ⟨a, w₁, hfirst, hrest⟩ := ok_of_runIn_bind hrun
    obtain ⟨hchanges, hw₁⟩ := hx hw hfirst
    obtain ⟨hchanges', hw'⟩ := hk a hw₁ hrest
    exact ⟨hchanges.trans hchanges', hw'⟩

theorem Touches.mono {x : Operation α} (hx : Touches d n opened x)
    (hopened : ∀ i, opened i → opened' i) : Touches d n opened' x := by
  intro w w' a hw hrun
  obtain ⟨hchanges, hw'⟩ := hx hw hrun
  exact ⟨hchanges.mono hopened, hw'⟩

/-! ## The capabilities of a document in memory -/

/-- A member of the element that names one of its collections. -/
theorem runIn_member_element (hw : w.Hosts d n) {name : String} {v : Value}
    (hname : (name, v) ∈ [("attributes", Value.ref n), ("listeners", .ref (n + 1)),
      ("child_nodes", .ref (n + 2))]) : (member (.ref (n + 3)) name).runIn w = (.ok v, w) := by
  obtain ⟨⟨_, _, _, _, _, _, _, _, _⟩, he, hover⟩ := hw.element
  obtain ⟨rfl, rfl, rfl, rfl, rfl⟩ := hover
  simp only [List.mem_cons, Prod.mk.injEq, List.not_mem_nil, or_false] at hname
  rcases hname with ⟨rfl, rfl⟩ | ⟨rfl, rfl⟩ | ⟨rfl, rfl⟩ <;> exact runIn_member he rfl rfl

theorem touches_keepElementVoid (value : Value) :
    Touches d n (· = n + 3) (keepElementVoid (.ref (n + 3)) value) := by
  intro w w' a hw hrun
  obtain ⟨e, he, hover⟩ := hw.element
  rw [keepElementVoid, runIn_bind_ok (runIn_element he)] at hrun
  cases hrun
  exact ⟨changesOnly_replace rfl, hw.replace ⟨hover.1, hover.2, hover.3, hover.4, hover.5⟩⟩

theorem touches_setElementProperty (changed : ElementProperty) (value : Value) :
    Touches d n (· = n + 3) (setElementProperty (.ref (n + 3)) changed value) := by
  intro w w' a hw hrun
  obtain ⟨e, he, hover⟩ := hw.element
  obtain ⟨e', hassign, hover', hlabel⟩ : ∃ e' : Element Value,
      (setElementProperty (.ref (n + 3)) changed value).runIn w =
        (tellAssigned e.document (.ref (n + 3)) changed value).runIn
          (w.replace (n + 3) (.element e')) ∧ e'.Over d (Cells.new n) ∧
      (label (.ref (n + 3))).runIn (w.replace (n + 3) (.element e')) =
        (.ok e'.name, w.replace (n + 3) (.element e')) := by
    rw [setElementProperty, runIn_bind_ok (runIn_element he)]
    obtain ⟨_, _, _, _, _, _, _, _, _⟩ := e
    obtain ⟨rfl, rfl, rfl, rfl, rfl⟩ := hover
    cases changed
    · exact ⟨_, rfl, ⟨rfl, rfl, rfl, rfl, rfl⟩,
        runIn_member (get_replace_self (lt_size he)) rfl rfl⟩
    · exact ⟨_, rfl, ⟨rfl, rfl, rfl, rfl, rfl⟩,
        runIn_member (get_replace_self (lt_size he)) rfl rfl⟩
  have hw₁ := hw.replace hover'
  rw [hassign, hover.document, runIn_tellAssigned_memory hw₁.document changed value hlabel] at hrun
  cases hrun
  exact ⟨changesOnly_replace rfl, hw₁⟩

theorem touches_setElementAttribute (key value : Value) :
    Touches d n (· = n) (setElementAttribute (.ref (n + 3)) key value) := by
  intro w w' a hw hrun
  rw [setElementAttribute, runIn_bind_ok (runIn_member_element hw (v := .ref n) (by simp))] at hrun
  have halters := alters_setItem (.ref n) key value w
  rw [hrun] at halters
  refine ⟨halters.changesOnly.mono fun i hi => (Value.ref.inj hi).symm, hw.alters halters ?_⟩
  intro k hopen
  have heq := Value.ref.inj hopen
  omega

/-- A listener goes into the map of the listeners, or into a list that was made for an event. -/
theorem touches_addElementListener (event listener : Value) :
    Touches d n (fun i => i = n + 1 ∨ n + 3 < i)
      (addElementListener (.ref (n + 3)) event listener) := by
  intro w w' a hw hrun
  rw [addElementListener,
    runIn_bind_ok (runIn_member_element hw (v := .ref (n + 1)) (by simp))] at hrun
  have halters := alters_appendUnder (.ref (n + 1)) event listener w
  rw [hrun] at halters
  refine ⟨halters.changesOnly.mono fun i hi => ?_, hw.alters halters fun _ _ h => h.elim⟩
  obtain ⟨es, hes, hlater⟩ := hw.listeners
  rcases hi with hmap | ⟨l, es', hl, hes', hrow⟩
  · exact .inl (Value.ref.inj hmap).symm
  · rw [← Value.ref.inj hl, hes, Option.some.injEq, Object.map.injEq] at hes'
    exact .inr (hlater i (hes' ▸ hrow))

theorem touches_appendToElement (child : Value) :
    Touches d n (· = n + 2) (appendToElement (.ref (n + 3)) child) := by
  intro w w' a hw hrun
  rw [appendToElement,
    runIn_bind_ok (runIn_member_element hw (v := .ref (n + 2)) (by simp))] at hrun
  have halters := alters_append (.ref (n + 2)) child w
  rw [hrun] at halters
  exact ⟨halters.changesOnly.mono fun i hi => (Value.ref.inj hi).symm,
    hw.alters halters fun _ _ h => h.elim⟩

theorem touches_makeText (text : Value) : Touches d n opened (makeText text) := by
  intro w w' a hw hrun
  have hretains : w.Retains 0 w' := by
    cases hrun
    exact changesOnly_add
  exact ⟨hretains.of_none, hw.retains hretains⟩

/-- The objects of a new element come one after the other, whatever its name is. -/
theorem exists_of_makeElement {name v : Value} (hd : w.objects[d]? = some (.memoryDocument []))
    (h : (makeElement d name).runIn w = (.ok v, w')) :
    v = .ref (w.objects.size + 3) ∧ w.Retains 0 w' ∧ w'.Hosts d w.objects.size ∧
      w'.objects[w.objects.size + 1]? = some (.map []) := by
  rw [makeElement] at h
  obtain ⟨flag, w₁, hflag, hmake⟩ := ok_of_runIn_bind h
  have hsame : w₁ = w := by
    rcases cases_voidOr none name w with ⟨f, hvoid⟩ | ⟨flag', hvoid⟩
    · cases hflag.symm.trans hvoid
    · cases hflag.symm.trans hvoid
      rfl
  subst hsame
  let e : Element Value := {
    document := .ref d, name, isVoid := flag, id := .text "", className := .text "",
    attributes := .ref w₁.objects.size, listeners := .ref (w₁.objects.size + 1),
    childNodes := .ref (w₁.objects.size + 2), extras := [] }
  have hrun : (.ok v, w') = ((.ok (.ref (w₁.objects.size + 3)) : Except Fault Value),
      w₁.addAll [.map [], .map [], .list [], .element e]) := by
    rw [← hmake, addAll_cons, addAll_cons, addAll_cons, addAll_cons, addAll_nil]
    simp [makeMap, makeList, runIn_bind, World.add, e]
  cases hrun
  refine ⟨rfl, ⟨by simp, fun ho _ => (get_addAll_old (lt_size ho)).trans ho⟩,
    ⟨(get_addAll_old (lt_size hd)).trans hd, ⟨e, get_addAll_new 3, rfl, rfl, rfl, rfl, rfl⟩,
      [], get_addAll_new 1, ?_⟩, get_addAll_new 1⟩
  intro k hk
  cases hk

end Operation

namespace Host

open World

variable {w w' : World} {d n : Nat}

/-! ## The parts of a node in turn -/

theorem touches_setAttributes (attrs : Term) :
    Touches d n (· = n) ((memoryHost d).setAttributes (.ref (n + 3)) attrs) :=
  (closed_touches d n _).setAttributes touches_setElementAttribute attrs

theorem touches_setId (id : Term) :
    Touches d n (· = n + 3) ((memoryHost d).setId (.ref (n + 3)) id) :=
  (closed_touches d n _).setId touches_setElementProperty id

theorem touches_setClasses (classes : Term) :
    Touches d n (· = n + 3) ((memoryHost d).setClasses (.ref (n + 3)) classes) :=
  (closed_touches d n _).setClasses touches_setElementProperty classes

theorem touches_setStyle (style : Term) :
    Touches d n (· = n) ((memoryHost d).setStyle (.ref (n + 3)) style) :=
  (closed_touches d n _).setStyle touches_setElementAttribute style

theorem touches_addListeners (listeners : Term) :
    Touches d n (fun i => i = n + 1 ∨ n + 3 < i)
      ((memoryHost d).addListeners (.ref (n + 3)) listeners) :=
  (closed_touches d n _).addListeners touches_addElementListener listeners

theorem touches_appendText (text : Value) :
    Touches d n (· = n + 2) ((memoryHost d).appendText (.ref (n + 3)) text) :=
  (closed_touches d n _).bind (touches_makeText text) touches_appendToElement

theorem touches_addContent (content : Term) :
    Touches d n (· = n + 2) ((memoryHost d).addContent (.ref (n + 3)) content) :=
  (closed_touches d n _).addContent touches_appendText content

theorem touches_appendLeaves (ts : List Term) :
    Touches d n (· = n + 2) ((memoryHost d).appendLeaves (.ref (n + 3)) ts) :=
  (closed_touches d n _).appendLeaves touches_appendText ts

/-! ## Nodes and their children -/

/--
A node in the order in which its parts are taken: after the element is there with its attributes,
nothing is registered for it yet, then its listeners are registered, then what is inside it is made.
-/
theorem exists_of_materializeNode {t : Node Term} {v : Value}
    (hd : w.objects[d]? = some (.memoryDocument []))
    (h : ((memoryHost d).materializeNode t).runIn w = (.ok v, w')) :
    v = .ref (w.objects.size + 3) ∧ ∃ w₁ w₂ w₃, w.Retains 0 w₁ ∧ w₁.Hosts d w.objects.size ∧
      w₁.objects[w.objects.size + 1]? = some (.map []) ∧
      ((memoryHost d).addListeners v t.listeners).runIn w₁ = (.ok (), w₂) ∧
      ((memoryHost d).addContent v t.content).runIn w₂ = (.ok (), w₃) ∧
      ((memoryHost d).appendChildren v t.children).runIn w₃ = (.ok (), w') := by
  rw [materializeNode] at h
  obtain ⟨e, u, hmake, h⟩ := ok_of_runIn_bind h
  obtain ⟨rfl, hnew, hosts, hempty⟩ := exists_of_makeElement hd hmake
  obtain ⟨⟨⟩, u₁, hkeep, h⟩ := ok_of_runIn_bind h
  obtain ⟨⟨⟩, u₂, hattrs, h⟩ := ok_of_runIn_bind h
  obtain ⟨⟨⟩, u₃, hid, h⟩ := ok_of_runIn_bind h
  obtain ⟨⟨⟩, u₄, hclasses, h⟩ := ok_of_runIn_bind h
  obtain ⟨⟨⟩, w₁, hstyle, h⟩ := ok_of_runIn_bind h
  obtain ⟨⟨⟩, w₂, hlisteners, h⟩ := ok_of_runIn_bind h
  obtain ⟨⟨⟩, w₃, hcontent, h⟩ := ok_of_runIn_bind h
  obtain ⟨⟨⟩, w₄, hchildren, h⟩ := ok_of_runIn_bind h
  cases h
  let opened : Nat → Prop := fun i => i = w.objects.size ∨ i = w.objects.size + 3
  have hattribute : ∀ i, i = w.objects.size → opened i := fun _ => .inl
  have hproperty : ∀ i, i = w.objects.size + 3 → opened i := fun _ => .inr
  obtain ⟨c₁, hosts₁⟩ := (touches_keepElementVoid t.isVoid.toValue).mono hproperty hosts hkeep
  obtain ⟨c₂, hosts₂⟩ := (touches_setAttributes t.attrs).mono hattribute hosts₁ hattrs
  obtain ⟨c₃, hosts₃⟩ := (touches_setId t.id).mono hproperty hosts₂ hid
  obtain ⟨c₄, hosts₄⟩ := (touches_setClasses t.classes).mono hproperty hosts₃ hclasses
  obtain ⟨c₅, hosts₅⟩ := (touches_setStyle t.style).mono hattribute hosts₄ hstyle
  have hchanges := (((c₁.trans c₂).trans c₃).trans c₄).trans c₅
  refine ⟨rfl, w₁, w₂, w₃, hnew.later hchanges ?_, hosts₅, hchanges.spared hempty ?_, hlisteners,
    hcontent, hchildren⟩
  · rintro i (rfl | rfl) <;> omega
  · rintro (h | h) <;> omega

/-- What is made of a node or of a text is new. -/
def MakesApart (d : Nat) (x : Operation Value) : Prop :=
  ∀ ⦃w w' : World⦄ ⦃v : Value⦄, w.objects[d]? = some (.memoryDocument []) →
    x.runIn w = (.ok v, w') → w.Retains 0 w'

mutual

/-- Of a tree, each node is made apart. -/
theorem makesApart_materializeNode (d : Nat) :
    ∀ t : Node Term, MakesApart d ((memoryHost d).materializeNode t)
  | ⟨name, isVoid, id, classes, style, listeners, attrs, content, children⟩ => by
    intro w w' v hd hrun
    obtain ⟨rfl, w₁, w₂, w₃, hnew, hosts, -, hlisteners, hcontent, hchildren⟩ :=
      exists_of_materializeNode hd hrun
    obtain ⟨c₁, hosts₁⟩ := touches_addListeners listeners hosts hlisteners
    obtain ⟨c₂, hosts₂⟩ := touches_addContent content hosts₁ hcontent
    obtain ⟨c₃, -⟩ := touches_appendChildren children hosts₂ hchildren
    refine ((hnew.later c₁ ?_).later c₂ ?_).later c₃ ?_
    · rintro i (rfl | hi) <;> omega
    · rintro i rfl
      omega
    · rintro i rfl
      omega

/-- What is inside an element is made without touching its listeners. -/
theorem touches_appendChildren {d n : Nat} (t : Term) :
    Touches d n (· = n + 2) ((memoryHost d).appendChildren (.ref (n + 3)) t) := by
  rw [appendChildren.eq_def]
  split
  · next id items =>
    exact touches_appendItems d n items
  · next id items =>
    exact touches_appendItems d n items
  · cases t.leaves? with
    | none => exact (closed_touches d n _).failed _
    | some ts => exact touches_appendLeaves ts

theorem touches_appendItems (d n : Nat) :
    ∀ ts : List Term, Touches d n (· = n + 2) ((memoryHost d).appendItems (.ref (n + 3)) ts)
  | [] => by
    rw [appendItems]
    exact (closed_touches d n _).done ()
  | t :: ts => by
    intro w w' a hw hrun
    rw [appendItems] at hrun
    obtain ⟨child, w₁, hmake, hrun⟩ := ok_of_runIn_bind hrun
    obtain ⟨⟨⟩, w₂, happend, hrun⟩ := ok_of_runIn_bind hrun
    have hnew := makesApart_materializeChild d t hw.document hmake
    obtain ⟨hchanges, hw₂⟩ := touches_appendToElement child (hw.retains hnew) happend
    obtain ⟨hchanges', hw'⟩ := touches_appendItems d n ts hw₂ hrun
    exact ⟨hnew.of_none.trans (hchanges.trans hchanges'), hw'⟩

theorem makesApart_materializeChild (d : Nat) (t : Term) :
    MakesApart d ((memoryHost d).materializeChild t) := by
  rw [materializeChild.eq_def]
  split
  · intro w w' v hd hrun
    cases hrun
    exact changesOnly_add
  · next id n =>
    exact makesApart_materializeNode d n
  · intro w w' v hd hrun
    cases hrun

end

/-- Materialising a node changes nothing that was there. -/
theorem retains_materializeNode {t : Node Term} {v : Value}
    (hd : w.objects[d]? = some (.memoryDocument []))
    (h : ((memoryHost d).materializeNode t).runIn w = (.ok v, w')) : w.Retains 0 w' :=
  makesApart_materializeNode d t hd h

end Host

end Markup
