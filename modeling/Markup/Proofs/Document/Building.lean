import Markup.Proofs.Document.InMemory

/-!
# What the operations of a document do to a stack of elements

Each operation of a document in memory succeeds on the element on top of a stack, and the stack
is afterwards what it should be.  In between stand the facts on the objects of one element: since
they are distinct, replacing one of them changes one part and keeps the others.
-/

namespace Markup

namespace World

variable {w : World} {d lo mid hi : Nat} {v : Value} {c : Cells} {p : ElementParts}
  {vs : List Value} {stack : List (Value × ElementTree)}

/-! ## Replacing an object of an element -/

/-- The four objects that every element has are distinct, and the rows are others. -/
theorem distinct_cells (h : c.all.Nodup) :
    (c.element ≠ c.attributes ∧ c.element ≠ c.listeners ∧ c.element ≠ c.childNodes ∧
      c.attributes ≠ c.listeners ∧ c.attributes ≠ c.childNodes ∧ c.listeners ≠ c.childNodes) ∧
    ∀ r ∈ c.rows, r.2 ≠ c.element ∧ r.2 ≠ c.attributes ∧ r.2 ≠ c.listeners ∧
      r.2 ≠ c.childNodes := by
  simp only [Cells.all, List.nodup_cons, List.mem_cons, not_or, List.mem_map, not_exists,
    not_and] at h
  obtain ⟨⟨hea, hel, hek, her⟩, ⟨hal, hak, har⟩, ⟨hlk, hlr⟩, hkr, -⟩ := h
  exact ⟨⟨hea, hel, hek, hal, hak, hlk⟩, fun r hr => ⟨her r hr, har r hr, hlr r hr, hkr r hr⟩⟩

theorem HoldsParts.set_element (h : w.HoldsParts d c p vs) (p' : ElementParts)
    (hattributes : p'.attributes = p.attributes) (hlisteners : p'.listeners = p.listeners) :
    (w.replace c.element (p'.object d c)).HoldsParts d c p' vs := by
  obtain ⟨⟨hea, hel, hek, -⟩, hrows⟩ := distinct_cells h.nodup
  refine ⟨get_replace_self (lt_size h.element), ?_, ?_, ?_, ?_, h.nodup⟩
  · rw [get_replace_ne hea.symm, h.attributes, hattributes]
  · rw [get_replace_ne hel.symm, h.listeners]
  · rw [hlisteners]
    exact h.rows.frame fun r hr => get_replace_ne (hrows r hr).1
  · rw [get_replace_ne hek.symm, h.childNodes]

theorem HoldsParts.set_attributes (h : w.HoldsParts d c p vs) (m : Entries String String) :
    (w.replace c.attributes (.map (m.stored .text .text))).HoldsParts d c
      { p with attributes := m } vs := by
  obtain ⟨⟨hea, -, -, hal, hak, -⟩, hrows⟩ := distinct_cells h.nodup
  refine ⟨?_, get_replace_self (lt_size h.attributes), ?_, ?_, ?_, h.nodup⟩
  · rw [get_replace_ne hea, h.element]
    rfl
  · rw [get_replace_ne hal.symm, h.listeners]
  · exact h.rows.frame fun r hr => get_replace_ne (hrows r hr).2.1
  · rw [get_replace_ne hak.symm, h.childNodes]

theorem HoldsParts.set_childNodes (h : w.HoldsParts d c p vs) (us : List Value) :
    (w.replace c.childNodes (.list us)).HoldsParts d c p us := by
  obtain ⟨⟨-, -, hek, -, hak, hlk⟩, hrows⟩ := distinct_cells h.nodup
  refine ⟨?_, ?_, ?_, ?_, get_replace_self (lt_size h.childNodes), h.nodup⟩
  · rw [get_replace_ne hek, h.element]
  · rw [get_replace_ne hak, h.attributes]
  · rw [get_replace_ne hlk, h.listeners]
  · exact h.rows.frame fun r hr => get_replace_ne (hrows r hr).2.2.2

/-! ## Registering a listener -/

variable {rows : Entries String Nat} {listeners : Entries String (List Value)} {k : String}
  {cell : Nat} {callee : Value}

/-- A further listener of an event goes to the end of the list of the event. -/
theorem HoldsRows.extend_held (h : w.HoldsRows rows listeners)
    (hdistinct : (rows.map (·.2)).Nodup) (hk : rows.get? k = some cell) (callee : Value) :
    cell ∈ rows.map (·.2) ∧ ∃ items, w.objects[cell]? = some (.list items) ∧
      (w.replace cell (.list (items ++ [callee]))).HoldsRows rows
        (listeners.extend k [callee]) := by
  induction h with
  | nil => cases hk
  | @cons r l rows listeners hrow hrest ih =>
    obtain ⟨hname, hlist⟩ := hrow
    obtain ⟨hfresh, hdistinct⟩ := List.nodup_cons.mp hdistinct
    rw [Entries.get?_cons] at hk
    by_cases hr : r.1 == k
    · rw [if_pos hr] at hk
      obtain rfl := Option.some.inj hk
      refine ⟨List.mem_cons_self, l.2, hlist, ?_⟩
      rw [Entries.extend, Entries.alter, ← hname, if_pos hr]
      refine .cons ⟨rfl, get_replace_self (lt_size hlist)⟩ (HoldsRows.frame hrest fun q hq => ?_)
      exact get_replace_ne fun heq => hfresh (List.mem_map.mpr ⟨q, hq, heq⟩)
    · rw [if_neg hr] at hk
      obtain ⟨hmem, items, hitems, hlater⟩ := ih hdistinct hk
      refine ⟨List.mem_cons_of_mem _ hmem, items, hitems, ?_⟩
      rw [Entries.extend, Entries.alter, ← hname, if_neg hr]
      have hne : r.2 ≠ cell := by
        rintro rfl
        exact hfresh hmem
      refine .cons ⟨rfl, ?_⟩ hlater
      rw [get_replace_ne hne, hlist]

/-- The first listener of an event comes with a list of its own. -/
theorem HoldsRows.extend_missing (h : w.HoldsRows rows listeners) (hk : rows.get? k = none)
    (hcell : w.objects[cell]? = some (.list [callee])) :
    w.HoldsRows (rows ++ [(k, cell)]) (listeners.extend k [callee]) := by
  induction h with
  | nil => exact .cons ⟨rfl, hcell⟩ .nil
  | @cons r l rows listeners hrow _ ih =>
    rw [Entries.get?_cons] at hk
    by_cases hr : r.1 == k
    · rw [if_pos hr] at hk
      cases hk
    · rw [if_neg hr] at hk
      rw [Entries.extend, Entries.alter, ← hrow.1, if_neg hr]
      exact .cons ⟨rfl, hrow.2⟩ (ih hk)

theorem HoldsRows.lt_size (h : w.HoldsRows rows listeners) :
    ∀ r ∈ rows, r.2 < w.objects.size := by
  induction h with
  | nil =>
    intro r hr
    cases hr
  | cons hrow _ ih => exact List.forall_mem_cons.mpr ⟨World.lt_size hrow.2, ih⟩

theorem HoldsParts.lt_size (h : w.HoldsParts d c p vs) : ∀ i ∈ c.all, i < w.objects.size := by
  intro i hi
  simp only [Cells.all, List.mem_cons, List.mem_map] at hi
  rcases hi with rfl | rfl | rfl | rfl | ⟨r, hr, rfl⟩
  · exact World.lt_size h.element
  · exact World.lt_size h.attributes
  · exact World.lt_size h.listeners
  · exact World.lt_size h.childNodes
  · exact h.rows.lt_size r hr

theorem HoldsParts.extend_held (h : w.HoldsParts d c p vs) (hk : c.rows.get? k = some cell)
    (callee : Value) :
    cell ∈ c.all ∧ ∃ items, w.objects[cell]? = some (.list items) ∧
      (w.replace cell (.list (items ++ [callee]))).HoldsParts d c (p.set (.listener k callee))
        vs := by
  have hnodup : (c.rows.map (·.2)).Nodup := by
    have := h.nodup
    simp only [Cells.all, List.nodup_cons] at this
    exact this.2.2.2.2
  obtain ⟨hmem, items, hcell, hrows⟩ := h.rows.extend_held hnodup hk callee
  obtain ⟨r, hr, rfl⟩ := List.mem_map.mp hmem
  obtain ⟨hre, hra, hrl, hrk⟩ := (distinct_cells h.nodup).2 r hr
  refine ⟨by simp [Cells.all, hmem], items, hcell, ?_, ?_, ?_, hrows, ?_, h.nodup⟩
  · rw [get_replace_ne hre.symm, h.element]
    rfl
  · rw [get_replace_ne hra.symm, h.attributes]
    rfl
  · rw [get_replace_ne hrl.symm, h.listeners]
  · rw [get_replace_ne hrk.symm, h.childNodes]

theorem HoldsParts.extend_missing (h : w.HoldsParts d c p vs) (hk : c.rows.get? k = none) :
    ((w.add (.list [callee])).replace c.listeners
      (.map (Entries.stored (c.rows ++ [(k, w.objects.size)]) .text .ref))).HoldsParts d
        { c with rows := c.rows ++ [(k, w.objects.size)] } (p.set (.listener k callee)) vs := by
  obtain ⟨⟨-, hel, -, hal, -, hlk⟩, hrows⟩ := distinct_cells h.nodup
  have hlisteners := World.lt_size h.listeners
  refine ⟨?_, ?_, ?_, ?_, ?_, ?_⟩
  · rw [get_replace_ne hel, get_add h.element]
    rfl
  · rw [get_replace_ne hal, get_add h.attributes]
    rfl
  · exact get_replace_self (by simp; omega)
  · refine HoldsRows.extend_missing ?_ hk ?_
    · refine h.rows.frame fun r hr => ?_
      rw [get_replace_ne (hrows r hr).2.2.1, get_add_old (h.rows.lt_size r hr)]
    · rw [get_replace_ne (by omega), get_add_new]
  · rw [get_replace_ne hlk.symm, get_add h.childNodes]
  · have hall : (Cells.all { c with rows := c.rows ++ [(k, w.objects.size)] }) =
        c.all ++ [w.objects.size] := by simp [Cells.all]
    rw [hall]
    refine List.nodup_append.mpr ⟨h.nodup, by simp, fun i hi j hj => ?_⟩
    have hlt := h.lt_size i hi
    have hsize := List.mem_singleton.mp hj
    omega

/-! ## The element on top -/

/-- The element on top of a stack, before it has children, is all that lies above the others. -/
def HoldsTop (w : World) (d lo hi : Nat) (stack : List (Value × ElementTree)) (c : Cells)
    (p : ElementParts) : Prop :=
  w.HoldsParts d c p [] ∧
    ∃ mid, (∀ i ∈ c.all, mid ≤ i ∧ i < hi) ∧ w.HoldsStack d lo mid stack

theorem HoldsStack.top (h : w.HoldsStack d lo hi ((v, .element p []) :: stack)) :
    ∃ c, v = .ref c.element ∧ w.HoldsTop d lo hi stack c p := by
  obtain ⟨mid, ⟨c, last, vs, hv, hall, hparts, rfl, hlast⟩, hstack⟩ := h
  exact ⟨c, hv, hparts, mid, fun i hi => ⟨(hall i hi).1, Nat.lt_of_lt_of_le (hall i hi).2 hlast⟩,
    hstack⟩

theorem HoldsTop.holdsStack (h : w.HoldsTop d lo hi stack c p) :
    w.HoldsStack d lo hi ((.ref c.element, .element p []) :: stack) := by
  obtain ⟨hparts, mid, hall, hstack⟩ := h
  exact ⟨mid, ⟨c, hi, [], rfl, hall, hparts, rfl, Nat.le_refl hi⟩, hstack⟩

theorem HoldsTop.le (h : w.HoldsTop d lo hi stack c p) {i : Nat} (hi : i ∈ c.all) : lo ≤ i := by
  obtain ⟨-, mid, hall, hstack⟩ := h
  exact Nat.le_trans hstack.le (hall i hi).1

/-- Where the objects of the element on top change only, so does the stack. -/
theorem HoldsTop.change {w' : World} {hi' : Nat} {c' : Cells} {p' : ElementParts}
    (h : w.HoldsTop d lo hi stack c p) (hle : hi ≤ hi')
    (hsame : ∀ i < hi, i ∉ c.all → w'.objects[i]? = w.objects[i]?)
    (hall : ∀ i ∈ c'.all, i ∈ c.all ∨ hi ≤ i ∧ i < hi') (hparts : w'.HoldsParts d c' p' []) :
    w'.HoldsTop d lo hi' stack c' p' := by
  obtain ⟨-, mid, hold, hstack⟩ := h
  have helement := hold c.element List.mem_cons_self
  refine ⟨hparts, mid, fun i hi => ?_, hstack.frame fun i _ hi => ?_⟩
  · rcases hall i hi with hi | hi
    · exact ⟨(hold i hi).1, Nat.lt_of_lt_of_le (hold i hi).2 hle⟩
    · omega
  · exact hsame i (by omega) fun hmem => absurd (hold i hmem).1 (by omega)

/-- One object of the element on top is replaced. -/
theorem HoldsTop.replace {id : Nat} {o : Object Value} {p' : ElementParts}
    (h : w.HoldsTop d lo hi stack c p) (hid : id ∈ c.all)
    (hparts : (w.replace id o).HoldsParts d c p' []) :
    (w.replace id o).HoldsTop d lo hi stack c p' := by
  refine h.change (Nat.le_refl hi) (fun i _ hi => get_replace_ne ?_) (fun i hi => .inl hi) hparts
  rintro rfl
  exact hi hid

/-! ## A new element -/

/-- The objects of an element that was made when there were so many objects. -/
def Cells.new (size : Nat) : Cells := ⟨size + 3, size, size + 1, size + 2, []⟩

/-- The world with one more element and its objects. -/
def withElement (w : World) (d : Nat) (p : ElementParts) : World :=
  (((w.add (.map [])).add (.map [])).add (.list [])).add (p.object d (Cells.new w.objects.size))

@[simp] theorem size_withElement : (w.withElement d p).objects.size = w.objects.size + 4 := by
  simp [withElement]

theorem get_withElement_old {i : Nat} (h : i < w.objects.size) :
    (w.withElement d p).objects[i]? = w.objects[i]? := by
  rw [withElement, get_add_old (by simp; omega), get_add_old (by simp; omega),
    get_add_old (by simp; omega), get_add_old h]

theorem builds_withElement (h : lo ≤ w.objects.size) (p : ElementParts) :
    Builds lo w (w.withElement d p) :=
  (((builds_add h _).trans (builds_add (by simp; omega) _)).trans
    (builds_add (by simp; omega) _)).trans (builds_add (by simp; omega) _)

theorem holdsTop_withElement (h : w.HoldsStack d lo w.objects.size stack) (name : String)
    (isVoid : Bool) :
    (w.withElement d (.new name isVoid)).HoldsTop d lo
      (w.withElement d (.new name isVoid)).objects.size stack (Cells.new w.objects.size)
      (.new name isVoid) := by
  have hnew : ∀ {w : World} {n : Nat} {o : Object Value}, w.objects.size = n →
      (w.add o).objects[n]? = some o := by
    rintro w _ o rfl
    exact get_add_new
  refine ⟨⟨hnew (by simp [Cells.new]), get_add (get_add (get_add (hnew rfl))),
    get_add (get_add (hnew ?_)), .nil, get_add (hnew ?_), ?_⟩, w.objects.size, ?_,
    h.frame fun i _ hi => get_withElement_old hi⟩
  · simp [Cells.new]
  · simp [Cells.new]
  · simp [Cells.all, Cells.new]
  · simp [Cells.all, Cells.new]

end World

namespace Operation

open World

variable {w : World} {d lo : Nat} {v : Value} {c : Cells} {p : ElementParts} {vs : List Value}
  {stack : List (Value × ElementTree)} {vs' : List ElementTree}

/-! ## The operations -/

theorem runIn_element {id : Nat} {e : Element Value} (h : w.objects[id]? = some (.element e)) :
    (element (.ref id)).runIn w = (.ok (id, e), w) := by
  rw [element, runIn_bind_ok (runIn_objectOf h)]
  rfl

/-- The objects of a new element come one after the other. -/
theorem runIn_makeElement_eq (d : Nat) (name : String) (w : World) :
    (makeElement d (.text name)).runIn w =
      (.ok (.ref (w.objects.size + 3)),
        w.withElement d (.new name (Vocabulary.voidTags.contains name))) := by
  have h₁ : (w.add (.map [])).objects.size = w.objects.size + 1 := size_add
  have h₂ : ((w.add (.map [])).add (.map [])).objects.size = w.objects.size + 2 := by
    rw [size_add, h₁]
  have h₃ : (((w.add (.map [])).add (.map [])).add (.list [])).objects.size =
      w.objects.size + 3 := by
    rw [size_add, h₂]
  rw [withElement, ElementParts.object, Cells.new, ← h₁, ← h₂, ← h₃]
  rfl

/-- A new element is pushed. -/
theorem runIn_makeElement (h : w.HoldsStack d lo w.objects.size stack) (name : String) :
    ∃ e w' isVoid, (makeElement d (.text name)).runIn w = (.ok e, w') ∧ Builds lo w w' ∧
      w'.HoldsStack d lo w'.objects.size ((e, .element (.new name isVoid) []) :: stack) :=
  ⟨_, _, _, runIn_makeElement_eq d name w, builds_withElement h.le _,
    (holdsTop_withElement h name _).holdsStack⟩

/-- A new text node is pushed. -/
theorem runIn_makeText (h : w.HoldsStack d lo w.objects.size stack) (s : String) :
    ∃ v w', (makeText (.text s)).runIn w = (.ok v, w') ∧ Builds lo w w' ∧
      w'.HoldsStack d lo w'.objects.size ((v, .text s) :: stack) := by
  refine ⟨.ref w.objects.size, w.add (.textNode (.text s) []), rfl, builds_add h.le _, ?_⟩
  refine ⟨w.objects.size, ⟨_, rfl, Nat.le_refl _, by simp, get_add_new⟩, ?_⟩
  exact h.frame fun i _ hi => get_add_old hi

/-- The void flag of the element on top is set. -/
theorem runIn_keepElementVoid
    (h : w.HoldsStack d lo w.objects.size ((v, .element p []) :: stack)) (isVoid : Bool) :
    ∃ w', (keepElementVoid v (.bool isVoid)).runIn w = (.ok (), w') ∧ Builds lo w w' ∧
      w'.HoldsStack d lo w'.objects.size ((v, .element { p with isVoid } []) :: stack) := by
  obtain ⟨c, rfl, htop⟩ := h.top
  have hmem : c.element ∈ c.all := List.mem_cons_self
  refine ⟨w.replace c.element (ElementParts.object { p with isVoid } d c), ?_,
    builds_replace (htop.le hmem) htop.1.element (by simp [ElementParts.object]) _, ?_⟩
  · rw [keepElementVoid, runIn_bind_ok (runIn_element htop.1.element)]
    rfl
  · rw [size_replace]
    exact (htop.replace hmem (htop.1.set_element { p with isVoid } rfl rfl)).holdsStack

/-- A text is set in the attributes of the element on top. -/
theorem runIn_setElementAttribute
    (h : w.HoldsStack d lo w.objects.size ((v, .element p []) :: stack)) (key value : String) :
    ∃ w', (setElementAttribute v (.text key) (.text value)).runIn w = (.ok (), w') ∧
      Builds lo w w' ∧ w'.HoldsStack d lo w'.objects.size
        ((v, .element (p.set (.attribute key value)) []) :: stack) := by
  obtain ⟨c, rfl, htop⟩ := h.top
  have hmem : c.attributes ∈ c.all := by simp [Cells.all]
  have hrun : (setElementAttribute (.ref c.element) (.text key) (.text value)).runIn w =
      (.ok (), w.replace c.attributes
        (.map (Entries.stored (p.attributes.set key value) .text .text))) := by
    rw [setElementAttribute, runIn_bind_ok (runIn_member htop.1.element rfl rfl)]
    exact runIn_setItem htop.1.attributes value
  refine ⟨_, hrun, builds_replace (htop.le hmem) htop.1.attributes (by simp) _, ?_⟩
  rw [size_replace]
  exact (htop.replace hmem (htop.1.set_attributes _)).holdsStack

/-- A listener of the element on top is registered. -/
theorem runIn_addElementListener
    (h : w.HoldsStack d lo w.objects.size ((v, .element p []) :: stack)) (event : String)
    (callee : Value) :
    ∃ w', (addElementListener v (.text event) callee).runIn w = (.ok (), w') ∧
      Builds lo w w' ∧ w'.HoldsStack d lo w'.objects.size
        ((v, .element (p.set (.listener event callee)) []) :: stack) := by
  obtain ⟨c, rfl, htop⟩ := h.top
  have hmember : ∀ k : Value → Operation Unit,
      (member (.ref c.element) "listeners" >>= k).runIn w = (k (.ref c.listeners)).runIn w :=
    fun k => runIn_bind_ok (runIn_member htop.1.element rfl rfl)
  rw [addElementListener, hmember]
  cases hk : Entries.get? c.rows event with
  | some cell =>
    obtain ⟨hmem, items, hcell, hparts⟩ := htop.1.extend_held hk callee
    refine ⟨_, runIn_appendUnder_held htop.1.listeners hk hcell callee,
      builds_replace (htop.le hmem) hcell (by simp) _, ?_⟩
    rw [size_replace]
    exact (htop.replace hmem hparts).holdsStack
  | none =>
    have hmem : c.listeners ∈ c.all := by simp [Cells.all]
    refine ⟨_, runIn_appendUnder_missing htop.1.listeners hk callee,
      (builds_add h.le _).trans
        (builds_replace (htop.le hmem) (get_add htop.1.listeners) (by simp) _), ?_⟩
    rw [size_replace, size_add]
    refine (htop.change (Nat.le_succ _) (fun i hi hother => ?_) (fun i hi => ?_)
      (htop.1.extend_missing hk)).holdsStack
    · have hne : i ≠ c.listeners := by
        rintro rfl
        exact hother hmem
      rw [get_replace_ne hne, get_add_old hi]
    · simp only [Cells.all, List.map_append, List.mem_cons, List.mem_append] at hi ⊢
      rcases hi with hi | hi | hi | hi | hi | hi
      all_goals first | tauto | (simp at hi; omega)

/-- The object of the element on top, with one of its two properties assigned. -/
theorem runIn_assign (h : w.HoldsStack d lo w.objects.size ((v, .element p []) :: stack))
    (changed : ElementProperty) (value : String) :
    ∃ w', (setElementProperty v changed (.text value)).runIn w =
        (tellAssigned (.ref d) v changed (.text value)).runIn w' ∧ Builds lo w w' ∧
      w'.HoldsStack d lo w'.objects.size
        ((v, .element (p.set (.property changed value)) []) :: stack) := by
  obtain ⟨c, rfl, htop⟩ := h.top
  have hmem : c.element ∈ c.all := List.mem_cons_self
  refine ⟨w.replace c.element ((p.set (.property changed value)).object d c), ?_,
    builds_replace (htop.le hmem) htop.1.element (by simp [ElementParts.object]) _, ?_⟩
  · rw [setElementProperty, runIn_bind_ok (runIn_element htop.1.element)]
    cases changed <;> rfl
  · rw [size_replace]
    have hparts := htop.1.set_element (p.set (.property changed value))
    cases changed <;> exact (htop.replace hmem (hparts rfl rfl)).holdsStack

/-- What is on top is popped onto the element below it. -/
theorem runIn_appendToElement {e : Value} {child : ElementTree} {children : List ElementTree}
    (h : w.HoldsStack d lo w.objects.size ((v, child) :: (e, .element p children) :: stack)) :
    ∃ w', (appendToElement e v).runIn w = (.ok (), w') ∧ Builds lo w w' ∧
      w'.HoldsStack d lo w'.objects.size
        ((e, .element p (children ++ [child])) :: stack) := by
  obtain ⟨next, hchild, mid, ⟨c, last, vs, rfl, hall, hparts, hbelow⟩, hstack⟩ := h
  have hmem : c.childNodes ∈ c.all := by simp [Cells.all]
  have hlo := hstack.le
  have hlast := hbelow.le
  have hcell := hall c.childNodes hmem
  refine ⟨w.replace c.childNodes (.list (vs ++ [v])), ?_,
    builds_replace (Nat.le_trans hlo hcell.1) hparts.childNodes (by simp) _, ?_⟩
  · rw [appendToElement, runIn_bind_ok (runIn_member hparts.element rfl rfl)]
    exact runIn_append hparts.childNodes v
  · rw [size_replace]
    refine ⟨mid, ⟨c, last, vs ++ [v], rfl, hall, hparts.set_childNodes _, ?_⟩, ?_⟩
    · refine HoldsAll.frame (fun i hi _ => get_replace_ne ?_) (hbelow.append hchild)
      omega
    · exact hstack.frame fun i _ hi => get_replace_ne (by omega)

/-- The label of what is held. -/
theorem runIn_label {hi : Nat} {t : ElementTree} (h : w.Holds d lo hi v t) :
    (label v).runIn w = (.ok (.text t.label), w) := by
  cases t with
  | text s =>
    obtain ⟨id, rfl, -, -, hid⟩ := h
    exact runIn_member hid rfl rfl
  | element p children =>
    obtain ⟨c, mid, vs, rfl, -, hparts, -⟩ := h
    exact runIn_member hparts.element rfl rfl

/-- The label of the element on top. -/
theorem runIn_label_top (h : w.HoldsStack d lo w.objects.size ((v, .element p vs') :: stack)) :
    (label v).runIn w = (.ok (.text p.name), w) := by
  obtain ⟨_, hv, -⟩ := h
  exact runIn_label hv

/-- A document that is told of an assignment has it recorded. -/
theorem runIn_tellAssigned {o : Object Value} {w' : World} {changed : ElementProperty}
    {l value : Value} (hd : w.objects[d]? = some o)
    (hmade : madeMember d o "did_set_property" = pure none)
    (hfind : o.find .atom "did_set_property" = .ok .skill)
    (hlabel : (label v).runIn w = (.ok l, w))
    (hrecord : (record d (.setProperty l changed value)).runIn w = (.ok (), w')) :
    (tellAssigned (.ref d) v changed value).runIn w = (.ok (), w') := by
  have hskill : (do
      record d (.setProperty (← label v) changed value)
      return .none : Operation Value).runIn w = (.ok .none, w') := by
    rw [runIn_bind_ok hlabel, runIn_bind_ok hrecord]
    rfl
  exact runIn_discard ((runIn_request hd hmade hfind _ _).trans hskill)

end Operation

end Markup
