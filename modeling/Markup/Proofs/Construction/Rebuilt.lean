import Markup.Proofs.Construction.Contents
import Markup.Proofs.Construction.Splitting

/-!
# Nodes made again of their own fields

The fields of a node can be given to a constructor again: a mapping of its id, its classes, its
style, its listeners and its plain attributes, its content, and its children (`World.Restates`).
Normal contents are described by this as they are (`World.exists_describe_restated`), and what a
constructor makes has normal contents.  So normalisation is idempotent: the registry makes an equal
node of the fields of a node, with the same values in the same order (`rebuilt_from_fields`).
-/

namespace Markup

open Operation Registry
open Vocabulary (listenerMark)

/-! ## Values that are taken as they are -/

/-- A style is read again as it is. -/
theorem AttributeSet.styleOf_of_shows {t : Term} {style : Option Style} (h : t.ShowsStyle style)
    (hnodup : ∀ s ∈ style, (Entries.keys s).Nodup) : styleOf t = .ok style := by
  cases style with
  | none =>
    obtain rfl := h
    rfl
  | some s =>
    obtain ⟨i, rfl⟩ := h
    have hpairs : (s.terms.mapM fun e => do
        let property ← e.1.plain
        return (property, ← e.2.plain) : Except Fault _) = .ok (s.map fun e => e) := by
      rw [Style.terms, List.mapM_map]
      exact mapM_eq_ok fun e _ => by simp
    have hlist : Entries.ofList s = s := Entries.update_of_nodup (by simpa using hnodup s rfl)
    show (s.terms.mapM _ >>= fun pairs => Except.ok (some (Entries.ofList pairs))) = _
    rw [hpairs, List.map_id', ok_bind, hlist]

/-- A call with a mapping, a text and a sequence describes what each of them does. -/
theorem describe_fields {m : Nat} {es : List (Term × Term)} {s : AttributeSet} {content : String}
    {holder : Term} {children : List Term} (hes : AttributeSet.ofEntries es = .ok s)
    (hholder : Roles.children? holder = some holder)
    (hchildren : Roles.laxChildren holder = .ok children) :
    describe (.map m es) (.text content) holder [] = .ok (s, content, children) := by
  have hresolve : Roles.resolve (.map m es) (.text content) holder =
      .ok ⟨.entries es, content, children⟩ := by
    simp [Roles.resolve, hholder, hchildren, Roles.content?, Term.shape, Roles.primitiveText,
      Roles.secondAttributes?, Roles.firstAttributes?]
  rw [describe, hresolve, ok_bind, AttributeSet.ofSource, hes]
  rfl

namespace World

variable {w : World} {n : Node Value} {c : Contents} {m : Nat}

/-- A text is a child as it is, and so is what is no primitive. -/
theorem laxChild_unfold {v : Value} (h : (∃ s, v = .text s) ∨ ¬ w.IsPrimitive v) (depth : Nat) :
    Roles.laxChild (w.unfold true depth v) = .ok (w.unfold true depth v) := by
  rcases h with ⟨s, rfl⟩ | hnot
  · rw [unfold_atom]
    rfl
  cases v with
  | atom a =>
    rw [unfold_atom]
    cases a <;> first | rfl | exact absurd rfl hnot
  | ref i =>
    cases depth with
    | zero => rfl
    | succ depth =>
      cases ho : w.objects[i]? with
      | none =>
        rw [unfold, unfoldWith, ho]
        rfl
      | some o =>
        rw [unfold_ref ho]
        cases o <;> first | rfl | exact absurd ho hnot

/-- A list of what can be called registers all of it. -/
theorem exists_callables {v : Value} {fns : List Value} (hv : w.HasList v fns) (hne : fns ≠ [])
    (hcallable : ∀ f ∈ fns, w.callable f = true) :
    ∃ ts, AttributeSet.callables (w.readPart v) = some ts ∧ values ts = fns := by
  obtain ⟨i, rfl, hi⟩ := hv
  have hregistered := values_registered w (.ref i)
  have hlist : w.calleesOf (.ref i) = fns := by
    rw [calleesOf, callable, sequence?, hi]
    exact if_pos (List.all_eq_true.mpr hcallable)
  rw [hlist, AttributeSet.registered, Option.bind_some] at hregistered
  cases hts : AttributeSet.callables (w.readPart (.ref i)) with
  | none =>
    rw [hts] at hregistered
    exact absurd hregistered.symm hne
  | some ts =>
    rw [hts] at hregistered
    exact ⟨ts, rfl, hregistered⟩

/-- Lists of listeners register the listeners in them, each under its event. -/
theorem exists_listeners {rows : Entries String Value} {listeners : Entries String (List Value)}
    (hrows : List.Forall₂ (fun row l => row.1 = l.1 ∧ w.HasList row.2 l.2) rows listeners)
    (hfilled : listeners.Filled fun f => w.callable f = true) :
    ∃ read : Entries String (List Term),
      List.Forall₂ (fun row l => row.1 = l.1 ∧ AttributeSet.callables row.2 = some l.2)
        (rows.map fun row => (row.1, w.readPart row.2)) read ∧
      read.map (fun l => (l.1, values l.2)) = listeners := by
  induction hrows with
  | nil => exact ⟨[], .nil, rfl⟩
  | @cons row l rows listeners hrow _ ih =>
    obtain ⟨⟨hne, hcallable⟩, hrest⟩ := List.forall_mem_cons.mp hfilled
    obtain ⟨read, hread, rfl⟩ := ih hrest
    obtain ⟨ts, hts, hvalues⟩ := exists_callables hrow.2 hne hcallable
    exact ⟨(l.1, ts) :: read, .cons ⟨hrow.1, hts⟩ hread, by rw [List.map_cons, hvalues]⟩

/-! ## The fields of a node as a mapping -/

/--
The fields of a node as the entries of a mapping: the id, the classes, the style, for each event the
list of its listeners, and the plain attributes.
-/
def fieldEntries (n : Node Value) (rows : Entries String Value) (attrs : List (Value × Value)) :
    List (Value × Value) :=
  (.text "id", n.id) :: (.text "class", n.classes) :: (.text "style", n.style) ::
    (rows.map (fun row => (.text (listenerMark ++ row.1), row.2)) ++ attrs)

/--
A mapping restates a node: its entries are the fields of the node, with all events and all plain
attributes, of which none has the key that an event gets.
-/
def Restates (w : World) (n : Node Value) (m : Nat) : Prop :=
  ∃ (rows : Entries String Value) (attrs : List (Value × Value)),
    w.HasMap n.listeners (rows.stored .text fun v => v) ∧ w.HasMap n.attrs attrs ∧
      (∀ row ∈ rows, .text (listenerMark ++ row.1) ∉ Entries.keys attrs) ∧
      w.objects[m]? = some (.map (fieldEntries n rows attrs))

/-- What restates a node is read as the mapping of its contents. -/
theorem Restates.exists_read (h : w.Restates n m) (hn : w.HasContents n c) :
    ∃ rows : Entries String Value,
      List.Forall₂ (fun row l => row.1 = l.1 ∧ w.HasList row.2 l.2) rows c.listeners ∧
      w.read (.ref m) = .map m (AttributeSet.restated c.id (w.readPart n.classes)
        (w.readPart n.style) (rows.map fun row => (row.1, w.readPart row.2)) c.attrs) := by
  obtain ⟨rows, attrs, ⟨i, hi, hrows⟩, ⟨j, hj, hattrs⟩, -, hm⟩ := h
  obtain ⟨held, ⟨i', hi', hheld⟩, hlists⟩ := hn.listeners
  obtain ⟨j', hj', hkept⟩ := hn.attrs
  obtain rfl := Value.ref.inj (hi.symm.trans hi')
  obtain rfl := Value.ref.inj (hj.symm.trans hj')
  rw [hrows, Option.some.injEq, Object.map.injEq] at hheld
  rw [hattrs, Option.some.injEq, Object.map.injEq] at hkept
  subst hheld hkept
  rw [Entries.stored, List.forall₂_map_left_iff] at hlists
  refine ⟨rows, hlists.imp fun row l hrow => ⟨Atom.text.inj (Value.atom.inj hrow.1), hrow.2⟩, ?_⟩
  have hid : w.readPart n.id = .ofText? c.id := by rw [hn.id, readPart, unfold_textOrNone]
  have hatom : ∀ a, w.readPart (.atom a) = .atom a := fun a => unfold_atom w true _ a
  rw [read_ref hm]
  show Term.map m (List.map (Prod.map w.readPart w.readPart) _) = _
  simp [fieldEntries, AttributeSet.restated, hid, hatom, Function.comp_def]

/-- The mapping that restates normal contents is read as the attributes among them. -/
theorem exists_attributes_restated (h : w.Restates n m) (hn : w.HasContents n c)
    (hc : w.Normal c) : ∃ es depth listeners, w.read (.ref m) = .map m es ∧
      AttributeSet.ofEntries es = .ok ⟨c.id, c.classes.map (w.unfold true depth), c.style,
        listeners, c.attrs.stored .text fun v => v⟩ ∧
      listeners.map (fun l => (l.1, values l.2)) = c.listeners := by
  obtain ⟨rows, hrows, hread⟩ := h.exists_read hn
  obtain ⟨listeners, hregistered, hlisteners⟩ := exists_listeners hrows hc.listeners
  -- the mapping is an object of its own, so the parts of its entries are read deep enough
  obtain ⟨depth, hsize⟩ : ∃ depth, w.objects.size = depth + 1 := by
    obtain ⟨_, _, -, -, -, hm⟩ := h
    have hlt := lt_size hm
    exact ⟨w.objects.size - 1, by omega⟩
  obtain ⟨_, hclasses⟩ := hn.classes.unfold_items depth
  have hnames : AttributeSet.classesOf (w.readPart n.classes) =
      .ok (c.classes.map (w.unfold true depth)) := by
    rw [readPart, hsize, hclasses]
    rfl
  have hstyle := AttributeSet.styleOf_of_shows (hn.style.shows depth) c.style_nodup
  rw [← hsize] at hstyle
  have hkeys : Entries.keys listeners = Entries.keys c.listeners := by
    rw [← hlisteners, Entries.keys_map_snd]
  exact ⟨_, depth, listeners, hread, AttributeSet.ofEntries_restated hnames hstyle hregistered
    (hkeys ▸ c.listeners_nodup) (hkeys ▸ hc.events) c.attrs_nodup hc.attrs, hlisteners⟩

/-- The children of a node with normal contents are taken as they are. -/
theorem laxChildren_contents (hn : w.HasContents n c) (hc : w.Normal c) :
    Roles.children? (w.read n.children) = some (w.read n.children) ∧
      Roles.laxChildren (w.read n.children) =
        .ok (c.children.map (w.unfold true w.objects.size)) := by
  obtain ⟨_, hchildren⟩ := hn.children.unfold_items w.objects.size
  rw [read, depthBound, hchildren, Roles.laxChildren, Term.items_list, ok_bind]
  refine ⟨rfl, ?_⟩
  conv_rhs => rw [← List.map_id (c.children.map (w.unfold true w.objects.size))]
  refine mapM_eq_ok fun t ht => ?_
  obtain ⟨v, hv, rfl⟩ := List.mem_map.mp ht
  exact laxChild_unfold ((hc.children v hv).imp_right (·.2)) _

/-- Normal contents are described by what restates them. -/
theorem exists_describe_restated (h : w.Restates n m) (hn : w.HasContents n c)
    (hc : w.Normal c) : ∃ s children,
      describe (w.read (.ref m)) (w.read n.content) (w.read n.children) [] =
        .ok (s, c.content, children) ∧ s.StandsFor children c := by
  obtain ⟨es, depth, listeners, hread, hattributes, hlisteners⟩ :=
    exists_attributes_restated h hn hc
  obtain ⟨hgiven, hlax⟩ := laxChildren_contents hn hc
  have hcontent : w.read n.content = .text c.content := by rw [hn.content, read, unfold_atom]
  rw [hread, hcontent]
  refine ⟨_, _, describe_fields hattributes hgiven hlax, rfl, ?_, rfl, hlisteners, rfl, ?_⟩
  · simp [values, Function.comp_def]
  · simp [values, Function.comp_def]

variable {w' : World} {id : Nat} {voids : List String} {rows : Entries String Row}

/-- A registry holds the same rows as long as nothing is changed. -/
theorem HasRegistry.keep (h : w.HasRegistry id voids rows) (hkeep : w.Retains 0 w') :
    w'.HasRegistry id voids rows where
  registry := by
    obtain ⟨v, hid, hv⟩ := h.registry
    exact ⟨v, hkeep.kept (Nat.zero_le _) hid, hkeep.kept (Nat.zero_le _) hv⟩
  constructors e he := hkeep.kept (Nat.zero_le _) (h.constructors e he)
  nodup := h.nodup

/-- The constructor of a row is called for a node with the name and the flag of the row. -/
theorem HasRegistry.calls (h : w.HasRegistry id voids rows) {name : String} {row : Row}
    (hrow : rows.get? name = some row) {c : Call Value} {a : Arguments}
    (ha : Arguments.ofCall ["self"] c = .ok a) :
    w.Calls (callValue (.ref row.made) c) ⟨name, .bool (flagOf voids rows name)⟩ a := by
  refine .constructor ?_ ha
  rw [h.constructors _ (Entries.mem_of_get? hrow), flagOf, hrow]
  rfl

/-- A registry that is called with what restates a node makes what is described by it. -/
theorem exists_create_restated (h : w.HasRegistry id voids rows) (hm : w.Restates n m)
    (hn : w.HasContents n c) (hc : w.Normal c) (hflag : c.isVoid = flagOf voids rows c.name) :
    ∃ (s : AttributeSet) (children : List Term), s.StandsFor children c ∧
      (perform id "create" ⟨[n.name, .ref m, n.content, n.children], []⟩).runIn w =
        (.ok (.ref (s.listenersAt w.objects.size + 3)), w.addAll (s.made w.objects.size
          (.text c.name) (.bool c.isVoid) c.content children)) := by
  obtain ⟨s, children, hdescribe, hstands⟩ := exists_describe_restated hm hn hc
  have hargs : Arguments.ofCall ["self"] ⟨[.ref m, n.content, n.children], []⟩ =
      .ok ⟨.ref m, n.content, n.children, []⟩ := Arguments.ofCall_full (List.forall_mem_nil _)
  have hcreate := runIn_perform_create h c.name
    (c := ⟨[.ref m, n.content, n.children], []⟩) (List.forall_mem_nil _)
  rw [constructNamed, hargs, runIn_bind_ok (runIn_ofExcept _ _), ← hflag] at hcreate
  refine ⟨s, children, hstands, ?_⟩
  rw [hn.name]
  exact hcreate.trans (runIn_construct hdescribe hc.named c.isVoid)

end World

/-! ## The main result -/

open World in
/--
A node can be made again of its own fields.  Let a registry be called for a node of a name, through
the constructor that it holds for the name or by the name itself, with any content, children and
keywords, and with a selector or a mapping that has texts for keys.  If a mapping restates the
fields of the node later, the registry makes a node of its name, this mapping, its content and its
children which is equal to the first one, and holds the same in the same order.
-/
theorem rebuilt_from_fields {w w₁ w₂ : World} {id i m : Nat} {voids : List String}
    {rows : Entries String Row} {name : String} {x : Operation Value} {a : Arguments}
    {n : Node Value} (h : w.HasRegistry id voids rows)
    (hx : w.Calls x ⟨name, .bool (flagOf voids rows name)⟩ a)
    (given : w.HasAll a.one ∧ w.HasAll a.two ∧ w.HasAll a.three)
    (hkeys : ∀ es, w.mappingGiven a = some es → ∀ e ∈ es, ∃ k, e.1 = .text k)
    (hrun : x.runIn w = (.ok (.ref i), w₁)) (hn : w₁.objects[i]? = some (.node n))
    (hkeep : w₁.Retains 0 w₂) (hm : w₂.Restates n m) :
    ∃ j w₃ n' c,
      (perform id "create" ⟨[n.name, .ref m, n.content, n.children], []⟩).runIn w₂ =
        (.ok (.ref j), w₃) ∧
      w₃.objects[i]? = some (.node n) ∧ w₃.objects[j]? = some (.node n') ∧
      w₃.HasContents n c ∧ w₃.HasContents n' c ∧
      (w₃.read (.ref i)).eq (w₃.read (.ref j)) = true := by
  obtain ⟨w₀, hext, hconstruct⟩ := hx.exists_construct hrun hn
  obtain ⟨c, hname, hflag, hholds, hnormal, hmade⟩ := exists_contents_of_construct
    ⟨given.1.extend hext, given.2.1.extend hext, given.2.2.extend hext⟩
    (by rwa [hext.mappingGiven_eq given.1.1 given.2.1.1]) hconstruct hn
  -- the registry is the same in the end, and so is the node
  have hregistry : w₂.HasRegistry id voids rows :=
    h.keep ((hext.trans hmade).changesOnly.trans hkeep)
  have hholds₂ := hholds.keep hkeep
  have hnormal₂ := hnormal.keep hkeep
  obtain ⟨s, children, hstands, hagain⟩ :=
    exists_create_restated hregistry hm hholds₂ hnormal₂ (hname ▸ hflag)
  have hlast : w₂.Retains 0 (w₂.addAll (s.made w₂.objects.size (.text c.name) (.bool c.isVoid)
      c.content children)) := AttributeSet.extends_made.changesOnly
  have hi := hlast.kept (Nat.zero_le i) (hkeep.kept (Nat.zero_le i) hn)
  have hfirst := hholds₂.keep hlast
  have hsecond := hstands.hasContents_made (w := w₂)
  exact ⟨_, _, _, c, hagain, hi, AttributeSet.get_node, hfirst, hsecond,
    hfirst.eq hsecond hi AttributeSet.get_node⟩

/-! ### A node with something in every field -/

/--
A registry with one name, a listener, and what can be given for attributes and for children: classes
and children that are no texts, an event with two listeners, and a text where an event could be.
-/
def World.withFields : World := .ofObjects #[.frozenSet [],
  .registry (ofRows 0 [("p", ⟨2, false⟩)]), .constructor ⟨.text "p", .bool false⟩,
  .listener (.text "f") none none [], .tuple [.ref 3, .ref 2], .tuple [.text "x", .int 1],
  .list [.int 1, .bool true, .ref 3, .text "t"],
  .map [(.text "class", .ref 5), (.text "onclick", .ref 4), (.text "onload", .text "go"),
    (.text "hidden", .bool true), (.text "lang", .none), (.text "value", .int 3)]]

/-- A call with these, and with keywords for a style and another event. -/
def argumentsOfFields : Arguments :=
  ⟨.ref 7, .int 5, .ref 6, [("style", .text "top:0;left:1"), ("onfocus", .ref 3)]⟩

/-- The world after the node was made. -/
def World.withNodeOfFields : World :=
  ((callValue (.ref 2) ⟨[.ref 7, .int 5, .ref 6], argumentsOfFields.kw⟩).runIn .withFields).2

/-- The node that was made. -/
def nodeOfFields : Node Value where
  name := .text "p"
  isVoid := .bool false
  id := .none
  classes := .ref 8
  style := .ref 9
  listeners := .ref 12
  attrs := .ref 13
  content := .text "5"
  children := .ref 14

/-- The plain attributes of the node. -/
def attrsOfFields : List (Value × Value) :=
  [(.text "onload", .text "go"), (.text "hidden", .bool true), (.text "lang", .none),
    (.text "value", .text "3")]

/-- The world after a mapping was made of the fields of the node. -/
def World.withRestatedFields : World := World.withNodeOfFields.add (.map
  (fieldEntries nodeOfFields [("click", .ref 10), ("focus", .ref 11)] attrsOfFields))

open World in
theorem rebuilt_from_fields_crowded :
    World.withNodeOfFields.objects[15]? = some (.node nodeOfFields) ∧ ∃ j w₃ n' c,
      (perform 1 "create" ⟨[nodeOfFields.name, .ref 16, nodeOfFields.content,
        nodeOfFields.children], []⟩).runIn .withRestatedFields = (.ok (.ref j), w₃) ∧
      w₃.objects[15]? = some (.node nodeOfFields) ∧ w₃.objects[j]? = some (.node n') ∧
      w₃.HasContents nodeOfFields c ∧ w₃.HasContents n' c ∧
      (w₃.read (.ref 15)).eq (w₃.read (.ref j)) = true := by
  have hholds : World.withFields.HasRegistry 1 [] [("p", ⟨2, false⟩)] :=
    ⟨⟨0, rfl, rfl⟩, by simp [World.withFields, World.ofObjects], by decide⟩
  have hrow : Entries.get? [("p", (⟨2, false⟩ : Row))] "p" = some ⟨2, false⟩ := rfl
  have hcalls := hholds.calls hrow (c := ⟨[.ref 7, .int 5, .ref 6], argumentsOfFields.kw⟩)
    (show _ = Except.ok argumentsOfFields from rfl)
  have hrun : (callValue (.ref 2) ⟨[.ref 7, .int 5, .ref 6], argumentsOfFields.kw⟩).runIn
      .withFields = (.ok (.ref 15), .withNodeOfFields) := runIn_of_fst (by decide +kernel)
  have hn : World.withNodeOfFields.objects[15]? = some (.node nodeOfFields) := by decide +kernel
  have hmapping : World.withFields.mappingGiven argumentsOfFields = some [(.text "class", .ref 5),
      (.text "onclick", .ref 4), (.text "onload", .text "go"), (.text "hidden", .bool true),
      (.text "lang", .none), (.text "value", .int 3)] := by decide +kernel
  have hm : World.withRestatedFields.Restates nodeOfFields 16 :=
    ⟨[("click", .ref 10), ("focus", .ref 11)], attrsOfFields, ⟨12, rfl, by decide +kernel⟩,
      ⟨13, rfl, by decide +kernel⟩, by decide, by decide +kernel⟩
  have hkeep : World.withNodeOfFields.Retains 0 .withRestatedFields := by
    rw [World.withRestatedFields]
    exact changesOnly_add
  refine ⟨hn, rebuilt_from_fields hholds hcalls ?_ (fun es hes => ?_) hrun hn hkeep hm⟩
  · have hbefore : ∀ i < 8, Value.Between 0 8 (.ref i) :=
      fun i hi => Value.between_ref (Nat.zero_le i) hi
    simp [HasAll, Has, sequence?, argumentsOfFields, World.withFields, World.ofObjects, hbefore]
  · rw [hmapping] at hes
    cases hes
    simp

end Markup
