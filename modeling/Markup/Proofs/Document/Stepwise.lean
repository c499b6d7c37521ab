import Markup.Proofs.Document.Following
import Markup.Proofs.Node.Frozen

/-!
# Materialising a tree field by field

A document that adds its calls to a list which others hold reads each field of a node when its turn
comes.  As long as the nodes, lists and maps of the tree stay what they are meanwhile, that comes to
the same: the calls of the tree are added and its elements are pushed.
-/

namespace Markup

open World

namespace Operation

variable {w w' : World}

/-- Going through a list that stays what it is does something with each item once. -/
theorem runIn_eachItem_list {act : Value → Operation Unit} {id : Nat} {vs : List Value}
    {us : List Unit} (h : w.objects[id]? = some (.list vs))
    (hrun : (vs.mapM act).runIn w = (.ok us, w')) (h' : w'.objects[id]? = some (.list vs)) :
    (eachItem act (.ref id)).runIn w = (.ok (), w') := by
  have hafter : ∀ us' w₁, (vs.mapM act).runIn w = (.ok us', w₁) →
      (itemsOf (.ref id)).runIn w₁ = (.ok vs, w₁) := by
    intro us' w₁ hrun'
    obtain rfl := congrArg Prod.snd (hrun.symm.trans hrun')
    exact runIn_itemsOf h'
  rw [runIn_eachItem (runIn_itemsOf h) hafter]
  exact runIn_discard hrun

/-- Setting attributes that are read one by one. -/
theorem runIn_setAttributesStepwise (host : Host Operation Value) (e : Value) {n : Node Value}
    {h : Head} (hn : w.HasFields n h) :
    (setAttributesStepwise host e n.attrs).runIn w =
      (host.setAll e h.attrSettings).runIn w := by
  obtain ⟨id, hread⟩ := hn.attrs.read_entries
  have hentries : (w.read n.attrs).entries =
      .ok (h.attrs.map fun a => (Term.text a.1, Term.atom a.2.toAtom)) := by
    rw [hread, Term.entries_map]
    simp [Function.comp_def]
  rw [setAttributesStepwise, runIn_bind_ok (runIn_read _ w), hentries,
    runIn_bind_ok (runIn_ofExcept _ w), ← Host.forM_setPlain_eq,
    List.forM_eq_forM, List.forM_map, List.forM_map]
  rfl

/-- Materialises a child that is read when its turn comes. -/
def materializeChildStepwise (document : Value) (host : Host Operation Value) (depth : Nat)
    (c : Value) : Operation Value := do
  match ← read c with
  | .text s => host.createTextNode (.text s)
  | .node .. => materializeStepwise document host depth c
  | t => fail (Html.invalidChild t)

/-- Sets the fields of a node on its element, each being read when its turn comes. -/
def setFieldsStepwise (host : Host Operation Value) (e v : Value) : Operation Unit := do
  setAttributesStepwise host e (← member v "attrs")
  host.setId e (← readMember v "id")
  host.setClasses e (← readMember v "class_list")
  host.setStyle e (← readMember v "style")
  host.addListeners e (← readMember v "listeners")

/-- The parts that set fields one after the other, before anything else. -/
theorem runIn_setFieldsStepwise_bind {α : Type} {host : Host Operation Value} {e v : Value}
    (hset : (setFieldsStepwise host e v).runIn w = (.ok (), w')) (k : Operation α) :
    (do
      setAttributesStepwise host e (← member v "attrs")
      host.setId e (← readMember v "id")
      host.setClasses e (← readMember v "class_list")
      host.setStyle e (← readMember v "style")
      host.addListeners e (← readMember v "listeners")
      k).runIn w = k.runIn w' := by
  have hrun : (setFieldsStepwise host e v >>= fun _ => k).runIn w = k.runIn w' :=
    runIn_bind_ok hset
  simpa only [setFieldsStepwise, bind_assoc] using hrun

/-- A child is materialised, then appended. -/
theorem appendChildStepwise_eq (document : Value) (host : Host Operation Value) (depth : Nat)
    (e c : Value) :
    (do
      let child ← match ← read c with
        | .text s => host.createTextNode (.text s)
        | .node .. => materializeStepwise document host depth c
        | t => fail (Html.invalidChild t)
      host.appendChild e child) =
      materializeChildStepwise document host depth c >>= fun child => host.appendChild e child := by
  rw [materializeChildStepwise, bind_assoc]
  congr 1
  funext t
  split <;> rfl

end Operation

/-- In every world on the way, the document and what it materialises can be read. -/
structure Reads (w₀ : World) (document : Value)
    (R : World → List DocumentCall → List (Value × ElementTree) → Prop) : Prop where
  keeps {w calls stack} : R w calls stack → w₀.Keeps w
  finds {w calls stack} : R w calls stack →
    ∃ found, (Operation.find document "create_element").runIn w = (.ok found, w)
  isElement {w calls stack e p children} : R w calls ((e, .element p children) :: stack) →
    ∃ id o, (Operation.objectOf e).runIn w = (.ok (some (id, .element o)), w)

namespace Host.Follows

open Operation

variable {host : Host Operation Value}
  {R : World → List DocumentCall → List (Value × ElementTree) → Prop} {sort : Value → Prop}
  {w₀ w : World} {document : Value} {calls : List DocumentCall}
  {stack : List (Value × ElementTree)}

/-- A part of a node is the same in every world on the way. -/
theorem runIn_member_of (hreads : Reads w₀ document R) {id : Nat} {n : Node Value}
    (hobject : w₀.objects[id]? = some (.node n)) {name : String} {part : Value}
    (hfind : (Object.node n).find .atom name = .ok (.part part)) (hR : R w calls stack) :
    (member (.ref id) name).runIn w = (.ok part, w) :=
  runIn_member ((hreads.keeps hR).node id n hobject) rfl hfind

theorem runIn_readMember_of (hreads : Reads w₀ document R) {id : Nat} {n : Node Value}
    (hobject : w₀.objects[id]? = some (.node n)) {name : String} {part : Value}
    (hfind : (Object.node n).find .atom name = .ok (.part part)) (hR : R w calls stack) :
    (readMember (.ref id) name).runIn w = (.ok (w.read part), w) := by
  rw [readMember, runIn_bind_ok (runIn_member_of hreads hobject hfind hR), runIn_read]

/-- An operation sets some settings of an element in every world on the way. -/
def Sets (host : Host Operation Value)
    (R : World → List DocumentCall → List (Value × ElementTree) → Prop) (e : Value)
    (x : Operation Unit) (settings : List Setting) : Prop :=
  ∀ ⦃w calls p stack⦄, R w calls ((e, .element p []) :: stack) →
    x.runIn w = (host.setAll e settings).runIn w

/-- What is set by one operation after the other. -/
theorem Sets.bind (F : host.Follows R sort) {e : Value} {x y : Operation Unit}
    {first later : List Setting} (hx : Sets host R e x first) (hy : Sets host R e y later)
    (hsort : ∀ s ∈ first, s.Hears sort) :
    Sets host R e (x >>= fun _ => y) (first ++ later) := by
  intro w calls p stack hR
  obtain ⟨w₁, hfirst, hR₁⟩ := F.setAll first hsort hR
  have hrun : x.runIn w = (.ok (), w₁) := (hx hR).trans hfirst
  rw [runIn_bind_ok hrun, Host.setAll_append, runIn_bind_ok hfirst]
  exact hy hR₁

/-- What is read when its turn comes sets what it shows then. -/
theorem sets_readMember (hreads : Reads w₀ document R) {id : Nat} {n : Node Value}
    (hobject : w₀.objects[id]? = some (.node n)) {name : String} {part e : Value}
    (hfind : (Object.node n).find .atom name = .ok (.part part)) {act : Term → Operation Unit}
    {settings : List Setting}
    (hact : ∀ ⦃w calls stack⦄, R w calls stack →
      act (w.read part) = host.setAll e settings) :
    Sets host R e (readMember (.ref id) name >>= act) settings := by
  intro w calls p stack hR
  rw [runIn_bind_ok (runIn_readMember_of hreads hobject hfind hR), hact hR]

/-- The fields of a node set all its settings, each being read when its turn comes. -/
theorem setFieldsStepwise (F : host.Follows R sort) (hreads : Reads w₀ document R) {id : Nat}
    {n : Node Value} {h : Head} (hobject : w₀.objects[id]? = some (.node n))
    (hfields : w₀.HasFields n h) (hsort : h.Hears sort) (e : Value) :
    Sets host R e (Operation.setFieldsStepwise host e (.ref id)) h.settings := by
  have hshows : ∀ ⦃w calls stack⦄, R w calls stack → (n.map w.read).Shows h := fun _ _ _ hR =>
    (hfields.keep (hreads.keeps hR)).shows
  have hs := Head.hears_settings hsort
  have hattrs : Sets host R e
      (member (.ref id) "attrs" >>= setAttributesStepwise host e) h.attrSettings := by
    intro w calls p stack hR
    rw [runIn_bind_ok (runIn_member_of hreads hobject rfl hR)]
    exact runIn_setAttributesStepwise host e (hfields.keep (hreads.keeps hR))
  have hid : Sets host R e (readMember (.ref id) "id" >>= host.setId e) h.idSetting :=
    sets_readMember hreads hobject rfl fun _ _ _ hR => Host.setId_eq host e (hshows hR)
  have hclasses : Sets host R e
      (readMember (.ref id) "class_list" >>= host.setClasses e) h.classSetting :=
    sets_readMember hreads hobject rfl fun _ _ _ hR => Host.setClasses_eq host e (hshows hR)
  have hstyle : Sets host R e (readMember (.ref id) "style" >>= host.setStyle e) h.styleSetting :=
    sets_readMember hreads hobject rfl fun _ _ _ hR => Host.setStyle_eq host e (hshows hR)
  have hlisteners : Sets host R e
      (readMember (.ref id) "listeners" >>= host.addListeners e) h.listenerSettings :=
    sets_readMember hreads hobject rfl fun _ _ _ hR =>
      Host.addListeners_eq host e (hshows hR).listeners
  have hfirst₄ : ∀ s ∈ h.attrSettings ++ h.idSetting ++ h.classSetting ++ h.styleSetting,
      s.Hears sort := fun s hmem => hs s (List.mem_append_left _ hmem)
  have hfirst₃ : ∀ s ∈ h.attrSettings ++ h.idSetting ++ h.classSetting, s.Hears sort :=
    fun s hmem => hfirst₄ s (List.mem_append_left _ hmem)
  have hfirst₂ : ∀ s ∈ h.attrSettings ++ h.idSetting, s.Hears sort :=
    fun s hmem => hfirst₃ s (List.mem_append_left _ hmem)
  have hfirst₁ : ∀ s ∈ h.attrSettings, s.Hears sort :=
    fun s hmem => hfirst₂ s (List.mem_append_left _ hmem)
  have hall := (((hattrs.bind F hid hfirst₁).bind F hclasses hfirst₂).bind F hstyle hfirst₃).bind F
    hlisteners hfirst₄
  simpa only [Operation.setFieldsStepwise, Head.settings, bind_assoc] using hall

/-- The head of a node, its fields being read one by one. -/
theorem materializeStepwise_head (F : host.Follows R sort) (depth : Nat)
    (hreads : Reads w₀ document R) {id : Nat} {n : Node Value} {h : Head} {children : List Tree}
    (hobject : w₀.objects[id]? = some (.node n)) (hfields : w₀.HasFields n h)
    (hsort : (Tree.node h children).Hears sort) (hR : R w calls stack) :
    ∃ e w', (materializeStepwise document host (depth + 1) (.ref id)).runIn w =
        ((do
          eachItem (fun c => do
            host.appendChild e (← materializeChildStepwise document host depth c)) n.children
          return e : Operation Value)).runIn w' ∧
      R w' (calls ++ (h.calls ++ h.contentCalls))
        ((e, .element h.parts h.contentElement) :: stack) := by
  obtain ⟨found, hfind⟩ := hreads.finds hR
  obtain ⟨e, w₁, isVoid, hcreate, hR₁⟩ := F.createElement h.name hR
  obtain ⟨ie, oe, helement⟩ := hreads.isElement hR₁
  obtain ⟨w₂, hvoid, hR₂⟩ := F.keepVoid h.isVoid hR₁
  have hnew : R w₂ _ ((e, .element (.new h.name h.isVoid) []) :: stack) := hR₂
  obtain ⟨w₃, hset, hR₃⟩ := F.setAll h.settings (Head.hears_settings hsort.head) hnew
  obtain ⟨w₄, hcontent, hR₄⟩ := F.addContent hR₃
  refine ⟨e, w₄, ?_, by simpa [Head.calls] using hR₄⟩
  have hset' : (Operation.setFieldsStepwise host e (.ref id)).runIn w₂ = (.ok (), w₃) :=
    (F.setFieldsStepwise hreads hobject hfields hsort.head e hnew).trans hset
  have hcontent' : (host.addContent e (w₃.read n.content)).runIn w₃ = (.ok (), w₄) := by
    rw [← hcontent, ← ((hfields.keep (hreads.keeps hR₃)).shows).content]
    rfl
  rw [materializeStepwise]
  refine (runIn_bind_ok (runIn_discard hfind)).trans ?_
  refine (runIn_bind_ok (runIn_member_of hreads hobject rfl hR)).trans ?_
  rw [hfields.name, runIn_bind_ok hcreate]
  refine (runIn_bind_ok helement).trans ?_
  refine (runIn_bind_ok (runIn_member_of hreads hobject rfl hR₁)).trans ?_
  rw [hfields.isVoid, runIn_bind_ok hvoid]
  refine (runIn_setFieldsStepwise_bind hset' _).trans ?_
  refine (runIn_bind_ok (runIn_readMember_of hreads hobject rfl hR₃)).trans ?_
  rw [runIn_bind_ok hcontent']
  refine (runIn_bind_ok (runIn_member_of hreads hobject rfl hR₄)).trans ?_
  exact congrArg (fun act => (eachItem act n.children >>= fun _ => pure e : Operation Value).runIn
    w₄) (funext (appendChildStepwise_eq document host depth e))

/-- A child that is read field by field adds the calls of its tree and is pushed as its element. -/
theorem materializeChildStepwise (F : host.Follows R sort) (hreads : Reads w₀ document R)
    {v : Value} {tree : Tree} {depth : Nat} (hv : w₀.Shows v tree) (hsort : tree.Hears sort)
    (hdepth : tree.height ≤ depth) :
    Makes R (Operation.materializeChildStepwise document host depth v) tree := by
  intro w calls stack hR
  induction tree generalizing v w calls stack depth with
  | text s =>
    cases hv
    exact F.createTextNode s hR
  | node h children ih =>
    cases hv with
    | @node id n _ vs _ hobject hfields hholder hbelow =>
      cases depth with
      | zero => simp [Tree.height] at hdepth
      | succ depth =>
        obtain ⟨list, hlist, hitems⟩ := hholder
        obtain ⟨e, w₁, hhead, hR₁⟩ :=
          F.materializeStepwise_head depth hreads hobject hfields hsort hR
        have hchildren : Tree.heightOf children ≤ depth := by
          rw [Tree.height] at hdepth
          omega
        have hmake : List.Forall₂ (fun v c => Makes R
            (Operation.materializeChildStepwise document host depth v) c) vs children :=
          forall₂_imp_of_mem hbelow fun c hc v hshows =>
            ih c hc hshows (hsort.below c hc)
              (Nat.le_trans (Tree.height_le_heightOf hc) hchildren)
        obtain ⟨us, w₂, hrun, hR₂⟩ := F.appendEach hmake hR₁
        refine ⟨e, w₂, ?_, by simpa [Tree.calls, Tree.element] using hR₂⟩
        have heach := runIn_eachItem_list ((hreads.keeps hR₁).list list vs hitems) hrun
          ((hreads.keeps hR₂).list list vs hitems)
        have hread : w.read (.ref id) = .node id _ := read_ref ((hreads.keeps hR).node id n hobject)
        rw [Operation.materializeChildStepwise, runIn_bind_ok (runIn_read _ w), hread]
        refine hhead.trans ?_
        rw [hlist, runIn_bind_ok heach]
        rfl

end Host.Follows

end Markup
