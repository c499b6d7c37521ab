import Markup.Proofs.Construction.Objects
import Markup.Proofs.Document.OnPage
import Markup.Proofs.Document.Parts

/-!
# Acting on one page

What is materialised with a document over a page is done on that page (`World.ActsOn`), however the
browser answers as long as it is faithful.  Every new node is asked of this page, every other
request is about nodes that this page made, and no other document over a page comes into being.
Nothing that was there is changed.  Where nodes are appended to a parent, the browser is also asked
to append nodes of the page to the parent, whatever that is.

This holds for any value: a tree of nodes or not, valid or not, whether the work comes to an end or
fails on the way (`Operation.raises_materializeWith`, `Operation.acts_appendList`).
-/

namespace Markup

open Operation

/-- Anything but a document over a page. -/
def Object.OverNoPage : Object Value → Prop
  | .browserDocument .. => False
  | _ => True

theorem AttributeSet.overNoPage_of_mem_cells {n : Nat} {s : AttributeSet} {children : List Term}
    {o : Object Value} (h : o ∈ s.cells n children) : o.OverNoPage := by
  rw [cells, List.mem_cons, List.mem_append, List.mem_append, List.mem_map] at h
  rcases h with rfl | hstyle | ⟨row, -, rfl⟩ | hlast
  · trivial
  · cases hs : s.style with
    | none =>
      rw [hs, Style.objects] at hstyle
      cases hstyle
    | some style =>
      rw [hs, Style.objects, List.mem_singleton] at hstyle
      subst hstyle
      trivial
  · trivial
  · rw [List.mem_cons, List.mem_cons, List.mem_singleton] at hlast
    rcases hlast with rfl | rfl | rfl <;> trivial

namespace World

/-- A value is a node that a page has made. -/
structure HasPageNode (w : World) (p : Nat) (v : Value) : Prop where
  known : ∃ label, KnownNode p w.journal label v
  foreign : ∃ i typeName, v = .ref i ∧ w.objects[i]? = some (.foreign typeName)

/-- A document over a page, and its page. -/
structure HasPageDocument (w : World) (d p : Nat) : Prop where
  document : w.objects[d]? = some (.browserDocument (.ref p) [])
  page : ∃ typeName, w.objects[p]? = some (.foreign typeName)

/--
What a browser is asked for a page: new nodes of this page and proxies, and what is about nodes that
it made.  Nodes of it may also be appended to one target that can be anything.
-/
def Concerned (w : World) (p : Nat) (target : Option Value) : PageRequest → Prop
  | .createElement page _ | .createTextNode page _ => page = .ref p
  | .setAttribute node .. | .setProperty node .. | .addEventListener node .. => w.HasPageNode p node
  | .createProxy _ => True
  | .appendChild parent child =>
    (w.HasPageNode p parent ∨ target = some parent) ∧ w.HasPageNode p child

/--
Something was done on a page: what can be found from anywhere and every object that there was stay
the same, no document over a page is new, and all that the browser was asked is about the page.
-/
structure ActsOn (p : Nat) (target : Option Value) (w w' : World) : Prop where
  page : w'.page = w.page
  proxies : w'.proxies = w.proxies
  ambient : w'.ambient = w.ambient
  browser : w'.browser = w.browser
  size_le : w.objects.size ≤ w'.objects.size
  kept : ∀ {i : Nat} {o : Object Value}, w.objects[i]? = some o → w'.objects[i]? = some o
  made : ∀ {i : Nat} {o : Object Value}, w.objects.size ≤ i → w'.objects[i]? = some o → o.OverNoPage
  journal : ∃ seen, w'.journal = w.journal ++ seen ∧
    ∀ x ∈ seen, w'.Concerned p target x.request

variable {w w₁ w' : World} {d p q : Nat} {target : Option Value} {v : Value} {r : PageRequest}

/-- The journal of a page only grows, so a node that it made stays one. -/
theorem HasPageNode.mono (h : w.HasPageNode q v) {seen : List Exchange}
    (hjournal : w'.journal = w.journal ++ seen)
    (hkept : ∀ {i : Nat} {o : Object Value}, w.objects[i]? = some o → w'.objects[i]? = some o) :
    w'.HasPageNode q v := by
  obtain ⟨⟨label, hlabel⟩, i, typeName, rfl, hi⟩ := h
  refine ⟨⟨label, ?_⟩, i, typeName, rfl, hkept hi⟩
  rw [hjournal]
  exact hlabel.append seen

theorem HasPageNode.later (h : w.HasPageNode q v) (hacts : w.ActsOn p target w') :
    w'.HasPageNode q v := by
  obtain ⟨seen, hjournal, -⟩ := hacts.journal
  exact h.mono hjournal hacts.kept

theorem Concerned.mono (h : w.Concerned p target r)
    (hnode : ∀ v, w.HasPageNode p v → w'.HasPageNode p v) : w'.Concerned p target r := by
  cases r with
  | createElement page name => exact h
  | createTextNode page text => exact h
  | setAttribute node key value => exact hnode _ h
  | setProperty node property value => exact hnode _ h
  | createProxy listener => trivial
  | addEventListener node event proxy => exact hnode _ h
  | appendChild parent child => exact ⟨h.1.imp_left (hnode parent), hnode child h.2⟩

theorem ActsOn.refl (p : Nat) (target : Option Value) (w : World) : w.ActsOn p target w where
  page := rfl
  proxies := rfl
  ambient := rfl
  browser := rfl
  size_le := Nat.le_refl _
  kept := id
  made hi ho := by
    rw [getElem?_of_size_le hi] at ho
    cases ho
  journal := ⟨[], by simp, by simp⟩

theorem ActsOn.trans (h : w.ActsOn p target w₁) (h' : w₁.ActsOn p target w') :
    w.ActsOn p target w' where
  page := h'.page.trans h.page
  proxies := h'.proxies.trans h.proxies
  ambient := h'.ambient.trans h.ambient
  browser := h'.browser.trans h.browser
  size_le := Nat.le_trans h.size_le h'.size_le
  kept ho := h'.kept (h.kept ho)
  made {i o} hi ho := by
    by_cases hlt : i < w₁.objects.size
    · obtain ⟨o₁, ho₁⟩ := exists_of_lt_size hlt
      have hsame := (h'.kept ho₁).symm.trans ho
      rw [← Option.some.inj hsame]
      exact h.made hi ho₁
    · exact h'.made (Nat.le_of_not_lt hlt) ho
  journal := by
    obtain ⟨seen, hjournal, hseen⟩ := h.journal
    obtain ⟨more, hjournal', hmore⟩ := h'.journal
    refine ⟨seen ++ more, by rw [hjournal', hjournal, List.append_assoc], ?_⟩
    intro x hx
    rcases List.mem_append.mp hx with hold | hnew
    · exact (hseen x hold).mono fun v hv => hv.later h'
    · exact hmore x hnew

/-- Objects are made, none of which is a document over a page. -/
theorem actsOn_addAll {os : List (Object Value)} (h : ∀ o ∈ os, o.OverNoPage) :
    w.ActsOn p target (w.addAll os) where
  page := rfl
  proxies := rfl
  ambient := rfl
  browser := rfl
  size_le := by simp
  kept ho := (get_addAll_old (lt_size ho)).trans ho
  made hi ho := by
    rw [get_addAll_of_size_le hi] at ho
    exact h _ (List.mem_of_getElem? ho)
  journal := ⟨[], (List.append_nil _).symm, by simp⟩

/-- A faithful browser is asked for something about the page. -/
theorem actsOn_asked (hfaithful : w.browser.Faithful) (hr : w.Concerned p target r) :
    w.ActsOn p target (w.asked r) := by
  have hasked := (Asked.refl w).ask hfaithful r
  obtain ⟨types, htypes⟩ := hasked.made
  have hsize : w.objects.size ≤ (w.asked r).objects.size := by
    rw [htypes, Array.size_append]
    exact Nat.le_add_right _ _
  refine ⟨rfl, rfl, rfl, rfl, hsize, hasked.kept, fun hi ho => ?_, _, hasked.journal, ?_⟩
  · obtain ⟨typeName, hforeign⟩ := hasked.exists_foreign hi (lt_size ho)
    rw [← Option.some.inj (hforeign.symm.trans ho)]
    trivial
  · intro x hx
    rw [List.nil_append, List.mem_singleton] at hx
    subst hx
    exact hr.mono fun v hv => hv.mono hasked.journal hasked.kept

/-- A node that the page has just made is one of its nodes. -/
theorem hasPageNode_asked (hfaithful : w.browser.Faithful) {label : Value}
    (hmakes : Exchange.Makes p ⟨r, w.reply r⟩ label v) : (w.asked r).HasPageNode p v := by
  have hasked := (Asked.refl w).ask hfaithful r
  have hknown : KnownNode p ([] ++ [⟨r, w.reply r⟩]) label v := ⟨_, List.mem_concat_self, hmakes⟩
  refine ⟨⟨label, hknown.mono ?_⟩, hasked.foreign_of_known hknown⟩
  rw [hasked.journal]
  exact List.subset_append_right _ _

theorem HasPageDocument.later (h : w.HasPageDocument d p) (hacts : w.ActsOn q target w') :
    w'.HasPageDocument d p :=
  ⟨hacts.kept h.document, h.page.imp fun _ hpage => hacts.kept hpage⟩

end World

namespace Operation

open World

variable {α β : Type} {w w' : World} {d p : Nat} {target : Option Value} {C : World → Prop}
  {v : Value}

/-! ## Operations that act on one page -/

/-- Wherever a condition is true, an operation acts on a page. -/
def Acts (p : Nat) (target : Option Value) (C : World → Prop) (x : Operation α) : Prop :=
  ∀ ⦃w⦄, C w → w.ActsOn p target (x.runIn w).2

/-- Acting on a page does not make a condition false, and it is about faithful browsers only. -/
structure Outlasts (p : Nat) (target : Option Value) (C : World → Prop) : Prop where
  faithful : ∀ ⦃w⦄, C w → w.browser.Faithful
  later : ∀ ⦃w w'⦄, C w → w.ActsOn p target w' → C w'

theorem Outlasts.and_hasPageNode (hC : Outlasts p target C) (q : Nat) (v : Value) :
    Outlasts p target fun w => C w ∧ w.HasPageNode q v where
  faithful _ h := hC.faithful h.1
  later _ _ h hacts := ⟨hC.later h.1 hacts, h.2.later hacts⟩

theorem closed_acts (hC : Outlasts p target C) : Closed fun _ x => Acts p target C x :=
  closed_moves (R := fun w w' => C w → w.ActsOn p target w') (fun w _ => .refl p target w)
    fun _ _ _ h h' hw => (h hw).trans (h' (hC.later hw (h hw)))

/-- In each world, an operation may run like another one. -/
theorem acts_of_runIn {x : Operation α}
    (h : ∀ w, C w → ∃ y, Acts p target C y ∧ x.runIn w = y.runIn w) : Acts p target C x := by
  intro w hw
  obtain ⟨y, hy, heq⟩ := h w hw
  rw [heq]
  exact hy hw

theorem acts_make {o : Object Value} (h : o.OverNoPage) : Acts p target C (make o) := by
  intro w _
  rw [runIn_make', add_eq_addAll]
  exact actsOn_addAll (by simpa using h)

theorem acts_hear (name : Value) (args : List Value) : Acts p target C (hear name args) :=
  fun w _ => { ActsOn.refl p target w with
    journal := ⟨[], (List.append_nil _).symm, by simp⟩ }

/-- A browser that is asked for something about the page acts on it. -/
theorem acts_askBrowser (hC : Outlasts p target C) {r : PageRequest}
    (hr : ∀ w, C w → w.Concerned p target r) : Acts p target C (askBrowser r) := by
  intro w hw
  rw [runIn_askBrowser]
  exact actsOn_asked (hC.faithful hw) (hr w hw)

/-! ## Asking values -/

section Asking

variable (hC : Outlasts p target C)

include hC

theorem acts_find (v : Value) {name : String} (hname : name ∉ madeMembers) :
    Acts p target C (find v name) :=
  (closed_acts hC).find (fun _ => acts_make trivial) v hname

theorem acts_member (v : Value) {name : String} (hname : name ∉ madeMembers) :
    Acts p target C (member v name) :=
  (closed_acts hC).member (fun _ => acts_make trivial) (fun _ => acts_make trivial) v hname

theorem acts_readMember (v : Value) {name : String} (hname : name ∉ madeMembers) :
    Acts p target C (readMember v name) :=
  (closed_acts hC).bind (acts_member hC v hname) fun _ => (closed_acts hC).read _

omit hC in
/-- None of the objects of a new node is a document over a page. -/
theorem acts_makeNodeWith (name isVoid : Value) (s : AttributeSet) (content : String)
    (children : List Term) : Acts p target C (makeNodeWith name isVoid s content children) := by
  intro w _
  rcases cases_makeNodeWith name isVoid s content children w with ⟨f, hrun⟩ | ⟨flag, hrun⟩
  · rw [hrun]
    exact actsOn_addAll fun o ho => AttributeSet.overNoPage_of_mem_cells ho
  · rw [hrun]
    apply actsOn_addAll
    intro o ho
    rw [AttributeSet.made, List.mem_append, List.mem_singleton] at ho
    rcases ho with ho | rfl
    · exact AttributeSet.overNoPage_of_mem_cells ho
    · trivial

/-- Whatever is asked of a value, what is done acts on the page if its skill does. -/
theorem acts_request (v : Value) {name : String} (hname : name ∉ madeMembers) (c : Call Value)
    {skill : Operation Value} (hskill : Acts p target C skill) :
    Acts p target C (request v name c skill) :=
  (closed_acts hC).request acts_hear (fun _ _ => acts_make trivial) acts_makeNodeWith
    (fun _ => acts_make trivial) v hname c hskill

end Asking

/-! ## What is made on the page -/

/-- Besides, what an operation answers is a node of the page. -/
def Raises (p : Nat) (target : Option Value) (C : World → Prop) (x : Operation Value) : Prop :=
  Acts p target C x ∧ ∀ ⦃w w' v⦄, C w → x.runIn w = (.ok v, w') → w'.HasPageNode p v

/-- Besides, an operation answers nothing else than one value. -/
def Finishes (p : Nat) (target : Option Value) (C : World → Prop) (e : Value)
    (x : Operation Value) : Prop :=
  Acts p target C x ∧ ∀ ⦃w w' v⦄, x.runIn w = (.ok v, w') → v = e

theorem Finishes.bind (hC : Outlasts p target C) {e : Value} {x : Operation α}
    {k : α → Operation Value} (hx : Acts p target C x) (hk : ∀ a, Finishes p target C e (k a)) :
    Finishes p target C e (x >>= k) := by
  refine ⟨(closed_acts hC).bind hx fun a => (hk a).1, ?_⟩
  intro w w' v hrun
  obtain ⟨a, w₁, -, hrest⟩ := ok_of_runIn_bind hrun
  exact (hk a).2 hrest

theorem finishes_done (hC : Outlasts p target C) (e : Value) :
    Finishes p target C e (pure e) := by
  refine ⟨(closed_acts hC).done e, ?_⟩
  intro w w' v hrun
  cases hrun
  rfl

/-- What is made is a node of the page, and then something is done with it. -/
theorem Raises.acts_bind (hC : Outlasts p target C) {x : Operation Value} {k : Value → Operation α}
    (hx : Raises p target C x)
    (hk : ∀ e, Acts p target (fun w => C w ∧ w.HasPageNode p e) (k e)) :
    Acts p target C (x >>= k) := by
  intro w hw
  have hfirst := hx.1 hw
  rw [runIn_bind]
  rcases hrun : x.runIn w with ⟨r, w₁⟩
  rw [hrun] at hfirst
  cases r with
  | error f => exact hfirst
  | ok e => exact hfirst.trans (hk e ⟨hC.later hw hfirst, hx.2 hw hrun⟩)

/-- What is made is a node of the page, and then it is set up. -/
theorem Raises.bind (hC : Outlasts p target C) {x : Operation Value} {k : Value → Operation Value}
    (hx : Raises p target C x)
    (hk : ∀ e, Finishes p target (fun w => C w ∧ w.HasPageNode p e) e (k e)) :
    Raises p target C (x >>= k) := by
  refine ⟨hx.acts_bind hC fun e => (hk e).1, ?_⟩
  intro w w' v hw hrun
  obtain ⟨e, w₁, hfirst, hrest⟩ := ok_of_runIn_bind hrun
  have hacts := hx.1 hw
  rw [hfirst] at hacts
  have hnode := hx.2 hw hfirst
  have hlater := (hk e).1 ⟨hC.later hw hacts, hnode⟩
  rw [hrest] at hlater
  rw [(hk e).2 hrest]
  exact hnode.later hlater

theorem raises_failed (hC : Outlasts p target C) (f : Fault) : Raises p target C (throw f) :=
  ⟨(closed_acts hC).failed f, fun _ _ _ _ hrun => nomatch hrun⟩

/-- First something acts on the page, then a node of it is made. -/
theorem Raises.after (hC : Outlasts p target C) {x : Operation α} {k : α → Operation Value}
    (hx : Acts p target C x) (hk : ∀ a, Raises p target C (k a)) : Raises p target C (x >>= k) := by
  refine ⟨(closed_acts hC).bind hx fun a => (hk a).1, ?_⟩
  intro w w' v hw hrun
  obtain ⟨a, w₁, hfirst, hrest⟩ := ok_of_runIn_bind hrun
  have hacts := hx hw
  rw [hfirst] at hacts
  exact (hk a).2 (hC.later hw hacts) hrest

theorem raises_of_runIn {x : Operation Value}
    (h : ∀ w, C w → ∃ y, Raises p target C y ∧ x.runIn w = y.runIn w) : Raises p target C x := by
  constructor
  · apply acts_of_runIn
    intro w hw
    obtain ⟨y, hy, heq⟩ := h w hw
    exact ⟨y, hy.1, heq⟩
  · intro w w' v hw hrun
    obtain ⟨y, hy, heq⟩ := h w hw
    exact hy.2 hw (heq.symm.trans hrun)

/-- A browser that is asked for a new node of the page makes one, or refuses. -/
theorem raises_askBrowser (hC : Outlasts p target C) {r : PageRequest} {label : Value}
    (hr : ∀ w, C w → w.Concerned p target r)
    (hmakes : ∀ v, Exchange.Makes p ⟨r, .ok v⟩ label v) : Raises p target C (askBrowser r) := by
  refine ⟨acts_askBrowser hC hr, ?_⟩
  intro w w' v hw hrun
  rw [runIn_askBrowser, Prod.mk.injEq] at hrun
  obtain ⟨hreply, rfl⟩ := hrun
  have hnew : Exchange.Makes p ⟨r, w.reply r⟩ label v := by
    rw [hreply]
    exact hmakes v
  exact hasPageNode_asked (hC.faithful hw) hnew

/-! ## The capabilities of a document over a page -/

section Page

variable (hC : Outlasts p target C) (hdoc : ∀ w, C w → w.HasPageDocument d p)

include hC hdoc

theorem raises_createElement (name : Value) :
    Raises p target C ((pageHost (.ref d)).createElement name) := by
  have hasked : Raises p target C (askBrowser (.createElement (.ref p) name)) :=
    raises_askBrowser hC (fun _ _ => rfl) (.element name)
  apply raises_of_runIn
  intro w hw
  refine ⟨_, hasked, ?_⟩
  obtain ⟨typeName, hpage⟩ := (hdoc w hw).page
  exact runIn_askPageElement (hdoc w hw).document hpage name

theorem raises_createTextNode (text : Value) :
    Raises p target C ((pageHost (.ref d)).createTextNode text) := by
  have hasked : Raises p target C (askBrowser (.createTextNode (.ref p) text)) :=
    raises_askBrowser hC (fun _ _ => rfl) (.text text)
  apply raises_of_runIn
  intro w hw
  refine ⟨_, hasked, ?_⟩
  obtain ⟨typeName, hpage⟩ := (hdoc w hw).page
  exact runIn_askPageText (hdoc w hw).document hpage text

end Page

section Own

variable {e : Value} (hC : Outlasts p target C) (he : ∀ w, C w → w.HasPageNode p e)

include hC he

theorem acts_setPageAttribute (key value : Value) :
    Acts p target C (setPageAttribute e key value) := by
  apply (closed_acts hC).discard
  apply acts_request hC e (by decide)
  exact acts_askBrowser hC he

theorem acts_setPageProperty (property : ElementProperty) (value : Value) :
    Acts p target C (setMember e property.name value) := by
  have hasked : Acts p target C (askBrowser (.setProperty e property value)) :=
    acts_askBrowser hC he
  apply acts_of_runIn
  intro w hw
  refine ⟨_, (closed_acts hC).discard hasked, ?_⟩
  obtain ⟨i, typeName, rfl, hi⟩ := (he w hw).foreign
  exact runIn_setMember_foreign hi property value

/-- No void flag is noted on a node of a page. -/
theorem acts_keepVoid (value : Value) : Acts p target C (keepVoidIfElement e value) := by
  apply acts_of_runIn
  intro w hw
  refine ⟨_, (closed_acts hC).done (), ?_⟩
  obtain ⟨i, typeName, rfl, hi⟩ := (he w hw).foreign
  exact runIn_keepVoidIfElement_foreign hi value

theorem acts_addPageListener (event listener : Value) :
    Acts p target C (addPageListener e event listener) := by
  have hP := closed_acts hC
  have hunless : ∀ (b : Bool) (rest : Unit → Operation Unit), Acts p target C (rest ()) →
      Acts p target C (if b = true then rest () else fail .noProxies >>= rest) := by
    intro b rest hrest
    split
    · exact hrest
    · exact hP.bind (hP.failed _) fun _ => hrest
  refine hP.bind hP.looked fun w => hunless w.proxies _ ?_
  refine hP.bind (hP.discard (acts_find hC e (by decide))) fun _ => ?_
  refine hP.bind (acts_askBrowser hC fun _ _ => trivial) fun proxy => ?_
  apply hP.discard
  apply acts_request hC e (by decide)
  exact acts_askBrowser hC he

end Own

/-- A node of the page is appended to one of its nodes or to the target. -/
theorem acts_appendToPageNode (hC : Outlasts p target C) {parent child : Value}
    (hparent : ∀ w, C w → w.HasPageNode p parent ∨ target = some parent)
    (hchild : ∀ w, C w → w.HasPageNode p child) :
    Acts p target C (appendToPageNode parent child) := by
  apply (closed_acts hC).discard
  apply acts_request hC parent (by decide)
  exact acts_askBrowser hC fun w hw => ⟨hparent w hw, hchild w hw⟩

/-- What is made on the page is appended to a node of it or to the target. -/
theorem Raises.acts_append (hC : Outlasts p target C) {parent : Value}
    (hparent : ∀ w, C w → w.HasPageNode p parent ∨ target = some parent) {x : Operation Value}
    (hx : Raises p target C x) : Acts p target C (x >>= appendToPageNode parent) :=
  hx.acts_bind hC fun child => acts_appendToPageNode (hC.and_hasPageNode p child)
    (fun w hw => hparent w hw.1) fun _ hw => hw.2

theorem Raises.acts_appendBelow (hC : Outlasts p target C) {e : Value}
    (he : ∀ w, C w → w.HasPageNode p e) {x : Operation Value} (hx : Raises p target C x) :
    Acts p target C (x >>= appendToPageNode e) :=
  hx.acts_append hC fun w hw => .inl (he w hw)

mutual

/-- A node becomes a page node, and whatever is below it is made and appended on the same page. -/
theorem raises_materializeNode {d p : Nat} {target : Option Value} {C : World → Prop}
    (hC : Outlasts p target C) (hdoc : ∀ w, C w → w.HasPageDocument d p) :
    ∀ n : Node Term, Raises p target C ((pageHost (.ref d)).materializeNode n)
  | ⟨name, isVoid, id, classes, style, listeners, attrs, content, children⟩ => by
    rw [Host.materializeNode]
    refine (raises_createElement hC hdoc _).bind hC fun e => ?_
    have hC' := hC.and_hasPageNode p e
    have hown : ∀ w, C w ∧ w.HasPageNode p e → w.HasPageNode p e := fun w hw => hw.2
    have hdoc' : ∀ w, C w ∧ w.HasPageNode p e → w.HasPageDocument d p := fun w hw => hdoc w hw.1
    have hP := closed_acts hC'
    have happendText := fun text =>
      (raises_createTextNode hC' hdoc' text).acts_appendBelow hC' hown
    refine .bind hC' (acts_keepVoid hC' hown _) fun _ => ?_
    refine .bind hC' (hP.setAttributes (acts_setPageAttribute hC' hown) attrs) fun _ => ?_
    refine .bind hC' (hP.setId (acts_setPageProperty hC' hown) id) fun _ => ?_
    refine .bind hC' (hP.setClasses (acts_setPageProperty hC' hown) classes) fun _ => ?_
    refine .bind hC' (hP.setStyle (acts_setPageAttribute hC' hown) style) fun _ => ?_
    refine .bind hC' (hP.addListeners (acts_addPageListener hC' hown) listeners) fun _ => ?_
    refine .bind hC' (hP.addContent happendText content) fun _ => ?_
    refine .bind hC' (acts_appendChildren hC' hdoc' hown children) fun _ => ?_
    exact finishes_done hC' e

theorem acts_appendChildren {d p : Nat} {target : Option Value} {C : World → Prop}
    {e : Value} (hC : Outlasts p target C) (hdoc : ∀ w, C w → w.HasPageDocument d p)
    (he : ∀ w, C w → w.HasPageNode p e) (t : Term) :
    Acts p target C ((pageHost (.ref d)).appendChildren e t) := by
  rw [Host.appendChildren.eq_def]
  split
  · next id items =>
    exact acts_appendItems hC hdoc he items
  · next id items =>
    exact acts_appendItems hC hdoc he items
  · cases t.leaves? with
    | none => exact (closed_acts hC).failed _
    | some ts =>
      exact (closed_acts hC).appendLeaves
        (fun text => (raises_createTextNode hC hdoc text).acts_appendBelow hC he) ts

theorem acts_appendItems {d p : Nat} {target : Option Value} {C : World → Prop}
    {e : Value} (hC : Outlasts p target C) (hdoc : ∀ w, C w → w.HasPageDocument d p)
    (he : ∀ w, C w → w.HasPageNode p e) :
    ∀ ts : List Term, Acts p target C ((pageHost (.ref d)).appendItems e ts)
  | [] => by
    rw [Host.appendItems]
    exact (closed_acts hC).done ()
  | t :: ts => by
    rw [Host.appendItems]
    rw [← bind_assoc]
    refine (closed_acts hC).bind ?_ fun _ => acts_appendItems hC hdoc he ts
    exact (raises_materializeChild hC hdoc t).acts_appendBelow hC he

theorem raises_materializeChild {d p : Nat} {target : Option Value} {C : World → Prop}
    (hC : Outlasts p target C) (hdoc : ∀ w, C w → w.HasPageDocument d p) (t : Term) :
    Raises p target C ((pageHost (.ref d)).materializeChild t) := by
  rw [Host.materializeChild.eq_def]
  split
  · exact raises_createTextNode hC hdoc _
  · next id n =>
    exact raises_materializeNode hC hdoc n
  · exact raises_failed hC _

end

section Stepwise

variable (hC : Outlasts p target C) (hdoc : ∀ w, C w → w.HasPageDocument d p)

include hC hdoc

omit hdoc in
/-- A member is read, something is done with it, and the rest finishes. -/
theorem finishes_readMember {e v : Value} {name : String} (hname : name ∉ madeMembers)
    {act : Term → Operation Unit} (hact : ∀ t, Acts p target C (act t)) {rest : Operation Value}
    (hrest : Finishes p target C e rest) :
    Finishes p target C e (readMember v name >>= fun t => act t >>= fun _ => rest) :=
  .bind hC (acts_readMember hC v hname) fun t => .bind hC (hact t) fun _ => hrest

/-- A value that is read step by step becomes a page node as well, as far as it has the members. -/
theorem raises_materializeStepwise (depth : Nat) (v : Value) :
    Raises p target C (materializeStepwise (.ref d) (pageHost (.ref d)) depth v) := by
  induction depth generalizing C v with
  | zero => exact raises_failed hC _
  | succ depth ih =>
    have hP := closed_acts hC
    rw [materializeStepwise]
    refine .after hC (hP.discard (acts_find hC _ (by decide))) fun _ => ?_
    refine .after hC (acts_member hC v (by decide)) fun name => ?_
    refine (raises_createElement hC hdoc name).bind hC fun e => ?_
    have hC' := hC.and_hasPageNode p e
    have hP' := closed_acts hC'
    have hown : ∀ w, C w ∧ w.HasPageNode p e → w.HasPageNode p e := fun w hw => hw.2
    have hdoc' : ∀ w, C w ∧ w.HasPageNode p e → w.HasPageDocument d p := fun w hw => hdoc w hw.1
    have hset := acts_setPageAttribute hC' hown
    have hassign := acts_setPageProperty hC' hown
    have hadd := acts_addPageListener hC' hown
    refine .bind hC' (hP'.objectOf e) fun found => ?_
    split
    -- whether a void flag is noted or not, what comes after it is the same
    on_goal 1 =>
      refine .bind hC' (acts_member hC' v (by decide)) fun flag =>
        .bind hC' (acts_keepVoid hC' hown flag) fun _ => ?_
    all_goals
      refine .bind hC' (acts_member hC' v (by decide)) fun attrs => ?_
      refine .bind hC' (hP'.setAttributesStepwise hset attrs) fun _ => ?_
      refine finishes_readMember hC' (by decide) (hP'.setId hassign) ?_
      refine finishes_readMember hC' (by decide) (hP'.setClasses hassign) ?_
      refine finishes_readMember hC' (by decide) (hP'.setStyle hset) ?_
      refine finishes_readMember hC' (by decide) (hP'.addListeners hadd) ?_
      refine finishes_readMember hC' (by decide)
        (hP'.addContent fun text =>
          (raises_createTextNode hC' hdoc' text).acts_appendBelow hC' hown) ?_
      refine .bind hC' (acts_member hC' v (by decide)) fun children => ?_
      refine .bind hC' (hP'.discard (hP'.answersOf (fun c => ?_) children)) fun _ =>
        finishes_done hC' e
      refine hP'.bind (hP'.read c) fun t => ?_
      split
      · exact (raises_createTextNode hC' hdoc' _).acts_appendBelow hC' hown
      · exact (ih hC' hdoc' c).acts_appendBelow hC' hown
      · exact (raises_failed hC' _).acts_appendBelow hC' hown

/-- With a document over a page, whatever is materialised acts on the page. -/
theorem raises_materializeWith (v : Value) : Raises p target C (materializeWith (.ref d) v) := by
  apply raises_of_runIn
  intro w hw
  obtain ⟨hhost, hopenly⟩ := runIn_hostOf_page (hdoc w hw).document
  rw [materializeWith, runIn_bind_ok hhost, runIn_bind_ok (runIn_read v w), runIn_bind_ok hopenly]
  split
  · next n _ _ => exact ⟨_, raises_materializeNode hC hdoc n, rfl⟩
  · have hdepth : depthBound.runIn w = (.ok w.depthBound, w) := rfl
    exact ⟨_, raises_materializeStepwise hC hdoc w.depthBound v, runIn_bind_ok hdepth⟩

/-- With a document over a page, nodes are materialised on the page and appended to anything. -/
theorem acts_appendList {parent : Value} (htarget : target = some parent) (nodes : Value) :
    Acts p target C (appendList parent nodes (.ref d)) := by
  have hP := closed_acts hC
  have hgiven : documentOr (.ref d) = pure (.ref d) := rfl
  rw [appendList, hgiven, pure_bind]
  refine hP.discard (hP.answersOf (fun v => ?_) nodes)
  refine hP.bind (hP.discard (acts_find hC _ (by decide))) fun _ => acts_of_runIn fun w hw => ?_
  refine ⟨_, ?_, runIn_bind_ok (runIn_hostOf_page (hdoc w hw).document).1⟩
  exact (raises_materializeWith hC hdoc v).acts_append hC fun _ _ => .inr htarget

end Stepwise

end Operation

end Markup
