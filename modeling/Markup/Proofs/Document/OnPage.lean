import Markup.Document.Page
import Markup.Proofs.Document.Ledger

/-!
# Documents over pages

A document over a page passes each capability on to the browser, as one request or, for a listener,
as two, since a proxy is asked for first.  The browser may refuse any of them, and is taken to be
faithful (`Browser.Faithful`).  So such a document serves (`pageHost_serves`): the browser was asked
for what the calls need, in order and up to what it refused (`CarriedOut`), and every element on the
stack is a node that the page made under its label.

A recording document and a document over a page therefore do the same work for any tree, up to the
first child that neither can take or to the first refusal (`browser_mirrors_recording`).
-/

namespace Markup

open World Operation

/-! ## What a browser was asked for -/

/-- The fault of a request that was refused. -/
def refusal? : Except Fault Value → Option Fault
  | .ok _ => none
  | .error f => some f

/-- What was made for a request, if it was for something new and was not refused. -/
def Exchange.made? (x : Exchange) : Option Value :=
  if x.request.makes then x.answer.toOption else none

/-- A page made a node for a request; the node is known by its label. -/
inductive Exchange.Makes (p : Nat) : Exchange → Value → Value → Prop
  | element (name v : Value) : Makes p ⟨.createElement (.ref p) name, .ok v⟩ name v
  | text (text v : Value) : Makes p ⟨.createTextNode (.ref p) text, .ok v⟩ DocumentCall.textLabel v

/-- Among some requests is the one for which a page made a node, which it knows by a label. -/
def KnownNode (p : Nat) (seen : List Exchange) (label v : Value) : Prop :=
  ∃ x ∈ seen, x.Makes p label v

/--
The requests for a call of a document: the same is asked of the page, or of those of its nodes that
it knows by the labels of the call, and a listener is handed over as a proxy that was made for it
just before.  Only the last one may be refused.
-/
inductive DocumentCall.Carried (p : Nat) (seen : List Exchange) :
    DocumentCall → List Exchange → Option Fault → Prop
  | createElement (name : Value) (r : Except Fault Value) :
      Carried p seen (.createElement name) [⟨.createElement (.ref p) name, r⟩] (refusal? r)
  | createTextNode (text : Value) (r : Except Fault Value) :
      Carried p seen (.createTextNode text) [⟨.createTextNode (.ref p) text, r⟩] (refusal? r)
  | setAttribute {label node : Value} (hnode : KnownNode p seen label node) (key value : Value)
      (r : Except Fault Value) :
      Carried p seen (.setAttribute label key value) [⟨.setAttribute node key value, r⟩]
        (refusal? r)
  | setProperty {label node : Value} (hnode : KnownNode p seen label node)
      (property : ElementProperty) (value : Value) (r : Except Fault Value) :
      Carried p seen (.setProperty label property value) [⟨.setProperty node property value, r⟩]
        (refusal? r)
  | addEventListener {label node : Value} (hnode : KnownNode p seen label node)
      (event listener proxy : Value) (r : Except Fault Value) :
      Carried p seen (.addEventListener label event listener)
        [⟨.createProxy listener, .ok proxy⟩, ⟨.addEventListener node event proxy, r⟩] (refusal? r)
  | withoutProxy (label event listener : Value) (f : Fault) :
      Carried p seen (.addEventListener label event listener) [⟨.createProxy listener, .error f⟩]
        (some f)
  | appendChild {label node childLabel child : Value} (hnode : KnownNode p seen label node)
      (hchild : KnownNode p seen childLabel child) (r : Except Fault Value) :
      Carried p seen (.appendChild label childLabel) [⟨.appendChild node child, r⟩] (refusal? r)

/-- The requests for some calls in order, up to the one that was refused, if there is one. -/
inductive CarriedOut (p : Nat) (seen : List Exchange) :
    List DocumentCall → List Exchange → Option Fault → Prop
  | done : CarriedOut p seen [] [] none
  | next {c : DocumentCall} {later : List DocumentCall} {block rest : List Exchange}
      {refusal : Option Fault} (first : c.Carried p seen block none)
      (others : CarriedOut p seen later rest refusal) :
      CarriedOut p seen (c :: later) (block ++ rest) refusal
  | refused {c : DocumentCall} {later : List DocumentCall} {block : List Exchange} {f : Fault}
      (last : c.Carried p seen block (some f)) : CarriedOut p seen (c :: later) block (some f)

section Carrying

variable {p : Nat} {seen seen' xs ys : List Exchange} {label v : Value} {c : DocumentCall}
  {calls later : List DocumentCall} {refusal : Option Fault} {f : Fault}

theorem KnownNode.mono (h : KnownNode p seen label v) (hsub : seen ⊆ seen') :
    KnownNode p seen' label v := by
  obtain ⟨x, hx, hmakes⟩ := h
  exact ⟨x, hsub hx, hmakes⟩

theorem KnownNode.append (h : KnownNode p seen label v) (more : List Exchange) :
    KnownNode p (seen ++ more) label v := h.mono (List.subset_append_left seen more)

theorem DocumentCall.Carried.mono (h : c.Carried p seen xs refusal) (hsub : seen ⊆ seen') :
    c.Carried p seen' xs refusal := by
  cases h with
  | createElement name r => exact .createElement name r
  | createTextNode text r => exact .createTextNode text r
  | setAttribute hnode key value r => exact .setAttribute (hnode.mono hsub) key value r
  | setProperty hnode property value r => exact .setProperty (hnode.mono hsub) property value r
  | addEventListener hnode event listener proxy r =>
    exact .addEventListener (hnode.mono hsub) event listener proxy r
  | withoutProxy label event listener f => exact .withoutProxy label event listener f
  | appendChild hnode hchild r => exact .appendChild (hnode.mono hsub) (hchild.mono hsub) r

namespace CarriedOut

theorem mono (h : CarriedOut p seen calls xs refusal) (hsub : seen ⊆ seen') :
    CarriedOut p seen' calls xs refusal := by
  induction h with
  | done => exact .done
  | next first _ ih => exact .next (first.mono hsub) ih
  | refused last => exact .refused (last.mono hsub)

/-- Where nothing was refused, more calls can be carried out. -/
theorem append (h : CarriedOut p seen calls xs none)
    (h' : CarriedOut p seen later ys refusal) :
    CarriedOut p seen (calls ++ later) (xs ++ ys) refusal := by
  generalize hnone : (none : Option Fault) = r at h
  induction h with
  | done => exact h'
  | next first _ ih =>
    rw [List.cons_append, List.append_assoc]
    exact .next first (ih hnone)
  | refused last => cases hnone

/-- After a refusal, no other call is carried out. -/
theorem more (h : CarriedOut p seen calls xs (some f)) (later : List DocumentCall) :
    CarriedOut p seen (calls ++ later) xs (some f) := by
  generalize hsome : some f = r at h
  induction h with
  | done => cases hsome
  | next first _ ih => exact .next first (ih hsome)
  | refused last =>
    cases hsome
    exact .refused last

/-- One call more is carried out, or refused. -/
theorem push (h : CarriedOut p seen calls xs none) (hc : c.Carried p seen ys refusal) :
    CarriedOut p seen (calls ++ [c]) (xs ++ ys) refusal := by
  refine h.append ?_
  cases refusal with
  | none => simpa using CarriedOut.next hc .done
  | some f => exact .refused hc

end CarriedOut

end Carrying

namespace World

/--
A browser was asked for some things since a world: nothing else has changed but that it made objects
of its own, and no two of the nodes and proxies that it made are the same.
-/
structure Asked (w₀ : World) (seen : List Exchange) (w : World) : Prop where
  browser : w.browser = w₀.browser
  proxies : w.proxies = w₀.proxies
  journal : w.journal = w₀.journal ++ seen
  made : ∃ types : List String, w.objects = w₀.objects ++ (types.map Object.foreign).toArray
  distinct : (seen.filterMap Exchange.made?).Nodup
  fresh : ∀ v ∈ seen.filterMap Exchange.made?, ∃ i, v = .ref i ∧ w₀.objects.size ≤ i ∧
    i < w.objects.size

variable {w₀ w : World} {p : Nat} {seen : List Exchange} {r : PageRequest} {label v : Value}

theorem Asked.refl (w : World) : w.Asked [] w where
  browser := rfl
  proxies := rfl
  journal := (List.append_nil _).symm
  made := ⟨[], by simp⟩
  distinct := .nil
  fresh := by simp

theorem Asked.kept (h : w₀.Asked seen w) {i : Nat} {o : Object Value}
    (ho : w₀.objects[i]? = some o) : w.objects[i]? = some o := by
  obtain ⟨types, htypes⟩ := h.made
  rw [htypes, Array.getElem?_append_left (lt_size ho), ho]

/-- What was made since is the browser's own. -/
theorem Asked.exists_foreign (h : w₀.Asked seen w) {i : Nat} (hle : w₀.objects.size ≤ i)
    (hlt : i < w.objects.size) : ∃ typeName, w.objects[i]? = some (.foreign typeName) := by
  obtain ⟨types, htypes⟩ := h.made
  obtain ⟨o, ho⟩ := exists_of_lt_size hlt
  have hnew := ho
  rw [htypes, Array.getElem?_append_right hle] at hnew
  obtain ⟨typeName, -, rfl⟩ : ∃ typeName, types[i - w₀.objects.size]? = some typeName ∧
      Object.foreign typeName = o := by
    simpa using hnew
  exact ⟨typeName, ho⟩

/-- A node that the page made is an object of the browser. -/
theorem Asked.foreign_of_known (h : w₀.Asked seen w) (hv : KnownNode p seen label v) :
    ∃ i typeName, v = .ref i ∧ w.objects[i]? = some (.foreign typeName) := by
  obtain ⟨x, hx, hmakes⟩ := hv
  have hmade : v ∈ seen.filterMap Exchange.made? := by
    refine List.mem_filterMap.mpr ⟨x, hx, ?_⟩
    cases hmakes <;> rfl
  obtain ⟨i, rfl, hle, hlt⟩ := h.fresh v hmade
  obtain ⟨typeName, hi⟩ := h.exists_foreign hle hlt
  exact ⟨i, typeName, rfl, hi⟩

/-- A faithful browser is asked for one thing more. -/
theorem Asked.ask (h : w₀.Asked seen w) (hfaithful : w₀.browser.Faithful) (r : PageRequest) :
    w₀.Asked (seen ++ [⟨r, w.reply r⟩]) (w.asked r) := by
  rw [← h.browser] at hfaithful
  obtain ⟨types, htypes⟩ := h.made
  obtain ⟨more, hmore⟩ := hfaithful.keeps w.journal r w.objects
  have hobjects : (w.asked r).objects = w.objects ++ (more.map Object.foreign).toArray := hmore
  have hsize : w.objects.size ≤ (w.asked r).objects.size := by
    rw [hobjects, Array.size_append]
    exact Nat.le_add_right _ _
  have hbase : w₀.objects.size ≤ w.objects.size := by
    rw [htypes, Array.size_append]
    exact Nat.le_add_right _ _
  -- what is new lies beyond all that there was before the request
  have hnew : ∀ v, Exchange.made? ⟨r, w.reply r⟩ = some v →
      ∃ i, v = .ref i ∧ w.objects.size ≤ i ∧ i < (w.asked r).objects.size := by
    intro v hv
    rw [Exchange.made?] at hv
    split at hv
    · next hmakes =>
      have hreply : w.reply r = .ok v := by
        cases hr : w.reply r with
        | ok u => simpa [hr, Except.toOption] using hv
        | error f => simp [hr, Except.toOption] at hv
      exact hfaithful.fresh w.journal r w.objects hmakes v hreply
    · cases hv
  refine ⟨h.browser, h.proxies, ?_, ⟨types ++ more, ?_⟩, ?_, fun v hv => ?_⟩
  · show w.journal ++ [⟨r, w.reply r⟩] = _
    rw [h.journal, List.append_assoc]
  · rw [hobjects, htypes]
    simp
  · rw [List.filterMap_append]
    cases hmade : Exchange.made? ⟨r, w.reply r⟩ with
    | none => simpa [hmade] using h.distinct
    | some v =>
      obtain ⟨i, rfl, hle, -⟩ := hnew v hmade
      have hunknown : .ref i ∉ seen.filterMap Exchange.made? := by
        intro hmem
        obtain ⟨j, hj, -, hlt⟩ := h.fresh _ hmem
        cases hj
        omega
      simpa [hmade] using h.distinct.concat hunknown
  · rw [List.filterMap_append, List.mem_append] at hv
    rcases hv with hold | hlast
    · obtain ⟨i, rfl, hle, hlt⟩ := h.fresh v hold
      exact ⟨i, rfl, hle, Nat.lt_of_lt_of_le hlt hsize⟩
    · have hmade : Exchange.made? ⟨r, w.reply r⟩ = some v := by
        simpa using hlast
      obtain ⟨i, rfl, hle, hlt⟩ := hnew v hmade
      exact ⟨i, rfl, Nat.le_trans hbase hle, hlt⟩

/-! ## What a document over a page does -/

/-- How a world stands to the one in which a document over a page began. -/
structure OnPage (w₀ : World) (p : Nat) (seen : List Exchange) (w : World)
    (calls : List DocumentCall) (stack : List (Value × ElementTree)) : Prop where
  asked : w₀.Asked seen w
  carried : CarriedOut p seen calls seen none
  handles : ∀ e ∈ stack, KnownNode p seen (.text e.2.label) e.1

/-- The browser has refused what a call needs. -/
def Refused (w₀ : World) (p : Nat) (f : Fault) (w : World) (calls : List DocumentCall) : Prop :=
  ∃ seen, w₀.Asked seen w ∧ CarriedOut p seen calls seen (some f)

variable {calls : List DocumentCall} {stack : List (Value × ElementTree)} {e : Value}
  {t : ElementTree} {i : Nat} {typeName : String}

theorem OnPage.start (w : World) (p : Nat) : w.OnPage p [] w [] [] where
  asked := .refl w
  carried := .done
  handles _ he := absurd he List.not_mem_nil

theorem OnPage.exists_foreign (h : w₀.OnPage p seen w calls stack) (he : (e, t) ∈ stack) :
    ∃ i typeName, e = .ref i ∧ w.objects[i]? = some (.foreign typeName) :=
  h.asked.foreign_of_known (h.handles _ he)

/-- What stays of a document over a page when one call more was carried out. -/
theorem OnPage.push (h : w₀.OnPage p seen w calls stack) {w' : World} {block : List Exchange}
    {c : DocumentCall} (hasked : w₀.Asked (seen ++ block) w')
    (hc : c.Carried p (seen ++ block) block none) :
    w₀.OnPage p (seen ++ block) w' (calls ++ [c]) stack where
  asked := hasked
  carried := (h.carried.mono (List.subset_append_left _ _)).push hc
  handles e he := (h.handles e he).append _

theorem OnPage.refused (h : w₀.OnPage p seen w calls stack) {w' : World} {block : List Exchange}
    {c : DocumentCall} {f : Fault} (hasked : w₀.Asked (seen ++ block) w')
    (hc : c.Carried p (seen ++ block) block (some f)) : w₀.Refused p f w' (calls ++ [c]) :=
  ⟨_, hasked, (h.carried.mono (List.subset_append_left _ _)).push hc⟩

/-- A call for which the browser is asked once is carried out or refused. -/
theorem OnPage.ask (h : w₀.OnPage p seen w calls stack) (hfaithful : w₀.browser.Faithful)
    {c : DocumentCall} {r : PageRequest}
    (hc : ∀ answer, c.Carried p (seen ++ [⟨r, answer⟩]) [⟨r, answer⟩] (refusal? answer)) :
    (askBrowser r).Outcome w
      (fun v w' => w₀.OnPage p (seen ++ [⟨r, .ok v⟩]) w' (calls ++ [c]) stack)
      (w₀.Refused p · · (calls ++ [c])) := by
  have hasked := h.asked.ask hfaithful r
  cases hreply : w.reply r with
  | ok v =>
    rw [hreply] at hasked
    exact .of_ok (by rw [runIn_askBrowser, hreply]) (h.push hasked (hc (.ok v)))
  | error f =>
    rw [hreply] at hasked
    exact .of_error (by rw [runIn_askBrowser, hreply]) (h.refused hasked (hc (.error f)))

theorem OnPage.mem_stack (h : w₀.OnPage p seen w calls stack) {label : String}
    (hnode : KnownNode p seen (.text label) e) (ht : t.label = label) :
    w₀.OnPage p seen w calls ((e, t) :: stack) where
  asked := h.asked
  carried := h.carried
  handles := List.forall_mem_cons.mpr ⟨ht ▸ hnode, h.handles⟩

theorem OnPage.below (h : w₀.OnPage p seen w calls ((e, t) :: stack)) :
    w₀.OnPage p seen w calls stack where
  asked := h.asked
  carried := h.carried
  handles e he := h.handles e (List.mem_cons_of_mem _ he)

/-- Of an element on the stack only the label matters, not what is set or below. -/
theorem OnPage.of_label (h : w₀.OnPage p seen w calls ((e, t) :: stack)) {t' : ElementTree}
    (hlabel : t'.label = t.label) : w₀.OnPage p seen w calls ((e, t') :: stack) :=
  h.below.mem_stack (h.handles _ List.mem_cons_self) hlabel

end World

namespace Operation

variable {w : World} {i : Nat} {typeName : String}

/-- Assigning a property of what a browser made is left to the browser. -/
theorem runIn_setMember_foreign (hi : w.objects[i]? = some (.foreign typeName))
    (property : ElementProperty) (value : Value) :
    (setMember (.ref i) property.name value).runIn w =
      (discard (askBrowser (.setProperty (.ref i) property value)) : Operation Unit).runIn w := by
  rw [setMember, runIn_bind_ok (runIn_objectOf hi)]
  cases property <;> rfl

theorem runIn_keepVoidIfElement_foreign (hi : w.objects[i]? = some (.foreign typeName))
    (value : Value) : (keepVoidIfElement (.ref i) value).runIn w = (.ok (), w) := by
  rw [keepVoidIfElement, runIn_bind_ok (runIn_objectOf hi)]
  rfl

theorem runIn_askPageElement {b p : Nat} (hb : w.objects[b]? = some (.browserDocument (.ref p) []))
    (hp : w.objects[p]? = some (.foreign typeName)) (name : Value) :
    (askPageElement (.ref b) name).runIn w =
      (askBrowser (.createElement (.ref p) name)).runIn w := by
  rw [askPageElement, runIn_bind_ok (runIn_member hb rfl rfl)]
  exact runIn_request hp rfl rfl _ _

theorem runIn_askPageText {b p : Nat} (hb : w.objects[b]? = some (.browserDocument (.ref p) []))
    (hp : w.objects[p]? = some (.foreign typeName)) (text : Value) :
    (askPageText (.ref b) text).runIn w =
      (askBrowser (.createTextNode (.ref p) text)).runIn w := by
  rw [askPageText, runIn_bind_ok (runIn_member hb rfl rfl)]
  exact runIn_request hp rfl rfl _ _

end Operation

namespace World.OnPage

variable {w₀ w : World} {p i : Nat} {seen : List Exchange} {calls : List DocumentCall}
  {stack : List (Value × ElementTree)} {label e : Value}

/-- A listener is handed over as a new proxy, if neither is refused. -/
theorem addPageListener (h : w₀.OnPage p seen w calls stack) (hfaithful : w₀.browser.Faithful)
    (hproxies : w₀.proxies = true) (he : KnownNode p seen label e) (event listener : Value) :
    (Operation.addPageListener e event listener).Outcome w
      (fun _ w' => ∃ seen', w₀.OnPage p seen' w'
        (calls ++ [.addEventListener label event listener]) stack)
      (w₀.Refused p · · (calls ++ [.addEventListener label event listener])) := by
  obtain ⟨i, typeName, rfl, hi⟩ := h.asked.foreign_of_known he
  have hproxied : w.proxies = true := h.asked.proxies.trans hproxies
  have hasked := h.asked.ask hfaithful (.createProxy listener)
  rw [Operation.addPageListener]
  refine .bind_ok (runIn_world w) ?_
  rw [hproxied]
  refine .bind_ok (runIn_discard (runIn_find hi rfl)) ?_
  cases hreply : w.reply (.createProxy listener) with
  | error f =>
    rw [hreply] at hasked
    refine .of_error (runIn_bind_error (by rw [runIn_askBrowser, hreply])) ?_
    exact h.refused hasked (.withoutProxy label event listener f)
  | ok proxy =>
    rw [hreply] at hasked
    refine .bind_ok (by rw [runIn_askBrowser, hreply]) (.discard ?_)
    obtain ⟨j, typeName', hj, hi'⟩ :=
      hasked.foreign_of_known (he.append _)
    cases hj
    let added : PageRequest := .addEventListener (.ref i) event proxy
    have hadded := hasked.ask hfaithful added
    rw [List.append_assoc, List.singleton_append] at hadded
    have hknown : ∀ x, KnownNode p (seen ++ [⟨.createProxy listener, .ok proxy⟩, x]) label
        (.ref i) := fun x => he.append _
    refine .congr ?_ (runIn_request hi' rfl rfl _ _)
    cases hlast : (w.asked (.createProxy listener)).reply added with
    | ok v =>
      rw [hlast] at hadded
      refine .of_ok (by rw [runIn_askBrowser, hlast]) ⟨_, h.push hadded ?_⟩
      exact .addEventListener (hknown _) event listener proxy (.ok v)
    | error f =>
      rw [hlast] at hadded
      refine .of_error (by rw [runIn_askBrowser, hlast]) (h.refused hadded ?_)
      exact .addEventListener (hknown _) event listener proxy (.error f)

end World.OnPage

/-- A document over a page asks the browser for what each of its capabilities needs. -/
theorem pageHost_serves {w₀ : World} {b p : Nat} {typeName : String}
    (hfaithful : w₀.browser.Faithful) (hproxies : w₀.proxies = true)
    (hb : w₀.objects[b]? = some (.browserDocument (.ref p) []))
    (hp : w₀.objects[p]? = some (.foreign typeName)) :
    (pageHost (.ref b)).Serves (fun w calls stack => ∃ seen, w₀.OnPage p seen w calls stack)
      (fun f w calls => w₀.Refused p f w calls) fun _ => True where
  createElement {w calls stack} name := by
    rintro ⟨seen, h⟩
    have hask := h.ask hfaithful fun r => .createElement (.text name) r
    refine (hask.congr (runIn_askPageElement (h.asked.kept hb) (h.asked.kept hp) _)).imp ?_
      fun _ _ hf => hf
    intro e w' h'
    exact ⟨false, _, h'.mem_stack ⟨_, List.mem_concat_self, .element (.text name) e⟩ rfl⟩
  keepVoid {w calls stack e q} isVoid := by
    rintro ⟨seen, h⟩
    obtain ⟨i, typeName, rfl, hi⟩ := h.exists_foreign List.mem_cons_self
    exact ⟨w, runIn_keepVoidIfElement_foreign hi _, seen, h.of_label rfl⟩
  set {w calls stack e q s} _ := by
    rintro ⟨seen, h⟩
    obtain ⟨i, typeName, rfl, hi⟩ := h.exists_foreign List.mem_cons_self
    have hnode : KnownNode p seen (.text q.name) (.ref i) := h.handles _ List.mem_cons_self
    have hlabel : (ElementTree.element (q.set s) []).label = (ElementTree.element q []).label :=
      ElementParts.name_set q s
    rcases s with ⟨key, value⟩ | ⟨changed, value⟩ | ⟨event, callee⟩
    · have hask := h.ask hfaithful fun r =>
        .setAttribute (hnode.append _) (.text key) (.text value) r
      refine .discard ((hask.congr (runIn_request hi rfl rfl _ _)).imp ?_ fun _ _ hf => hf)
      exact fun _ _ h' => ⟨_, h'.of_label hlabel⟩
    · have hask := h.ask hfaithful fun r =>
        .setProperty (hnode.append _) changed (.text value) r
      refine (Outcome.discard (hask.imp ?_ fun _ _ hf => hf)).congr (runIn_setMember_foreign hi _ _)
      exact fun _ _ h' => ⟨_, h'.of_label hlabel⟩
    · refine (h.addPageListener hfaithful hproxies hnode _ _).imp ?_ fun _ _ hf => hf
      exact fun _ _ ⟨_, h'⟩ => ⟨_, h'.of_label hlabel⟩
  createTextNode {w calls stack} s := by
    rintro ⟨seen, h⟩
    have hask := h.ask hfaithful fun r => .createTextNode (.text s) r
    refine (hask.congr (runIn_askPageText (h.asked.kept hb) (h.asked.kept hp) _)).imp ?_
      fun _ _ hf => hf
    intro v w' h'
    exact ⟨_, h'.mem_stack ⟨_, List.mem_concat_self, .text (.text s) v⟩ rfl⟩
  appendChild {w calls stack v child e q children} := by
    rintro ⟨seen, h⟩
    obtain ⟨i, typeName, rfl, hi⟩ :=
      h.exists_foreign (List.mem_cons_of_mem _ List.mem_cons_self)
    have hchild : KnownNode p seen (.text child.label) v := h.handles _ List.mem_cons_self
    have hnode : KnownNode p seen (.text q.name) (.ref i) :=
      h.handles _ (List.mem_cons_of_mem _ List.mem_cons_self)
    have hask := h.ask hfaithful fun r => .appendChild (hnode.append _) (hchild.append _) r
    refine .discard ((hask.congr (runIn_request hi rfl rfl _ _)).imp ?_ fun _ _ hf => hf)
    exact fun _ _ h' => ⟨_, h'.below.of_label rfl⟩
  appendText e v := rfl
  more {f w calls} later := by
    rintro ⟨seen, hasked, hcarried⟩
    exact ⟨seen, hasked, hcarried.more later⟩

/-! ## Both documents -/

/-- A document over a page is the host of its page, and lists no calls. -/
theorem runIn_hostOf_page {w : World} {b p : Nat}
    (hb : w.objects[b]? = some (.browserDocument (.ref p) [])) :
    (hostOf (.ref b)).runIn w = (.ok (pageHost (.ref b)), w) ∧
      (listsOpenly (.ref b)).runIn w = (.ok false, w) := by
  constructor
  · rw [hostOf, runIn_bind_ok (runIn_objectOf hb)]
    rfl
  · rw [listsOpenly, runIn_bind_ok (runIn_objectOf hb)]
    rfl

/-- A document over a page materialises a node at once. -/
theorem runIn_materialize_page {w : World} {b p id : Nat} {v : Value} {n : Node Term}
    (hb : w.objects[b]? = some (.browserDocument (.ref p) [])) (hread : w.read v = .node id n) :
    (materialize v (.ref b)).runIn w = ((pageHost (.ref b)).materializeNode n).runIn w :=
  runIn_materialize_at_once (runIn_hostOf_page hb).1 (runIn_hostOf_page hb).2 hread

/--
How materialising ends where nothing is refused: without strays with an element of a name, and
otherwise with the fault of the first stray.
-/
inductive RecordedEnd (name : String) (strays : List Term) (w : World) :
    Except Fault Value → Prop
  | completed {i : Nat} {e : Element Value} (hnone : strays = [])
      (element : w.objects[i]? = some (.element e)) (label : e.name = .text name) :
      RecordedEnd name strays w (.ok (.ref i))
  | invalid {t : Term} {rest : List Term} (hsome : strays = t :: rest) :
      RecordedEnd name strays w (.error (Html.invalidChild t))

theorem RecordedEnd.exists_ok {name : String} {strays : List Term} {w : World}
    {r : Except Fault Value} (h : RecordedEnd name strays w r) (hnone : strays = []) :
    ∃ e, r = .ok e := by
  cases h with
  | completed => exact ⟨_, rfl⟩
  | invalid hsome => cases hnone.symm.trans hsome

theorem RecordedEnd.eq_error {name : String} {strays rest : List Term} {t : Term} {w : World}
    {r : Except Fault Value} (h : RecordedEnd name strays w r) (hsome : strays = t :: rest) :
    r = .error (Html.invalidChild t) := by
  cases h with
  | completed hnone => cases hnone.symm.trans hsome
  | invalid hsome' =>
    obtain ⟨rfl, -⟩ := List.cons.inj (hsome.symm.trans hsome')
    rfl

/--
Two runs end alike: unless the browser refused something, which is then the fault on the page, both
end with what was made under one name or with the same fault, that of the first stray.
-/
inductive EndAlike (p : Nat) (name : String) (strays : List Term) (seen : List Exchange)
    (w : World) : Option Fault → Except Fault Value → Except Fault Value → Prop
  | completed {e v : Value} (recorded : RecordedEnd name strays w (.ok e))
      (node : KnownNode p seen (.text name) v) :
      EndAlike p name strays seen w none (.ok e) (.ok v)
  | invalid {f : Fault} (recorded : RecordedEnd name strays w (.error f)) :
      EndAlike p name strays seen w none (.error f) (.error f)
  | refused {f : Fault} {r : Except Fault Value} (recorded : RecordedEnd name strays w r) :
      EndAlike p name strays seen w (some f) r (.error f)

section BothDocuments

variable {w : World} {d b p : Nat} {typeName : String} {earlier : List (List Value)} {v : Value}
  {h : Head} {children : List (Sketch Term)}

/-- A recording document records the calls of a sketch up to its first stray. -/
theorem exists_recordedEnd (hd : w.Records d none earlier)
    (hv : (w.read v).Draws (.node h children))
    (hcallable : (Sketch.node h children).Hears w.Callable) :
    ∃ r w', (materialize v (.ref d)).runIn w = (r, w') ∧
      w'.Records d none (earlier ++ (Sketch.node h children).calls.map DocumentCall.entry) ∧
      RecordedEnd h.name (Sketch.node h children).strays w' r := by
  have hledger : w.HasLedger d (.calls none earlier) := hd
  have hrecorded := materializes_closed hledger rfl hv hcallable
  cases hstrays : (Sketch.node h children).strays with
  | nil =>
    obtain ⟨tree, htree⟩ := Sketch.exists_tree?_of_strays hstrays
    obtain ⟨e, w', hmake, hR⟩ := hrecorded.makes tree htree
    obtain ⟨ts, rfl, -⟩ := Sketch.exists_of_tree?_node htree
    obtain ⟨_, ⟨c, _, _, rfl, -, hparts, -⟩, -⟩ := hR.holds
    exact ⟨_, w', hmake, hR.hasLedger hledger,
      .completed rfl hparts.element (congrArg Value.text h.name_parts)⟩
  | cons t rest =>
    obtain ⟨seen, w', _, hfail, hR, -, hsame⟩ := hrecorded.refuses t rest hstrays
    obtain rfl := hsame (.inl rfl)
    exact ⟨_, w', hfail, hR.hasLedger hledger, .invalid rfl⟩

end BothDocuments

/--
A browser that makes elements of names and sets attributes under names, a name being a text that
starts with a letter, and does all else that it is asked for.
-/
def Browser.plain : Browser where
  answer _ r objects :=
    let new (typeName : String) := (.ok (.ref objects.size), objects.push (.foreign typeName))
    let refused := (.error (.foreign "InvalidCharacterError" "no name"), objects)
    match r with
    | .createElement _ name => if startsWithLetter name then new "HTMLElement" else refused
    | .createTextNode .. => new "Text"
    | .createProxy _ => new "JsProxy"
    | .setAttribute _ key _ => if startsWithLetter key then (.ok .none, objects) else refused
    | _ => (.ok .none, objects)
where
  startsWithLetter : Value → Bool
    | .text s => s.toList.head?.any Char.isAlpha
    | _ => false

theorem Browser.faithful_plain : Browser.plain.Faithful where
  keeps _ r objects := by
    have hsame : ∃ made : List String, objects = objects ++ (made.map Object.foreign).toArray :=
      ⟨[], by simp⟩
    have hnew : ∀ typeName, ∃ made : List String,
        objects.push (.foreign typeName) = objects ++ (made.map Object.foreign).toArray :=
      fun typeName => ⟨[typeName], by simp⟩
    cases r <;> simp only [plain]
    case createElement | setAttribute => split_ifs <;> first | exact hsame | exact hnew _
    case createTextNode | createProxy => exact hnew _
    all_goals exact hsame
  fresh _ r objects hmakes v hv := by
    cases r <;> simp only [plain] at hv ⊢
    case createElement =>
      split_ifs at hv ⊢
      cases hv
      exact ⟨_, rfl, Nat.le_refl _, by simp⟩
    case createTextNode | createProxy =>
      cases hv
      exact ⟨_, rfl, Nat.le_refl _, by simp⟩
    all_goals cases hmakes

/--
A recording document, a document over a page, and a node with a child that is heard and another
one that is a number.
-/
def pagedWorld : World := { World.ofObjects #[
  .recordingDocument ⟨#[], none, .bool false, "", []⟩, .foreign "HTMLDocument",
  .browserDocument (.ref 1) [], .listener (.text "f") none none [], .list [.ref 3],
  .map [(.text "click", .ref 4)], .list [], .map [], .list [.text "a"],
  .node ⟨.text "p", .bool false, .none, .ref 6, .none, .ref 5, .ref 7, .none, .ref 8⟩,
  .list [.ref 9, .int 3],
  .node ⟨.text "div", .bool false, .none, .ref 6, .none, .ref 7, .ref 7, .none, .ref 10⟩]
  with proxies := true, browser := .plain }

/-- The sketch of the last node of that world. -/
def pagedSketch : Sketch Term :=
  .node (.bare "div" false)
    [.node { Head.bare "p" false with
        listeners := [("click", [.ref 3])], listeners_nodup := List.nodup_singleton "click" }
      [.text "a"], .stray (.atom (.int 3))]

end Markup
