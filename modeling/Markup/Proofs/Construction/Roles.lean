import Markup.Proofs.Construction.Splitting
import Mathlib.Logic.Function.Basic

/-!
# The normal form of a call

The last place whose argument suits a role takes it (`Roles.Field.place`), and the roles are told by
the arguments that take them alone (`Roles.exists_takenFrom`, `Roles.TakenFrom.unique`).  So the
attributes, the content and the children that three arguments come to are three arguments again
which come to the same, and an argument that takes no role can be exchanged for any other one that
takes none.  A constructor makes the same node of a call and of its normal form
(`call_normal_form`).
-/

namespace Markup

open Operation

/-! ## Children -/

namespace Term

/-- Whether a term is a number or a truth value, which is no child as it is. -/
def isNumber : Term → Bool
  | .atom (.bool _) | .atom (.int _) | .atom (.float _) | .object _ .notANumber => true
  | _ => false

end Term

namespace Roles

/-- What an item becomes as a child: a number or a truth value its text, anything else itself. -/
def Becomes (item child : Term) : Prop :=
  if item.isNumber then ∃ s, primitiveText item = .ok s ∧ child = .text s else child = item

variable {item child : Term}

theorem becomes_of_laxChild (h : laxChild item = .ok child) : Becomes item child := by
  rw [laxChild.eq_def] at h
  split at h
  case h_5 hbool hint hfloat hnan =>
    have hnumber : item.isNumber = false := by
      rw [Term.isNumber.eq_def]
      split
      · exact absurd rfl (hbool _)
      · exact absurd rfl (hint _)
      · exact absurd rfl (hfloat _)
      · exact absurd rfl (hnan _)
      · rfl
    simpa [Becomes, hnumber] using (Except.ok.inj h).symm
  all_goals
    obtain ⟨s, hs, h⟩ := ok_of_bind h
    cases h
    simpa [Becomes, Term.isNumber] using hs

theorem exists_laxChild (item : Term) : ∃ child, laxChild item = .ok child := by
  rw [laxChild.eq_def]
  split
  case h_5 => exact ⟨_, rfl⟩
  all_goals simp [primitiveText, Term.plain, Term.display]

theorem Becomes.not_isNumber (h : Becomes item child) : child.isNumber = false := by
  rw [Becomes] at h
  split at h
  · obtain ⟨s, -, rfl⟩ := h
    rfl
  · next hnumber => simpa [h] using hnumber

/-- What is no number is a child as it is. -/
theorem becomes_self (h : item.isNumber = false) : Becomes item item := by
  simp [Becomes, h]

theorem Becomes.unique {child' : Term} (h : Becomes item child) (h' : Becomes item child') :
    child = child' := by
  rw [Becomes] at h h'
  split at h
  · next hnumber =>
    rw [if_pos hnumber] at h'
    obtain ⟨s, hs, rfl⟩ := h
    obtain ⟨s', hs', rfl⟩ := h'
    rw [hs, Except.ok.injEq] at hs'
    rw [hs']
  · next hnumber =>
    rw [if_neg hnumber] at h'
    rw [h, h']

/-! ## Who takes a role -/

/-- The places of the arguments that can take a role. -/
inductive Place where
  | first
  | second
  | third
deriving DecidableEq

/-- What a call gives a node. -/
inductive Field where
  | attributes
  | content
  | children
deriving DecidableEq

namespace Field

/-- Whether an argument at a place suits a role by its shape. -/
def suits : Field → Place → Term → Bool
  | .attributes, .first, t => t.shape = .mapping || t.text?.isSome
  | .attributes, .second, t => t.shape = .mapping
  | .content, .second, t => t.shape = .primitive
  | .children, _, t => t.shape = .sequence
  | _, _, _ => false

/-- The place that takes a role: the last one with an argument that suits it. -/
def place (role : Field) (args : Place → Term) : Option Place :=
  [.third, .second, .first].find? fun p => role.suits p (args p)

end Field

namespace Field

/-- The attributes are taken by the second argument, or else by the first one. -/
theorem place_attributes (args : Place → Term) : attributes.place args =
    if attributes.suits .second (args .second) then some .second
    else if attributes.suits .first (args .first) then some .first else none := by
  have hthird : attributes.suits .third (args .third) = false := rfl
  rw [place]
  cases htwo : attributes.suits .second (args .second) <;>
    cases hone : attributes.suits .first (args .first) <;> simp [hthird, htwo, hone]

/-- Whatever argument takes a role suits it. -/
theorem suits_of_place {role : Field} {p : Place} {args : Place → Term}
    (h : role.place args = some p) : role.suits p (args p) = true := by
  simpa using List.find?_some h

end Field

/-- The argument at a place takes some role. -/
def TakesRole (args : Place → Term) (p : Place) : Prop :=
  ∃ role : Field, role.place args = some p

/-- Roles are what the arguments that take them give, and what no argument takes is empty. -/
structure TakenFrom (roles : Roles) (args : Place → Term) : Prop where
  attributes : roles.attributes =
    ((Field.attributes.place args).bind fun p => firstAttributes? (args p)).getD (.entries [])
  content : (Field.content.place args).elim (roles.content = "") fun p =>
    primitiveText (args p) = .ok roles.content
  children : (Field.children.place args).elim (roles.children = []) fun p =>
    ∃ items, (args p).items = .ok items ∧ List.Forall₂ Becomes items roles.children

variable {args args' : Place → Term} {roles roles' : Roles}

theorem firstAttributes?_isSome (t : Term) :
    (firstAttributes? t).isSome = Field.attributes.suits .first t := by
  cases t with
  | atom a => cases a <;> rfl
  | object i o => cases o <;> rfl

theorem secondAttributes?_eq (t : Term) :
    secondAttributes? t =
      if Field.attributes.suits .second t then firstAttributes? t else none := by
  cases t with
  | atom a => cases a <;> rfl
  | object i o => cases o <;> rfl

theorem secondAttributes?_isSome (t : Term) :
    (secondAttributes? t).isSome = Field.attributes.suits .second t := by
  cases t with
  | atom a => cases a <;> rfl
  | object i o => cases o <;> rfl

/-- The attributes come from the second argument if it is a map, or else from the first one. -/
theorem attributes_place (args : Place → Term) :
    (Field.attributes.place args).bind (fun p => firstAttributes? (args p)) =
      (secondAttributes? (args .second)).or (firstAttributes? (args .first)) := by
  have hone := firstAttributes?_isSome (args .first)
  have htwo := secondAttributes?_isSome (args .second)
  rw [Field.place_attributes, secondAttributes?_eq] at *
  cases hsecond : Field.attributes.suits .second (args .second) with
  | true =>
    obtain ⟨source, hsource⟩ : ∃ source, firstAttributes? (args .second) = some source := by
      simpa [hsecond, Option.isSome_iff_exists] using htwo
    simp [hsource]
  | false =>
    rw [← hone]
    cases hsource : firstAttributes? (args .first) <;> simp [hsource]

/-- The content comes from the second argument. -/
theorem content_place (args : Place → Term) :
    (Field.content.place args).map args = content? (args .second) := by
  by_cases h : (args .second).shape = .primitive <;> simp [Field.place, Field.suits, content?, h]

/-- The children come from the last argument that is a sequence. -/
theorem children_place (args : Place → Term) :
    (Field.children.place args).map args = (children? (args .third)).or
      ((children? (args .second)).or (children? (args .first))) := by
  by_cases hthree : (args .third).shape = .sequence
  · simp [Field.place, Field.suits, children?, hthree]
  · by_cases htwo : (args .second).shape = .sequence
    · simp [Field.place, Field.suits, children?, hthree, htwo]
    · by_cases hone : (args .first).shape = .sequence <;>
        simp [Field.place, Field.suits, children?, hthree, htwo, hone]

theorem exists_items {t : Term} (h : t.shape = .sequence) : ∃ ts, t.items = .ok ts := by
  cases t with
  | atom a => cases a <;> first | exact ⟨_, rfl⟩ | cases h
  | object i o => cases o <;> first | exact ⟨_, rfl⟩ | cases h

/-- Only a number that is none is a primitive without being an atom. -/
theorem cases_primitive {t : Term} (h : t.shape = .primitive) :
    (∃ a, t = .atom a) ∨ ∃ i, t = .object i .notANumber := by
  cases t with
  | atom a => exact .inl ⟨a, rfl⟩
  | object i o => cases o <;> first | exact .inr ⟨i, rfl⟩ | cases h

theorem exists_primitiveText {t : Term} (h : t.shape = .primitive) :
    ∃ s, primitiveText t = .ok s := by
  rcases cases_primitive h with ⟨a, rfl⟩ | ⟨i, rfl⟩
  · cases a <;> simp [primitiveText, Term.plain, Term.display]
  · simp [primitiveText, Term.plain, Term.display]

/-- The roles of three arguments by the places that take them. -/
theorem resolve_eq (args : Place → Term) :
    resolve (args .first) (args .second) (args .third) = do
      let content ← (Field.content.place args).elim (pure "") fun p => primitiveText (args p)
      let children ← (Field.children.place args).elim (pure []) fun p => laxChildren (args p)
      return ⟨((Field.attributes.place args).bind fun p => firstAttributes? (args p)).getD
        (.entries []), content, children⟩ := by
  rw [attributes_place, resolve, ← content_place, ← children_place]
  cases Field.content.place args <;> cases Field.children.place args <;> rfl

/-- There is a text for the content. -/
theorem exists_content (args : Place → Term) : ∃ content,
    ((Field.content.place args).elim (pure "") fun p => primitiveText (args p)) =
        (.ok content : Except Fault String) ∧
      (Field.content.place args).elim (content = "") fun p =>
        primitiveText (args p) = .ok content := by
  cases hplace : Field.content.place args with
  | none => simp
  | some p =>
    have hshape : (args p).shape = .primitive := by
      cases p <;> simpa [Field.suits] using Field.suits_of_place hplace
    simpa using exists_primitiveText hshape

/-- There are children for the items. -/
theorem exists_children (args : Place → Term) : ∃ children,
    ((Field.children.place args).elim (pure []) fun p => laxChildren (args p)) =
        (.ok children : Except Fault (List Term)) ∧
      (Field.children.place args).elim (children = []) fun p =>
        ∃ items, (args p).items = .ok items ∧ List.Forall₂ Becomes items children := by
  cases hplace : Field.children.place args with
  | none => simp
  | some p =>
    have hshape : (args p).shape = .sequence := by
      simpa [Field.suits] using Field.suits_of_place hplace
    obtain ⟨items, hitems⟩ := exists_items hshape
    obtain ⟨children, hlax⟩ := exists_mapM_eq_ok fun (item : Term) (_ : item ∈ items) =>
      exists_laxChild item
    have hbecomes := (forall₂_of_mapM_eq_ok hlax).imp fun _ _ => becomes_of_laxChild
    exact ⟨children, by simpa [laxChildren, hitems] using hlax, items, hitems, hbecomes⟩

/-- Three arguments always have roles, which are taken from them. -/
theorem exists_takenFrom (args : Place → Term) : ∃ roles : Roles,
    resolve (args .first) (args .second) (args .third) = .ok roles ∧ roles.TakenFrom args := by
  obtain ⟨content, htext, hcontent⟩ := exists_content args
  obtain ⟨children, hlax, hchildren⟩ := exists_children args
  refine ⟨⟨_, content, children⟩, ?_, rfl, hcontent, hchildren⟩
  rw [resolve_eq, htext, hlax]
  rfl

/-- Only one way to take roles from arguments. -/
theorem TakenFrom.unique (h : roles.TakenFrom args) (h' : roles'.TakenFrom args) :
    roles = roles' := by
  have hattributes := h.attributes.trans h'.attributes.symm
  have hcontent : roles.content = roles'.content := by
    have hone := h.content
    have htwo := h'.content
    cases hplace : Field.content.place args <;> rw [hplace] at hone htwo
    · exact hone.trans htwo.symm
    · exact Except.ok.inj (hone.symm.trans htwo)
  have hchildren : roles.children = roles'.children := by
    have hone := h.children
    have htwo := h'.children
    cases hplace : Field.children.place args <;> rw [hplace] at hone htwo
    · exact hone.trans htwo.symm
    · obtain ⟨items, hitems, hone⟩ := hone
      obtain ⟨_, hitems', htwo⟩ := htwo
      cases hitems.symm.trans hitems'
      exact List.right_unique_forall₂' (fun _ _ _ h h' => h.unique h') hone htwo
  cases roles
  cases roles'
  simp_all

theorem TakenFrom.resolve (h : roles.TakenFrom args) :
    resolve (args .first) (args .second) (args .third) = .ok roles := by
  obtain ⟨_, hresolve, htaken⟩ := exists_takenFrom args
  rw [hresolve, htaken.unique h]

/-! ## Arguments without a role -/

/-- What is found neither at a place before a change there nor after it is found where it was. -/
theorem find?_congr_of_ne {α : Type} [DecidableEq α] {f g : α → Bool} {p : α} {places : List α}
    (hsame : ∀ q ≠ p, f q = g q) (hf : places.find? f ≠ some p) (hg : places.find? g ≠ some p) :
    places.find? f = places.find? g := by
  induction places with
  | nil => rfl
  | cons q places ih =>
    by_cases hq : q = p
    · subst hq
      have hfq : f q = false := by
        by_contra htrue
        exact hf (List.find?_cons_of_pos (by simpa using htrue))
      have hgq : g q = false := by
        by_contra htrue
        exact hg (List.find?_cons_of_pos (by simpa using htrue))
      simp only [List.find?_cons, hfq, hgq] at hf hg ⊢
      exact ih hf hg
    · simp only [List.find?_cons, hsame q hq] at hf hg ⊢
      cases hgq : g q with
      | true => rfl
      | false =>
        rw [hgq] at hf hg
        exact ih hf hg

/-- Where arguments differ at a place that takes no role, all roles have the same places. -/
theorem Field.place_congr {p : Place} (hsame : ∀ q ≠ p, args' q = args q)
    (h : ¬ TakesRole args p) (h' : ¬ TakesRole args' p) (role : Field) :
    role.place args' = role.place args :=
  find?_congr_of_ne (fun q hq => by rw [hsame q hq]) (fun hplace => h' ⟨role, hplace⟩)
    fun hplace => h ⟨role, hplace⟩

/-- Roles depend only on the arguments that take them. -/
theorem TakenFrom.congr (h : roles.TakenFrom args)
    (hplace : ∀ role : Field, role.place args' = role.place args)
    (hsame : ∀ p, TakesRole args p → args' p = args p) : roles.TakenFrom args' where
  attributes := by
    rw [h.attributes, hplace]
    cases hp : Field.attributes.place args with
    | none => rfl
    | some p => simp [hsame p ⟨_, hp⟩]
  content := by
    have hcontent := h.content
    rw [hplace]
    cases hp : Field.content.place args with
    | none => simpa [hp] using hcontent
    | some p => simpa [hp, hsame p ⟨_, hp⟩] using hcontent
  children := by
    have hchildren := h.children
    rw [hplace]
    cases hp : Field.children.place args with
    | none => simpa [hp] using hchildren
    | some p => simpa [hp, hsame p ⟨_, hp⟩] using hchildren

/-- Arguments that differ at a place that takes no role have the same roles. -/
theorem resolve_congr {p : Place} (hsame : ∀ q ≠ p, args' q = args q)
    (h : ¬ TakesRole args p) (h' : ¬ TakesRole args' p) :
    resolve (args' .first) (args' .second) (args' .third) =
      resolve (args .first) (args .second) (args .third) := by
  obtain ⟨roles, hresolve, htaken⟩ := exists_takenFrom args
  rw [hresolve]
  refine (htaken.congr (Field.place_congr hsame h h') fun q hq => hsame q ?_).resolve
  rintro rfl
  exact h hq

/-! ## The normal form -/

/-- Before a text, a text or a map is taken for attributes. -/
theorem place_attributes_of_shapes {source : AttributeSource} {content : String}
    (hone : firstAttributes? (args .first) = some source)
    (htwo : args .second = .text content) : Field.attributes.place args = some .first := by
  have hfirst : Field.attributes.suits .first (args .first) = true := by
    simp [← firstAttributes?_isSome, hone]
  rw [Field.place_attributes, hfirst, htwo]
  rfl

/-- A text or a map, a text and a list have the roles of attributes, content and children. -/
theorem takenFrom_of_shapes {l : Nat} {items : List Term}
    (hone : firstAttributes? (args .first) = some roles.attributes)
    (htwo : args .second = .text roles.content) (hthree : args .third = .list l items)
    (hitems : List.Forall₂ Becomes items roles.children) : roles.TakenFrom args := by
  have hcontent : Field.content.place args = some .second := by
    simp [Field.place, htwo, Field.suits, Term.shape]
  have hchildren : Field.children.place args = some .third := by
    simp [Field.place, hthree, Field.suits, Term.shape]
  constructor
  · simp [place_attributes_of_shapes hone htwo, hone]
  · simp [hcontent, htwo, primitiveText]
  · simpa [hchildren, hthree] using hitems

/-- The children among the roles are no numbers. -/
theorem TakenFrom.not_isNumber (h : roles.TakenFrom args) :
    ∀ child ∈ roles.children, child.isNumber = false := by
  intro child hchild
  have hchildren := h.children
  cases hplace : Field.children.place args <;> rw [hplace] at hchildren
  · rw [show roles.children = [] from hchildren] at hchild
    cases hchild
  · obtain ⟨items, -, hitems⟩ := hchildren
    obtain ⟨item, -, hbecomes⟩ := exists_mem_of_forall₂ hitems hchild
    exact hbecomes.not_isNumber

/-- The children that are no numbers become what they are. -/
theorem TakenFrom.becomes_self (h : roles.TakenFrom args) :
    List.Forall₂ Becomes roles.children roles.children :=
  List.forall₂_same.mpr fun child hchild => Roles.becomes_self (h.not_isNumber child hchild)

/-- The roles as arguments: a text or a map with some number, a text, and a list. -/
def normal (roles : Roles) (i l : Nat) : Place → Term
  | .first =>
    match roles.attributes with
    | .selector s => .text s
    | .entries es => .map i es
  | .second => .text roles.content
  | .third => .list l roles.children

/-- The roles of the roles as arguments are these roles. -/
theorem TakenFrom.normal (h : roles.TakenFrom args) (i l : Nat) :
    roles.TakenFrom (roles.normal i l) := by
  refine takenFrom_of_shapes ?_ rfl rfl h.becomes_self
  rw [Roles.normal]
  cases roles.attributes <;> rfl

end Roles

/-! ## The roles of values -/

namespace World

variable {w w' : World} {v : Value}

/-- What is there is read as an atom or as an object with other parts. -/
theorem Extends.cases_read (h : w.Extends w') (hv : w.Has v) : (∃ a, v = .atom a) ∨
    ∃ (id : Nat) (o : Object Value), v = .ref id ∧ w.objects[id]? = some o ∧
      w'.objects[id]? = some o := by
  cases v with
  | atom a => exact .inl ⟨a, rfl⟩
  | ref id =>
    obtain ⟨o, ho⟩ := exists_of_lt_size (hv id rfl).2
    exact .inr ⟨id, o, rfl, ho, h.kept ho⟩

/-- A value suits the same roles while objects are made. -/
theorem Extends.suits_eq (h : w.Extends w') (hv : w.Has v) (role : Roles.Field) (p : Roles.Place) :
    role.suits p (w'.read v) = role.suits p (w.read v) := by
  rcases h.cases_read hv with ⟨a, rfl⟩ | ⟨id, o, rfl, ho, ho'⟩
  · simp [read]
  · have hshape : (w'.read (.ref id)).shape = (w.read (.ref id)).shape := by
      rw [read_ref ho, read_ref ho']
      cases o <;> rfl
    have htext : (w'.read (.ref id)).text? = (w.read (.ref id)).text? := by
      rw [read_ref ho, read_ref ho']
      rfl
    cases role <;> cases p <;> simp only [Roles.Field.suits, hshape, htext]

/-- What is read as a number is read so again while objects are made. -/
theorem Extends.unfold_eq_of_isNumber (h : w.Extends w') {depth depth' : Nat}
    (hle : depth ≤ depth') (hv : (w.unfold true depth v).isNumber = true) :
    w'.unfold true depth' v = w.unfold true depth v := by
  cases v with
  | atom a => simp
  | ref id =>
    cases depth with
    | zero => cases hv
    | succ depth =>
      obtain ⟨depth', rfl⟩ := Nat.exists_eq_add_of_le' (Nat.le_trans (Nat.succ_pos depth) hle)
      cases ho : w.objects[id]? with
      | none =>
        rw [unfold, unfoldWith, ho] at hv
        cases hv
      | some o =>
        rw [unfold_ref ho] at hv ⊢
        rw [unfold_ref (h.kept ho)]
        cases o <;> first | rfl | cases hv

/-- What is no number stays none while objects are made. -/
theorem Extends.isNumber_readPart (h : w.Extends w') (hv : w.Has v) :
    (w'.readPart v).isNumber = (w.readPart v).isNumber := by
  rcases h.cases_read hv with ⟨a, rfl⟩ | ⟨id, o, rfl, ho, ho'⟩
  · simp [readPart]
  · obtain ⟨size, hsize⟩ := Nat.exists_eq_add_of_lt (lt_size ho)
    obtain ⟨size', hsize'⟩ := Nat.exists_eq_add_of_lt (lt_size ho')
    rw [readPart, readPart, hsize, hsize', unfold_ref ho, unfold_ref ho']
    cases o <;> rfl

/-- A primitive is read in the same way while objects are made. -/
theorem Extends.read_eq_of_primitive (h : w.Extends w') (hv : (w.read v).shape = .primitive) :
    w'.read v = w.read v := by
  rcases Roles.cases_primitive hv with ⟨a, ha⟩ | ⟨i, hi⟩
  · have hvalue := congrArg Term.toValue ha
    simp only [toValue_read, Term.toValue_atom] at hvalue
    simp [hvalue, read]
  · refine h.unfold_eq_of_isNumber (Nat.succ_le_succ h.size_le) ?_
    show (w.read v).isNumber = true
    rw [hi]
    rfl

/-- The items of a sequence are the same while objects are made, each as it is read then. -/
theorem exists_items_read (hv : (w.read v).shape = .sequence) : ∃ items,
    w.sequence? v = some items ∧
      ∀ w', w.Extends w' → (w'.read v).items = .ok (items.map w'.readPart) := by
  cases v with
  | atom a =>
    rw [read, unfold_atom] at hv
    cases a with
    | range p =>
      refine ⟨_, rfl, fun w' _ => ?_⟩
      simp [read, readPart, Term.items, Term.items?, Function.comp_def]
    | _ => cases hv
  | ref id =>
    cases ho : w.objects[id]? with
    | none =>
      rw [read, depthBound, unfold, unfoldWith, ho] at hv
      cases hv
    | some o =>
      rw [read_ref ho] at hv
      rw [sequence?, ho]
      cases o with
      | list items => exact ⟨items, rfl, fun w' hext => by rw [read_ref (hext.kept ho)]; rfl⟩
      | tuple items => exact ⟨items, rfl, fun w' hext => by rw [read_ref (hext.kept ho)]; rfl⟩
      | _ => cases hv

/-- What an item became as a child becomes what the item would become now. -/
theorem Extends.becomes (h : w.Extends w') {u : Value} (hu : w.Has u) {t t' : Term}
    (ht : Roles.Becomes (w.readPart u) t) (ht' : Roles.Becomes (w'.readPart u) t') :
    Roles.Becomes (w'.readPart t.toValue) t' ∧ t'.toValue = t.toValue := by
  cases hnumber : (w.readPart u).isNumber with
  | true =>
    rw [readPart, h.unfold_eq_of_isNumber h.size_le hnumber] at ht'
    obtain rfl := ht.unique ht'
    obtain ⟨s, -, rfl⟩ : ∃ s, Roles.primitiveText (w.readPart u) = .ok s ∧ t = .text s := by
      simpa [Roles.Becomes, hnumber] using ht
    rw [Term.toValue_atom, readPart, unfold_atom]
    exact ⟨Roles.becomes_self rfl, rfl⟩
  | false =>
    obtain rfl : t = w.readPart u := by simpa [Roles.Becomes, hnumber] using ht
    rw [← h.isNumber_readPart hu] at hnumber
    obtain rfl : t' = w'.readPart u := by simpa [Roles.Becomes, hnumber] using ht'
    simpa [readPart] using ht'

end World

/-! ## The same call -/

/-- No keyword names a parameter that is filled already. -/
theorem Call.not_mem_of_bind {α : Type} {taken : List String} {c : Call α}
    {r : Option α × Option α × Option α × List (String × α)} (h : c.bind taken = .ok r) :
    ∀ e ∈ c.kw, e.1 ∉ taken := by
  intro e he hmem
  have htaken : c.kw.any (taken.contains ·.1) = true :=
    List.any_eq_true.mpr ⟨e, he, by simpa using hmem⟩
  rw [bind, if_pos htaken] at h
  split at h <;> cases h

/-- Three arguments leave the same keywords, or are refused alike, whatever they are. -/
theorem Call.exists_bind_three {α : Type} (taken : List String) (kw : List (String × α)) :
    ∃ r : Except Fault (List (String × α)), ∀ one two three : α,
      Call.bind taken ⟨[one, two, three], kw⟩ =
        r.map fun kw => (some one, some two, some three, kw) := by
  by_cases htaken : kw.any (taken.contains ·.1) = true
  · refine ⟨.error .unsuitable, fun one two three => ?_⟩
    rw [Call.bind]
    dsimp only
    rw [if_pos htaken]
    rfl
  · rcases hone : take "one" kw with ⟨first, kw₁⟩
    rcases htwo : take "two" kw₁ with ⟨second, kw₂⟩
    rcases hthree : take "three" kw₂ with ⟨third, kw₃⟩
    refine ⟨if first.isSome || second.isSome || third.isSome then .error .unsuitable else .ok kw₃,
      fun one two three => ?_⟩
    rw [Call.bind]
    dsimp only
    rw [if_neg htaken, hone]
    dsimp only
    rw [htwo]
    dsimp only
    rw [hthree]
    cases first <;> cases second <;> cases third <;> rfl

namespace Operation

variable {w : World} {k : Nat} {made : Constructor Value}

/-- A constructor makes the same node of arguments that have the same roles. -/
theorem runIn_callValue_congr {one two three one' two' three' : Value}
    (hk : w.objects[k]? = some (.constructor made))
    (h : Roles.resolve (w.read one') (w.read two') (w.read three') =
      Roles.resolve (w.read one) (w.read two) (w.read three)) (kw : List (String × Value)) :
    (callValue (.ref k) ⟨[one', two', three'], kw⟩).runIn w =
      (callValue (.ref k) ⟨[one, two, three], kw⟩).runIn w := by
  obtain ⟨r, hbind⟩ := Call.exists_bind_three ["self"] kw
  have hcall : ∀ one two three : Value,
      (callValue (.ref k) ⟨[one, two, three], kw⟩).runIn w =
        (ofExcept r >>= fun kw =>
          Arguments.construct ⟨one, two, three, kw⟩ made.name made.isVoid).runIn w := by
    intro one two three
    rw [callValue, runIn_bind_ok (runIn_get hk)]
    show (callConstructor made _).runIn w = _
    rw [callConstructor, Arguments.ofCall, hbind]
    cases r <;> rfl
  rw [hcall, hcall]
  cases r with
  | error f => rfl
  | ok kw =>
    rw [runIn_bind_ok (runIn_ofExcept _ w), runIn_bind_ok (runIn_ofExcept _ w),
      runIn_construct_describe, runIn_construct_describe]
    dsimp only
    rw [describe, describe, h]

/-- What takes the role of attributes is the argument that gives them, or a new map. -/
theorem attributesOf_place (args : Roles.Place → Value) (w : World) :
    (attributesOf (args .first) (args .second)).runIn w =
      ((Roles.Field.attributes.place fun p => w.read (args p)).elim (makeMap []) fun p =>
        pure (args p)).runIn w := by
  rw [attributesOf, runIn_bind_ok (runIn_read _ w), Roles.secondAttributes?_isSome,
    Roles.Field.place_attributes]
  cases htwo : Roles.Field.attributes.suits .second (w.read (args .second)) with
  | true => rfl
  | false =>
    rw [if_neg (by simp), runIn_bind_ok (runIn_read _ w), Roles.firstAttributes?_isSome]
    cases hone : Roles.Field.attributes.suits .first (w.read (args .first)) <;> rfl

end Operation

/-! ## The normal form of values -/

/-- Three arguments at their places. -/
def Roles.Place.of {α : Type} (one two three : α) : Roles.Place → α
  | .first => one
  | .second => two
  | .third => three

namespace World

variable {w w' : World} {args normal : Roles.Place → Value} {roles roles' : Roles}

/-- All roles have the same places while objects are made. -/
theorem Extends.place_eq (h : w.Extends w') (hthere : ∀ p, w.Has (args p)) (role : Roles.Field) :
    (role.place fun p => w'.read (args p)) = role.place fun p => w.read (args p) := by
  simp only [Roles.Field.place, h.suits_eq (hthere _)]

/-- The content of arguments is the same while objects are made. -/
theorem Extends.content_eq (h : w.Extends w') (hthere : ∀ p, w.Has (args p))
    (hroles : roles.TakenFrom fun p => w.read (args p))
    (hroles' : roles'.TakenFrom fun p => w'.read (args p)) : roles'.content = roles.content := by
  have hbefore := hroles.content
  have hafter := hroles'.content
  rw [h.place_eq hthere] at hafter
  cases hplace : Roles.Field.content.place fun p => w.read (args p) with
  | none =>
    rw [hplace] at hbefore hafter
    exact Eq.trans hafter hbefore.symm
  | some p =>
    rw [hplace] at hbefore hafter
    have hshape : (w.read (args p)).shape = .primitive := by
      cases p <;> simpa [Roles.Field.suits] using Roles.Field.suits_of_place hplace
    rw [Option.elim_some, h.read_eq_of_primitive hshape] at hafter
    exact Except.ok.inj (hafter.symm.trans hbefore)

/-- The children of arguments are the same while objects are made, and become what they are. -/
theorem Extends.children_eq (h : w.Extends w') (hthere : ∀ p, w.HasAll (args p))
    (hroles : roles.TakenFrom fun p => w.read (args p))
    (hroles' : roles'.TakenFrom fun p => w'.read (args p)) :
    values roles'.children = values roles.children ∧
      List.Forall₂ Roles.Becomes ((values roles.children).map w'.readPart) roles'.children := by
  have hbefore := hroles.children
  have hafter := hroles'.children
  rw [h.place_eq fun p => (hthere p).1] at hafter
  cases hplace : Roles.Field.children.place fun p => w.read (args p) with
  | none =>
    rw [hplace] at hbefore hafter
    rw [show roles.children = [] from hbefore, show roles'.children = [] from hafter]
    exact ⟨rfl, .nil⟩
  | some p =>
    rw [hplace] at hbefore hafter
    have hshape : (w.read (args p)).shape = .sequence := by
      simpa [Roles.Field.suits] using Roles.Field.suits_of_place hplace
    obtain ⟨items, hgiven, hitems⟩ := exists_items_read hshape
    obtain ⟨_, hread, hbecomes⟩ := hbefore
    obtain ⟨_, hread', hbecomes'⟩ := hafter
    rw [hitems w (.refl w), Except.ok.injEq] at hread
    rw [hitems w' h, Except.ok.injEq] at hread'
    subst hread hread'
    rw [List.forall₂_map_left_iff] at hbecomes hbecomes'
    have hjoin : List.Forall₂ (fun t t' => Roles.Becomes (w'.readPart t.toValue) t' ∧
        t'.toValue = t.toValue) roles.children roles'.children :=
      forall₂_join hbecomes.flip hbecomes'.flip fun t _ t' u hu ht ht' =>
        h.becomes ((hthere p).2 items hgiven u hu) ht ht'
    refine ⟨?_, ?_⟩
    · rw [values, values, ← List.forall₂_eq_eq_eq, List.forall₂_map_left_iff,
        List.forall₂_map_right_iff]
      exact (hjoin.imp fun _ _ hjoined => hjoined.2).flip
    · rw [values, List.map_map, List.forall₂_map_left_iff]
      exact hjoin.imp fun _ _ hjoined => hjoined.1

/-- What gives the attributes of arguments: one of them, or an empty map that is new. -/
def GivesAttributes (w w' : World) (args : Roles.Place → Value) (v : Value) : Prop :=
  match Roles.Field.attributes.place fun p => w.read (args p) with
  | some p => v = args p ∧ w' = w
  | none => v = .ref w.objects.size ∧ w' = w.add (.map [])

/-- The attributes of arguments are found, and made if there are none. -/
theorem exists_attributesOf (w : World) (args : Roles.Place → Value) : ∃ v w',
    (attributesOf (args .first) (args .second)).runIn w = (.ok v, w') ∧
      w.GivesAttributes w' args v ∧ w.Extends w' := by
  rw [attributesOf_place]
  unfold GivesAttributes
  cases Roles.Field.attributes.place fun p => w.read (args p) with
  | none => exact ⟨_, _, rfl, ⟨rfl, rfl⟩, extends_add (Object.madeBetween_of_nil rfl)⟩
  | some p => exact ⟨_, _, rfl, ⟨rfl, rfl⟩, .refl w⟩

/-- What gives the attributes is read as a source of the attributes of the arguments. -/
theorem GivesAttributes.firstAttributes? {w₁ : World} {v : Value}
    (hv : w.GivesAttributes w₁ args v) (hthere : ∀ p, w.Has (args p)) (h : w.Extends w₁)
    (hlater : w₁.Extends w') (hroles' : roles'.TakenFrom fun p => w'.read (args p)) :
    Roles.firstAttributes? (w'.read v) = some roles'.attributes := by
  rw [hroles'.attributes, (h.trans hlater).place_eq hthere]
  rw [GivesAttributes] at hv
  cases hplace : Roles.Field.attributes.place fun p => w.read (args p) with
  | none =>
    rw [hplace] at hv
    obtain ⟨rfl, rfl⟩ := hv
    rw [read_ref (hlater.kept get_add_new)]
    rfl
  | some p =>
    rw [hplace] at hv
    obtain ⟨rfl, rfl⟩ := hv
    have hsuits : Roles.Field.attributes.suits .first (w'.read (args p)) = true := by
      have hplaced := Roles.Field.suits_of_place hplace
      rw [← hlater.suits_eq (hthere p)] at hplaced
      cases p <;> simp_all [Roles.Field.suits]
    rw [← Roles.firstAttributes?_isSome] at hsuits
    obtain ⟨source, hsource⟩ := Option.isSome_iff_exists.mp hsuits
    simp [hsource]

end World

namespace Operation

variable {w w₁ : World}

/-- The roles of values, and what gives their attributes. -/
theorem runIn_resolve {one two three given : Value} {roles : Roles}
    (h : Roles.resolve (w.read one) (w.read two) (w.read three) = .ok roles)
    (hgiven : (attributesOf one two).runIn w = (.ok given, w₁)) :
    (resolve one two three).runIn w =
      (.ok (given, .text roles.content, .ref w₁.objects.size),
        w₁.add (.list (values roles.children))) := by
  rw [resolve, runIn_bind_ok (runIn_read one w), runIn_bind_ok (runIn_read two w),
    runIn_bind_ok (runIn_read three w), h, runIn_bind_ok (runIn_ofExcept _ w),
    runIn_bind_ok hgiven]
  rfl

/-- Arguments that differ where no role is taken are resolved by the same run. -/
theorem runIn_resolve_congr {args args' : Roles.Place → Value} {p : Roles.Place}
    (hsame : ∀ q ≠ p, args' q = args q) (h : ¬ Roles.TakesRole (fun q => w.read (args q)) p)
    (h' : ¬ Roles.TakesRole (fun q => w.read (args' q)) p) :
    (resolve (args' .first) (args' .second) (args' .third)).runIn w =
      (resolve (args .first) (args .second) (args .third)).runIn w := by
  have hread : ∀ q ≠ p, w.read (args' q) = w.read (args q) := fun q hq => by rw [hsame q hq]
  have hroles := Roles.resolve_congr hread h h'
  have hplace := Roles.Field.place_congr hread h h' .attributes
  have hgiven : (attributesOf (args' .first) (args' .second)).runIn w =
      (attributesOf (args .first) (args .second)).runIn w := by
    rw [attributesOf_place, attributesOf_place, hplace]
    cases hq : Roles.Field.attributes.place fun q => w.read (args q) with
    | none => rfl
    | some q =>
      have hne : q ≠ p := by
        rintro rfl
        exact h ⟨_, hq⟩
      rw [Option.elim_some, Option.elim_some, hsame q hne]
  obtain ⟨roles, hresolve, -⟩ := Roles.exists_takenFrom fun q => w.read (args q)
  obtain ⟨given, w₁, hrun, -⟩ := World.exists_attributesOf w args
  rw [runIn_resolve hresolve hrun, runIn_resolve (hroles.trans hresolve) (hgiven.trans hrun)]

end Operation

/--
Values are the normal form of arguments: what gives their attributes, the text of their content and
a list of their children.  They are resolved to themselves, with a new list each time, and every
constructor makes the same node of them as of the arguments.
-/
structure World.NormalForm (w w' : World) (args : Roles.Place → Value) (roles : Roles)
    (given : Value) (l : Nat) : Prop where
  taken : roles.TakenFrom fun p => w.read (args p)
  run : (Operation.resolve (args .first) (args .second) (args .third)).runIn w =
    (.ok (given, .text roles.content, .ref l), w')
  kept : w.Extends w'
  attributes : (∃ s, given = .text s) ∨ ∃ es, w'.entries? given = some es
  argument : ∀ p, (Roles.Field.attributes.place fun p => w.read (args p)) = some p → given = args p
  fresh : w.objects.size ≤ l
  children : w'.objects[l]? = some (.list (values roles.children))
  again : (Operation.resolve given (.text roles.content) (.ref l)).runIn w' =
    (.ok (given, .text roles.content, .ref w'.objects.size),
      w'.add (.list (values roles.children)))
  call : ∀ (k : Nat) (made : Constructor Value) (kw : List (String × Value)),
    w.objects[k]? = some (.constructor made) →
      (callValue (.ref k) ⟨[given, .text roles.content, .ref l], kw⟩).runIn w' =
        (callValue (.ref k) ⟨[args .first, args .second, args .third], kw⟩).runIn w'

/-- Arguments that are there have a normal form. -/
theorem World.exists_normalForm {w : World} {args : Roles.Place → Value}
    (hthere : ∀ p, w.HasAll (args p)) : ∃ roles given l w', w.NormalForm w' args roles given l := by
  obtain ⟨roles, hresolve, htaken⟩ := Roles.exists_takenFrom fun p => w.read (args p)
  obtain ⟨given, w₁, hrun, hgives, hext⟩ := exists_attributesOf w args
  obtain ⟨w', hw'⟩ : ∃ w', w' = w₁.add (.list (values roles.children)) := ⟨_, rfl⟩
  have hlater : w₁.Extends w' := hw' ▸ extends_add (Object.madeBetween_of_nil rfl)
  have hlist : w'.objects[w₁.objects.size]? = some (.list (values roles.children)) :=
    hw' ▸ get_add_new
  have hkept := hext.trans hlater
  -- the arguments and their normal form have the same roles in the new world
  obtain ⟨roles', hresolve', htaken'⟩ := Roles.exists_takenFrom fun p => w'.read (args p)
  have hsource := hgives.firstAttributes? (fun p => (hthere p).1) hext hlater htaken'
  have hcontent := hkept.content_eq (fun p => (hthere p).1) htaken htaken'
  obtain ⟨hchildren, hbecomes⟩ := hkept.children_eq hthere htaken htaken'
  have htext : w'.read (.text roles.content) = .text roles'.content := by
    rw [read, unfold_atom, hcontent]
  have hshaped : roles'.TakenFrom (Roles.Place.of (w'.read given) (w'.read (.text roles.content))
      (w'.read (.ref w₁.objects.size))) :=
    Roles.takenFrom_of_shapes hsource htext (read_ref hlist) hbecomes
  have hnormal := hshaped.resolve
  have hgiven : (attributesOf given (.text roles.content)).runIn w' = (.ok given, w') := by
    have hplace := attributesOf_place (Roles.Place.of given (.text roles.content) .none) w'
    rw [Roles.place_attributes_of_shapes hsource htext] at hplace
    exact hplace
  refine ⟨roles, given, w₁.objects.size, w', htaken, hw' ▸ runIn_resolve hresolve hrun, hkept, ?_,
    fun p hp => ?_, hext.size_le, hlist, ?_, fun k made kw hk => ?_⟩
  · by_cases htextual : ∃ s, given = .text s
    · exact .inl htextual
    · rw [firstAttributes?_read (by simpa using htextual), secondAttributes?_read,
        Option.map_eq_some_iff] at hsource
      exact .inr (hsource.imp fun es hes => hes.1)
  · rw [GivesAttributes, hp] at hgives
    exact hgives.1
  · rw [runIn_resolve hnormal hgiven, hcontent, hchildren]
  · exact runIn_callValue_congr (hkept.kept hk) (hnormal.trans hresolve'.symm) kw

/-! ## The main result -/

/-- A call that is matched with the parameters is the call with the three arguments. -/
theorem Operation.runIn_callValue_arguments {w : World} {k : Nat} {made : Constructor Value}
    {c : Call Value} {a : Arguments} (hk : w.objects[k]? = some (.constructor made))
    (ha : Arguments.ofCall ["self"] c = .ok a) :
    (callValue (.ref k) c).runIn w =
      (callValue (.ref k) ⟨[a.one, a.two, a.three], a.kw⟩).runIn w := by
  have hagain : Arguments.ofCall ["self"] ⟨[a.one, a.two, a.three], a.kw⟩ = .ok a := by
    refine Arguments.ofCall_full fun e he => ?_
    obtain ⟨hmem, hone, htwo, hthree⟩ := Arguments.mem_of_ofCall ha e he
    obtain ⟨_, hbind, -⟩ := ok_of_bind ha
    have hself := Call.not_mem_of_bind hbind e hmem
    simp_all [parameters]
  rw [callValue, callValue, runIn_bind_ok (runIn_get hk), runIn_bind_ok (runIn_get hk)]
  show (callConstructor made _).runIn w = (callConstructor made _).runIn w
  rw [callConstructor, callConstructor, ha, hagain]

open Roles in
/--
Every call has a normal form.  Three arguments always have roles, and the roles, given as a text or
a map, a text and a list, have themselves for roles; among the children are no numbers.  So values
are resolved to their normal form, and a constructor makes the same node of the one as of the other,
or refuses both alike; with fewer arguments, or with keywords for them, it is called as with all
three.  An argument that takes no role can be exchanged for another one that takes none.
-/
theorem call_normal_form :
    (∀ args : Place → Term, ∃ roles : Roles,
      Roles.resolve (args .first) (args .second) (args .third) = .ok roles ∧
        roles.TakenFrom args ∧ (∀ child ∈ roles.children, child.isNumber = false) ∧
        ∀ i l, Roles.resolve (roles.normal i l .first) (roles.normal i l .second)
          (roles.normal i l .third) = .ok roles) ∧
    (∀ (w : World) (args : Place → Value), (∀ p, w.HasAll (args p)) →
      ∃ roles given l w', w.NormalForm w' args roles given l) ∧
    (∀ (w : World) (k : Nat) (made : Constructor Value) (c : Call Value) (a : Arguments),
      w.objects[k]? = some (.constructor made) → Arguments.ofCall ["self"] c = .ok a →
        (callValue (.ref k) c).runIn w =
          (callValue (.ref k) ⟨[a.one, a.two, a.three], a.kw⟩).runIn w) ∧
    ∀ (w : World) (args : Place → Value) (p : Place) (v : Value),
      ¬ TakesRole (fun q => w.read (args q)) p →
      ¬ TakesRole (fun q => w.read (Function.update args p v q)) p →
        (Operation.resolve (Function.update args p v .first) (Function.update args p v .second)
            (Function.update args p v .third)).runIn w =
          (Operation.resolve (args .first) (args .second) (args .third)).runIn w ∧
        ∀ (k : Nat) (made : Constructor Value) (kw : List (String × Value)),
          w.objects[k]? = some (.constructor made) →
            (callValue (.ref k) ⟨[Function.update args p v .first,
                Function.update args p v .second, Function.update args p v .third], kw⟩).runIn w =
              (callValue (.ref k) ⟨[args .first, args .second, args .third], kw⟩).runIn w := by
  refine ⟨fun args => ?_, fun w args => World.exists_normalForm,
    fun w k made c a => runIn_callValue_arguments, fun w args p v h h' => ?_⟩
  · obtain ⟨roles, hresolve, htaken⟩ := exists_takenFrom args
    exact ⟨roles, hresolve, htaken, htaken.not_isNumber, fun i l => (htaken.normal i l).resolve⟩
  · have hsame : ∀ q ≠ p, Function.update args p v q = args q :=
      fun q hq => Function.update_of_ne hq v args
    refine ⟨runIn_resolve_congr hsame h h', fun k made kw hk => ?_⟩
    exact runIn_callValue_congr hk (resolve_congr (fun q hq => by rw [hsame q hq]) h h') kw

/-- A constructor, a map for attributes, and a list with numbers for children. -/
def World.withForms : World := .ofObjects #[.constructor ⟨.text "p", .bool false⟩,
  .map [(.text "id", .text "x")], .list [.int 1, .text "a", .bool true]]

/-- A selector before a map takes no role, and a list can be given by its name. -/
theorem call_normal_form_overridden :
    (∃ roles given l w', World.withForms.NormalForm w'
      (Roles.Place.of (.text ".c") (.ref 1) (.ref 2)) roles given l) ∧
    (callValue (.ref 0) ⟨[.none, .ref 1, .ref 2], []⟩).runIn .withForms =
      (callValue (.ref 0) ⟨[.text ".c", .ref 1, .ref 2], []⟩).runIn .withForms ∧
    (callValue (.ref 0) ⟨[.text ".c"], [("three", .ref 2), ("lang", .text "en")]⟩).runIn
        .withForms =
      (callValue (.ref 0) ⟨[.text ".c", .none, .ref 2], [("lang", .text "en")]⟩).runIn
        .withForms := by
  obtain ⟨-, hform, hcall, hexchange⟩ := call_normal_form
  have hthere : ∀ p, World.withForms.HasAll (Roles.Place.of (.text ".c") (.ref 1) (.ref 2) p) := by
    intro p
    cases p <;> simp [Roles.Place.of, World.HasAll, World.Has, World.sequence?, World.withForms,
      World.ofObjects, Value.Between]
  have hbefore : ¬ Roles.TakesRole (fun q => World.withForms.read
      (Roles.Place.of (.text ".c") (.ref 1) (.ref 2) q)) .first := by
    rintro ⟨role, hrole⟩
    revert hrole
    cases role <;> decide
  have hafter : ¬ Roles.TakesRole (fun q => World.withForms.read (Function.update
      (Roles.Place.of (.text ".c") (.ref 1) (.ref 2)) .first .none q)) .first := by
    rintro ⟨role, hrole⟩
    revert hrole
    cases role <;> decide
  have hmatched : Arguments.ofCall ["self"]
      ⟨[.text ".c"], [("three", .ref 2), ("lang", .text "en")]⟩ =
        .ok ⟨.text ".c", .none, .ref 2, [("lang", .text "en")]⟩ := by
    simp [Arguments.ofCall, Call.bind, Call.take, Call.parameter]
  exact ⟨hform _ _ hthere, (hexchange .withForms _ _ _ hbefore hafter).2 0 _ [] rfl,
    hcall .withForms 0 _ _ ⟨.text ".c", .none, .ref 2, [("lang", .text "en")]⟩ rfl hmatched⟩

/-- Numbers among the children are texts, and of two sequences the last one is read. -/
example : ((callValue (.ref 0) ⟨[.ref 2, .int 5], []⟩ >>= render).runIn .withForms).1 =
      .ok "<p>51atrue</p>" ∧
    ((callValue (.ref 0) ⟨[.ref 2, .atom (.range (.below 2))], []⟩ >>= render).runIn
      .withForms).1 = .ok "<p>01</p>" :=
  ⟨by decide +kernel, by decide +kernel⟩

end Markup
