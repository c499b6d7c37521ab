import Markup.Document.OuterHtml
import Markup.Proofs.Document.Building

/-!
# The text of an element in memory

`ElementTree.outer` writes a tree of elements: a property is shown unless it is empty, the style
comes before the other attributes, and a void element that writes nothing inside has no closing tag.
Every value that holds a tree of elements gives this text when it is asked for its own
(`runIn_outerHtml`).
-/

namespace Markup

/-! ## The written form of elements -/

/-- The pair of a property, unless it is empty. -/
def propertyPairs (key value : String) : List (String × String) :=
  if value = "" then [] else [(key, value)]

/-- The pairs that the opening tag of an element shows, in order. -/
def ElementParts.pairs (p : ElementParts) : List (String × String) :=
  propertyPairs "id" p.id ++ propertyPairs "class" p.className ++
    ((p.attributes.get? "style").map ("style", ·)).toList ++
    p.attributes.filter fun e => !e.1 == "style"

namespace ElementTree

open Html (openingTag closingTag)

mutual

/-- The written form of a tree of elements. -/
def outer : ElementTree → String
  | .text s => Text.escape s
  | .element p children =>
    if p.isVoid && outerOf children == "" then openingTag p.name p.pairs
    else openingTag p.name p.pairs ++ outerOf children ++ closingTag p.name

/-- The written forms of some trees of elements, one after the other. -/
def outerOf : List ElementTree → String
  | [] => ""
  | t :: ts => t.outer ++ outerOf ts

end

end ElementTree

/-! ## The text of what is held -/

namespace Html

theorem propertyPair_text (key value : String) :
    propertyPair key (.text value) = .ok (propertyPairs key value) := by
  rw [propertyPair, propertyPairs]
  by_cases h : value = ""
  · rw [h]
    rfl
  · have htrue : (Term.text value).truthy = true := by simp [Term.truthy, Atom.truthy, h]
    rw [if_pos htrue, if_neg h, Term.plain_text]
    rfl

theorem elementStyle_texts (id : Nat) (m : Entries String String) :
    elementStyle (.map id (m.stored .text .text)) =
      .ok ((m.get? "style").map ("style", ·)).toList := by
  rw [elementStyle, Entries.get?_stored]
  cases m.get? "style" with
  | none => rfl
  | some s =>
    show (do return [("style", ← Term.plain (.text s))] : Except Fault _) = _
    rw [Term.plain_text]
    rfl

theorem elementPairs_texts (p : ElementParts) (id : Nat) :
    elementPairs (.text p.id) (.text p.className) (.map id (p.attributes.stored .text .text)) =
      .ok p.pairs := by
  have hothers : ((p.attributes.stored Term.text Term.text).filter
      fun e => !e.1 == .text "style").mapM (fun e => do
        let key ← e.1.plain
        return (key, ← e.2.plain) : Term × Term → Except Fault (String × String)) =
      .ok (p.attributes.filter fun e => !e.1 == "style") := by
    rw [Entries.stored, List.filter_map, List.mapM_map]
    have hkey : (fun e : Term × Term => !e.1 == .text "style") ∘
        (fun e : String × String => (Term.text e.1, Term.text e.2)) =
        fun e => !e.1 == "style" := funext fun e => by simp
    rw [hkey]
    refine (mapM_eq_ok fun e _ => ?_).trans (congrArg _ (List.map_id _))
    simp
  rw [elementPairs, propertyPair_text, ok_bind, propertyPair_text, ok_bind, elementStyle_texts,
    ok_bind, Term.entries_map, ok_bind, hothers]
  rfl

/-- Only elements and text nodes have a text among children. -/
theorem of_outerChild_eq_ok {t : Term} {text : String} (h : outerChild t = .ok text) :
    (∃ id e, t = .object id (.element e) ∧ outerElement e = .ok text) ∨
      ∃ id data extras, t = .object id (.textNode data extras) ∧ escapeTerm data = .ok text := by
  unfold outerChild at h
  split at h
  · split at h
    · cases h
    · exact .inl ⟨_, _, rfl, h⟩
  · split at h
    · cases h
    · exact .inr ⟨_, _, _, rfl, h⟩
  · cases h

end Html

namespace World

variable {w : World} {d lo hi depth : Nat} {aside : Value → Term} {v : Value} {t : ElementTree}

theorem outerAll_of_holds {ts : List ElementTree} {vs : List Value}
    (hts : ∀ t ∈ ts, ∀ {lo' hi' v}, w.Holds d lo' hi' v t → hi' - lo' < depth →
      Html.outerChild (w.unfoldWith false aside depth v) = .ok t.outer)
    (h : w.HoldsAll d lo hi vs ts) (hdepth : hi - lo < depth) :
    Html.outerAll (vs.map (w.unfoldWith false aside depth)) = .ok (ElementTree.outerOf ts) := by
  induction ts generalizing lo vs with
  | nil =>
    obtain ⟨rfl, -⟩ := h
    rfl
  | cons t ts ih =>
    obtain ⟨v, rest, mid, rfl, hv, hrest⟩ := h
    have hlo := hv.le
    have hhi := hrest.le
    have hfirst := hts t List.mem_cons_self hv (by omega)
    have hlater := ih (fun u hu => hts u (List.mem_cons_of_mem t hu)) hrest (by omega)
    rw [List.map_cons, Html.outerAll, hfirst, ok_bind, hlater]
    rfl

/-- What is held has its text, unfolded deep enough for all its objects. -/
theorem outerChild_of_holds (h : w.Holds d lo hi v t) (hdepth : hi - lo < depth) :
    Html.outerChild (w.unfoldWith false aside depth v) = .ok t.outer := by
  induction t generalizing v lo hi depth with
  | text s =>
    obtain ⟨id, rfl, hlo, hhi, hid⟩ := h
    obtain ⟨n, rfl⟩ : ∃ n, depth = n + 1 := ⟨depth - 1, by omega⟩
    rw [unfoldWith, hid]
    simp [Object.mapParts, mapNamed, Html.outerChild, Html.escapeTerm, ElementTree.outer]
  | element p children ih =>
    obtain ⟨c, mid, vs, rfl, hall, hparts, hbelow⟩ := h
    -- an element has objects enough for the two steps from it to its children
    have hroom : lo + 2 ≤ mid := by
      have hne := (distinct_cells hparts.nodup).1.1
      have helement := hall c.element (by simp [Cells.all])
      have hattributes := hall c.attributes (by simp [Cells.all])
      omega
    have hle := hbelow.le
    obtain ⟨n, rfl⟩ : ∃ n, depth = n + 2 := ⟨depth - 2, by omega⟩
    have hattributes : w.unfoldWith false aside (n + 1) (.ref c.attributes) =
        .map c.attributes (p.attributes.stored .text .text) := by
      rw [unfoldWith, hparts.attributes]
      simp [Object.mapParts, Entries.stored, Function.comp_def]
    have hchildren : w.unfoldWith false aside (n + 1) (.ref c.childNodes) =
        .list c.childNodes (vs.map (w.unfoldWith false aside n)) := by
      rw [unfoldWith, hparts.childNodes]
      rfl
    have hinner : Html.outerAll (vs.map (w.unfoldWith false aside n)) =
        .ok (ElementTree.outerOf children) :=
      outerAll_of_holds (fun t ht => ih t ht) hbelow (by omega)
    have hvoid : (Term.atom (.bool p.isVoid)).truthy = p.isVoid := rfl
    rw [unfoldWith, hparts.element]
    simp only [ElementParts.object, Object.mapParts, Element.map, hattributes, hchildren,
      Bool.false_eq_true, if_false, unfoldWith_atom, mapNamed, List.map_nil]
    rw [Html.outerChild, if_neg (by simp [Entries.has]), Html.outerElement, Term.plain_text,
      ok_bind, Html.elementPairs_texts, ok_bind, Html.outerChildren, hinner, ok_bind, hvoid,
      ElementTree.outer]
    by_cases hopens : (p.isVoid && ElementTree.outerOf children == "") = true
    · rw [if_pos hopens, if_pos hopens]
      rfl
    · rw [if_neg hopens, if_neg hopens]
      rfl

end World

namespace Operation

open World

variable {w : World} {d lo : Nat} {v : Value}

/-- What has a text among children gives it when it is asked for its own. -/
theorem runIn_outerOf {text : String} (h : Html.outerChild (w.readInside v) = .ok text) :
    (do
      match ← readInside v with
      | .object _ (.element e) => return .text (← ofExcept (Html.outerElement e))
      | .object _ (.textNode data _) => return .text (← ofExcept (Html.escapeTerm data))
      | _ => fail .unsuitable : Operation Value).runIn w = (.ok (.text text), w) := by
  rw [runIn_bind_ok (runIn_readInside v w)]
  rcases Html.of_outerChild_eq_ok h with ⟨id, e, hread, htext⟩ | ⟨id, data, extras, hread, htext⟩
  · rw [hread]
    exact runIn_bind_ok (by rw [htext]; rfl)
  · rw [hread]
    exact runIn_bind_ok (by rw [htext]; rfl)

/-- An element that is held gives the text of its tree. -/
theorem runIn_outerHtml {p : ElementParts} {children : List ElementTree}
    (h : w.Holds d lo w.objects.size v (.element p children)) :
    (outerHtml v).runIn w = (.ok (.text (ElementTree.element p children).outer), w) := by
  have hchild : Html.outerChild (w.readInside v) =
      .ok (ElementTree.element p children).outer :=
    outerChild_of_holds h (by rw [World.depthBound]; omega)
  obtain ⟨c, mid, vs, rfl, -, hparts, -⟩ := h
  exact (runIn_request hparts.element rfl rfl _ _).trans (runIn_outerOf hchild)

end Operation

end Markup
