import Markup.Term.Basic

/-!
# Equality of terms

`Term.eq` compares values by content: numbers across their types, sequences item by item, maps
key by key and sets item by item in any order, nodes field by field.  What can be called equals what
is of the same kind, and any other object equals only itself.
`Term.same` is what holds two items together inside a sequence or a map: they are the same
object, or equal.  The two differ only on a float that is no number, which is the same as itself
without equalling itself.

Keys of maps are compared by `same`, which is therefore the `==` of terms.
-/

namespace Markup.Term

/-- Whether two terms are the same object, or the same atom. -/
def identical : Term → Term → Bool
  | .atom a, .atom b => a == b
  | .object i _, .object j _ => i == j
  | _, _ => false

mutual

/-- Whether two terms are equal as values. -/
def eq : Term → Term → Bool
  | .atom a, .atom b => a.eq b
  | .atom (.bytes bs), .object _ (.buffer cs) => bs == cs
  | .object _ (.buffer bs), .atom (.bytes cs) => bs == cs
  | .object _ (.buffer bs), .object _ (.buffer cs) => bs == cs
  | .list _ xs, .list _ ys => allSame xs ys
  | .tuple _ xs, .tuple _ ys => allSame xs ys
  | .map _ es, .map _ fs => es.length == fs.length && allFound fs es
  | .node _ m, .node _ n => fieldsEq m n
  | .object _ (.frozenSet xs), .object _ (.frozenSet ys) => xs.length == ys.length && allAmong ys xs
  | .object _ .notANumber, _ => false
  | .object i (.listener _ _ kind _), .object j (.listener _ _ kind' _) =>
    i == j || (kind.isSome && kind == kind')
  | .object i _, .object j _ => i == j
  | _, _ => false

/-- Whether two lists hold the same items in the same places. -/
def allSame : List Term → List Term → Bool
  | [], [] => true
  | x :: xs, y :: ys => (identical x y || eq x y) && allSame xs ys
  | _, _ => false

/-- Whether each item has a partner in `ys`. -/
def allAmong (ys : List Term) : List Term → Bool
  | [] => true
  | x :: xs => ys.any (fun y => identical x y || eq x y) && allAmong ys xs

/-- Whether each entry has a partner in `fs`, with the same key and the same value. -/
def allFound (fs : List (Term × Term)) : List (Term × Term) → Bool
  | [] => true
  | (k, v) :: es =>
    (match fs.find? fun f => identical k f.1 || eq k f.1 with
      | some f => identical v f.2 || eq v f.2
      | .none => false) && allFound fs es

/-- Whether two nodes agree in every field. -/
def fieldsEq : Node Term → Node Term → Bool
  | ⟨name, isVoid, id, classes, style, listeners, attrs, content, children⟩, n =>
    eq name n.name && eq isVoid n.isVoid && eq id n.id && eq classes n.classes &&
      eq style n.style && eq listeners n.listeners && eq attrs n.attrs &&
      eq content n.content && eq children n.children

end

/-- Whether two terms count as the same item or key. -/
def same (a b : Term) : Bool := identical a b || eq a b

/-- Keys are compared as items are. -/
instance : BEq Term := ⟨same⟩

theorem beq_def (a b : Term) : (a == b) = same a b := rfl

@[simp] theorem text_beq_text (s t : String) : (Term.text s == Term.text t) = (s == t) := by
  rw [Bool.eq_iff_iff]
  simp [beq_def, same, identical, eq, Atom.eq, Atom.toInt?]

/-- Only a text is equal to a text. -/
theorem eq_text_iff {t : Term} {s : String} : eq t (.text s) = true ↔ t = .text s := by
  cases t with
  | atom a => cases a <;> simp [eq, Atom.eq, Atom.toInt?]
  | object id o => cases o <;> simp [eq]

end Markup.Term
