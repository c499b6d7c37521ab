import Markup.Document.Memory

/-!
# Assigning members

`Operation.setMember` assigns a member of any value that lets it.  Assigning the id or the class
name of an element is reported to its document, and of what a browser made, to the browser; every
other assignment only changes the object.
-/

namespace Markup

/-- The property of elements with a name. -/
def ElementProperty.ofName? (name : String) : Option ElementProperty :=
  [ElementProperty.id, .className].find? (·.name = name)

namespace Operation

/-- Replaces the arguments of an error by the items of a value. -/
def setArguments (id : Nat) (c : ErrorClass) (extras : List (String × Value)) (value : Value) :
    Operation Unit := do
  put id (.error c (← listedItems value) extras)

/-- Assigns a member by name. -/
def setMember (v : Value) (name : String) (value : Value) : Operation Unit := do
  match ← objectOf v, ElementProperty.ofName? name with
  | some (_, .element _), some property => setElementProperty v property value
  | some (_, .foreign _), some property => discard <| askBrowser (.setProperty v property value)
  | some (id, .error c arguments extras), _ =>
    if name = "args" then setArguments id c extras value
    else put id (.error c arguments (Entries.set extras name value))
  | some (id, o), _ =>
    match o.assign? name value with
    | some o => put id o
    | none => fail .missingMember
  | none, _ => fail .missingMember

end Operation

end Markup
