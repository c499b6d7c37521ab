import Markup.Fault
import Markup.Object

/-!
# Browsers

Pages, their nodes and the proxies of listeners are not made by the library: it asks a browser for
them, for one thing at a time (`PageRequest`).  How a browser answers is up to it.  It may make
objects or refuse, and take all that it was asked before into account.

`Browser.Faithful` is what the library relies on.  It says nothing of whether a request is refused,
nor of what a page makes of it.
-/

namespace Markup

/-- What a browser is asked for: something of a page or of one of its nodes, or a proxy. -/
inductive PageRequest where
  | createElement (page name : Value)
  | createTextNode (page text : Value)
  | setAttribute (node key value : Value)
  | setProperty (node : Value) (property : ElementProperty) (value : Value)
  | createProxy (listener : Value)
  | addEventListener (node event proxy : Value)
  | appendChild (parent child : Value)
deriving DecidableEq

/-- Whether a request is for something new. -/
def PageRequest.makes : PageRequest → Bool
  | createElement .. | createTextNode .. | createProxy _ => true
  | _ => false

/-- A request and what became of it. -/
structure Exchange where
  request : PageRequest
  answer : Except Fault Value

/-- What answers requests. -/
structure Browser where
  /--
  The answer to a request, and the objects that there are then; it may depend on what was asked and
  answered earlier.
  -/
  answer (earlier : List Exchange) (request : PageRequest) (objects : Array (Object Value)) :
    Except Fault Value × Array (Object Value)

namespace Browser

/-- Where there is no browser, each request is refused. -/
def absent : Browser := ⟨fun _ _ objects => (.error .missingMember, objects)⟩

instance : Inhabited Browser := ⟨absent⟩

/--
What is taken for granted of a browser: it leaves the objects that there are as they are, all that
it makes is its own, and each node and each proxy that it gives is new.
-/
structure Faithful (browser : Browser) : Prop where
  keeps (earlier : List Exchange) (r : PageRequest) (objects : Array (Object Value)) :
    ∃ made : List String, (browser.answer earlier r objects).2 =
      objects ++ (made.map Object.foreign).toArray
  fresh (earlier : List Exchange) (r : PageRequest) (objects : Array (Object Value)) :
    r.makes = true → ∀ v, (browser.answer earlier r objects).1 = .ok v →
      ∃ i, v = .ref i ∧ objects.size ≤ i ∧ i < (browser.answer earlier r objects).2.size

end Browser

end Markup
