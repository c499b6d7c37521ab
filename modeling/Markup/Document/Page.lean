import Markup.Document.Assignment
import Markup.Document.Host

/-!
# Documents over pages

A browser document passes each capability on to its page, or to the node of it that the capability
is about, and the browser answers.  A listener is handed over as a proxy, which is only possible
where the host offers proxies.

The ambient document is the browser document over the page that can be found from anywhere.  It
is settled by the first look-up that succeeds; a look-up that fails settles nothing.
-/

namespace Markup.Operation

/-- Sets an attribute of a page node. -/
def setPageAttribute (target key value : Value) : Operation Unit := do
  discard <| request target "setAttribute" ⟨[key, value], []⟩
    (askBrowser (.setAttribute target key value))

/-- Registers a listener of a page node, which is handed over as a proxy. -/
def addPageListener (target event listener : Value) : Operation Unit := do
  unless (← getThe World).proxies do fail .noProxies
  discard <| find target "addEventListener"
  let proxy ← askBrowser (.createProxy listener)
  discard <| request target "addEventListener" ⟨[event, proxy], []⟩
    (askBrowser (.addEventListener target event proxy))

/-- Appends a page node to another one. -/
def appendToPageNode (parent child : Value) : Operation Unit := do
  discard <| request parent "appendChild" ⟨[child], []⟩ (askBrowser (.appendChild parent child))

/-- Asks the page of a document for a new element. -/
def askPageElement (document name : Value) : Operation Value := do
  let page ← member document "document"
  request page "createElement" ⟨[name], []⟩ (askBrowser (.createElement page name))

/-- Asks the page of a document for a new text node. -/
def askPageText (document text : Value) : Operation Value := do
  let page ← member document "document"
  request page "createTextNode" ⟨[text], []⟩ (askBrowser (.createTextNode page text))

/-- A document over a page. -/
def pageHost (document : Value) : Host Operation Value where
  createElement := askPageElement document
  createTextNode := askPageText document
  setAttribute := setPageAttribute
  setProperty e property value := setMember e property.name value
  addEventListener := addPageListener
  appendChild := appendToPageNode
  keepVoid := keepVoidIfElement

/-- A document over a page. -/
def makeBrowserDocument (page : Value) : Operation Value := make (.browserDocument page [])

/-- Puts a page where it can be found from anywhere, with or without proxies. -/
def installPage (page : Nat) (proxies : Bool) : Operation Unit :=
  modifyThe World fun w => { w with page := some page, proxies }

/-- Takes away the page and the proxies. -/
def removePage : Operation Unit :=
  modifyThe World fun w => { w with page := none, proxies := false }

/-- The ambient document. -/
def ambientDocument : Operation Value := do
  let w ← getThe World
  match w.ambient with
  | some id => return .ref id
  | none =>
    match w.page with
    | none => fail .noAmbientDocument
    | some page =>
      let made ← allocate (.browserDocument (.ref page) [])
      modifyThe World fun w => { w with ambient := some made }
      return .ref made

end Markup.Operation
