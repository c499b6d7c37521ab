import Markup.Value

/-!
# Calls on a document

A document is only ever asked for five capabilities, and an element has two properties that
can be assigned.  `DocumentCall` is one such request.  Elements are named by their label: the
tag name, or `#text` for a text node.
-/

namespace Markup

/-- The properties of an element that are assigned rather than set as attributes. -/
inductive ElementProperty where
  | id
  | className
deriving DecidableEq

/-- The name of a property. -/
def ElementProperty.name : ElementProperty → String
  | .id => "id"
  | .className => "className"

/-- A request to a document, or an assignment to one of its elements. -/
inductive DocumentCall where
  | createElement (name : Value)
  | createTextNode (text : Value)
  | setAttribute (label key value : Value)
  | setProperty (label : Value) (property : ElementProperty) (value : Value)
  | addEventListener (label event listener : Value)
  | appendChild (parent child : Value)
deriving DecidableEq

namespace DocumentCall

/-- The label of a text node. -/
def textLabel : Value := .text "#text"

/-- A call as a recording document lists it: the capability, then what it was given. -/
def entry : DocumentCall → List Value
  | .createElement name => [.text "create_element", name]
  | .createTextNode text => [.text "create_text_node", text]
  | .setAttribute label key value => [.text "set_attribute", label, key, value]
  | .setProperty label property value => [.text "set_property", label, .text property.name, value]
  | .addEventListener label event listener =>
    [.text "add_event_listener", label, event, listener]
  | .appendChild parent child => [.text "append_child", parent, child]

end DocumentCall

end Markup
