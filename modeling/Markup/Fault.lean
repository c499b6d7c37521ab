import Markup.Value

/-!
# Faults

`Fault` names the causes for which an operation of the library fails.  Each has a class, and
those that the library states itself carry a message, or the key that was looked up.  A fault
that carries nothing is one of the host's own: the operation was asked of a value that does not
have it.
-/

namespace Markup

/-- Why an operation failed. -/
inductive Fault where
  /-- A node has a child that is neither a text nor a node. -/
  | invalidChild (typeName shown : String)
  /-- A node was to be made without a name. -/
  | emptyNodeName
  /-- An element was to be registered without a name. -/
  | emptyElementName
  /-- An element was registered again with another void flag; `shown` is its name in quotes. -/
  | conflictingFlag (name : Value) (shown : String) (existing incoming : Value)
  /-- A key that nothing is held under; `shown` is the key as it is written. -/
  | missingKey (key : Value) (shown : String)
  /-- A name that starts with an underscore never names an element. -/
  | hiddenName (name : String)
  /-- The registry has no element that this name stands for. -/
  | noSuchElement (member : String)
  /-- The listing of the default registry has no such name. -/
  | noSuchExport (member : String)
  /-- A node was made without going through a constructor. -/
  | directConstruction (shown : String)
  /-- No page is there to take the place of a missing document. -/
  | noAmbientDocument
  /-- A listener or a visitor refused. -/
  | refused (message : String)
  /-- A value that cannot be gone through item by item. -/
  | notIterable (typeName : String)
  /-- An operand of a type that the operation is not for. -/
  | unsuitable
  /-- An operand of the right type whose value the operation is not for. -/
  | outOfBounds
  /-- A value without the member that the operation uses. -/
  | missingMember
  /-- The page offers no way to hand it a listener. -/
  | noProxies
  /-- A position outside a sequence. -/
  | outOfRange
  /-- A number too large to count with. -/
  | tooLarge
  /-- A text or a list too long to be held. -/
  | tooLong
  /-- A text that would have no end, of what contains itself. -/
  | endless
  /-- What a browser reports when it refuses a request. -/
  | foreign (className message : String)
  /-- A file stands where a directory is gone into. -/
  | notADirectory
  /-- A file stands where a directory is to be made. -/
  | fileExists
  /-- An argument that is an option ends the program before it starts. -/
  | usage
deriving DecidableEq

namespace Fault

/-- The class of a fault. -/
def errorClass : Fault → ErrorClass
  | .invalidChild .. | .notIterable _ | .unsuitable => .type
  | .emptyNodeName | .emptyElementName | .refused _ | .outOfBounds => .value
  | .conflictingFlag .. => .conflict
  | .missingKey .. => .key
  | .hiddenName _ | .noSuchElement _ | .noSuchExport _ | .missingMember => .attribute
  | .directConstruction _ => .construction
  | .noAmbientDocument => .noAmbientDocument
  | .noProxies => .missingModule
  | .outOfRange => .index
  | .tooLarge => .overflow
  | .tooLong => .memory
  | .endless => .other "RecursionError" "RecursionError" .runtime
  | .foreign className _ => .other className className .exception
  | .notADirectory => .fileSystem "NotADirectoryError"
  | .fileExists => .fileSystem "FileExistsError"
  | .usage => .other "SystemExit" "SystemExit" .root

/-- What the error carries: a message, or the key that was looked up; `none` for a host's own. -/
def argument? : Fault → Option Value
  | .invalidChild typeName shown =>
    some (.text ("invalid child type: <class " ++ Text.quote typeName ++ ">; value: " ++ shown))
  | .emptyNodeName => some (.text "Node name must be a non-empty string.")
  | .emptyElementName => some (.text "element name must be a non-empty string.")
  | .conflictingFlag name .. => some name
  | .missingKey key _ => some key
  | .hiddenName name => some (.text name)
  | .noSuchElement member =>
    some (.text ("ElementRegistry has no element named " ++ Text.quote member ++
      "; use `add_element` or `create` for ad hoc tags."))
  | .noSuchExport member =>
    some (.text ("module 'hypertree.tags' has no element named " ++ Text.quote member))
  | .directConstruction shown =>
    some (.text ("Node(" ++ shown ++ ", ...) cannot be instantiated directly; " ++
      "use an element constructor such as `tags.div(...)`, `create_element(" ++ shown ++
      ", ...)`, or `Node.new(" ++ shown ++ ", ...)`."))
  | .noAmbientDocument =>
    some (.text ("no ambient document outside of a browser runtime; " ++
      "pass a document context explicitly, e.g. `materialize(node, MemoryDocument())`."))
  | .refused message | .foreign _ message => some (.text message)
  | .notIterable _ | .unsuitable | .outOfBounds | .missingMember | .noProxies
  | .outOfRange | .tooLarge | .tooLong | .endless | .notADirectory | .fileExists | .usage => none

/-- The text of the error: a failed look-up shows its key as it is written. -/
def message? : Fault → Option String
  | .conflictingFlag _ shown .. => some shown
  | .missingKey _ shown => some shown
  | f => match f.argument? with
    | some (.text message) => some message
    | _ => none

/-- What the host itself says about a value that cannot be gone through. -/
def hostMessage? : Fault → Option String
  | .notIterable typeName => some (Text.quote typeName ++ " object is not iterable")
  | _ => none

end Fault

end Markup
