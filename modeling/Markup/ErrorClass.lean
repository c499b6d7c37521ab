/-!
# Classes of errors

`ErrorClass` is the family tree of the classes of errors: those that the library or the host raises
by themselves, the root of all, and any others that refine one of these.
-/

namespace Markup

/-- The classes of errors. -/
inductive ErrorClass where
  /-- The root, which also what ends a program refines. -/
  | root
  | exception
  | value
  | type
  | lookup
  | key
  | index
  | attribute
  | runtime
  | overflow
  | memory
  | importing
  | missingModule
  | conflict
  | construction
  | noAmbientDocument
  /-- A class with a name, a name that shows its home, and the class that it refines. -/
  | other (name qualifiedName : String) (parent : ErrorClass)
deriving DecidableEq

namespace ErrorClass

/-- A class of errors that the file system reports. -/
def fileSystem (name : String) : ErrorClass :=
  .other name name (.other "OSError" "OSError" .exception)

/-- The class that a class refines. -/
def parent? : ErrorClass → Option ErrorClass
  | .root => none
  | .exception => some .root
  | .value | .type | .lookup | .attribute | .runtime | .overflow | .memory | .importing =>
    some .exception
  | .key | .index => some .lookup
  | .missingModule => some .importing
  | .conflict => some .key
  | .construction => some .type
  | .noAmbientDocument => some .runtime
  | .other _ _ parent => some parent

/-- How many steps a class is away from the root. -/
def rank : ErrorClass → Nat
  | .root => 0
  | .exception => 1
  | .value | .type | .lookup | .attribute | .runtime | .overflow | .memory | .importing => 2
  | .key | .index | .missingModule | .construction | .noAmbientDocument => 3
  | .conflict => 4
  | .other _ _ parent => parent.rank + 1

/-- The classes at or above a class, as far as some steps reach. -/
def ancestors : Nat → ErrorClass → List ErrorClass
  | 0, c => [c]
  | steps + 1, c =>
    match c.parent? with
    | none => [c]
    | some p => c :: ancestors steps p

/-- Whether `c` is `d` or refines it. -/
def isA (c d : ErrorClass) : Bool := (ancestors c.rank c).contains d

/-- The name of a class. -/
def name : ErrorClass → String
  | .root => "BaseException"
  | .exception => "Exception"
  | .value => "ValueError"
  | .type => "TypeError"
  | .lookup => "LookupError"
  | .key => "KeyError"
  | .index => "IndexError"
  | .attribute => "AttributeError"
  | .runtime => "RuntimeError"
  | .overflow => "OverflowError"
  | .memory => "MemoryError"
  | .importing => "ImportError"
  | .missingModule => "ModuleNotFoundError"
  | .conflict => "ConflictingValues"
  | .construction => "ConstructionError"
  | .noAmbientDocument => "NoAmbientDocumentError"
  | .other name _ _ => name

/-- The name of a class where reports show its home: the library's own classes have one. -/
def qualifiedName : ErrorClass → String
  | .conflict => "hypertree.exceptions.ConflictingValues"
  | .construction => "hypertree.exceptions.ConstructionError"
  | .noAmbientDocument => "hypertree.exceptions.NoAmbientDocumentError"
  | .other _ qualifiedName _ => qualifiedName
  | c => c.name

end ErrorClass

end Markup
