/-!
# Causes of failure

Every way in which an operation can fail, as a cause. The wording of the causes that carry one is
`Failure.message`.
-/

set_option autoImplicit false

namespace ShapeContract

/-- A value was used as something that it is not. -/
inductive Misuse where
  | type
  | attribute
  | key
  | value
  | overflow
  | pattern
  /-- Calls nest deeper than the stack of the interpreter allows. -/
  | recursion
deriving DecidableEq, Repr

inductive Failure where
  /-- A value of the wrong kind. -/
  | misuse (kind : Misuse)
  /-- No primitive type has this name. -/
  | unknownType (shown : String)
  /-- No regular-expression option has this letter. -/
  | unknownOption (shown : String)
  /-- The value does not list its paths. -/
  | notIntrospectable (typeName : String)
  /-- The value is no table and no mapped class. -/
  | notTabular (typeName : String)
  /-- Sub-schemas nest deeper than the bound. -/
  | tooDeep (bound : Int) (path : String)
  /-- The wire schema breaks the rules of its language at the path. -/
  | wireRejected (reason : String) (path : Option String)
  /-- Fields of a record with values of the wrong type, each with the kind of mistake. -/
  | invalidRecord (details : List (String × String))
deriving DecidableEq, Repr

namespace Failure

def typeMisuse : Failure := .misuse .type

def attributeMisuse : Failure := .misuse .attribute

def valueMisuse : Failure := .misuse .value

def keyMisuse : Failure := .misuse .key

def recursionMisuse : Failure := .misuse .recursion

end Failure

end ShapeContract
