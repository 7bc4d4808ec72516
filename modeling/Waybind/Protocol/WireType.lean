/-!
This module contains the types that arguments have on the wire.
-/

namespace Waybind

inductive WireType where
  | int
  | uint
  | fixed
  | string
  | object
  | newId
  | array
  | fd
deriving Repr, DecidableEq, Inhabited

namespace WireType

def all : List WireType :=
  [.int, .uint, .fixed, .string, .object, .newId, .array, .fd]

def name : WireType → String
  | .int => "int"
  | .uint => "uint"
  | .fixed => "fixed"
  | .string => "string"
  | .object => "object"
  | .newId => "new_id"
  | .array => "array"
  | .fd => "fd"

def ofName? (name : String) : Option WireType :=
  all.find? (·.name == name)

theorem ofName?_name (type : WireType) : ofName? type.name = some type := by
  cases type <;> rfl

end WireType
end Waybind
