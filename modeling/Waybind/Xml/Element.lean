/-!
This module contains the element trees that documents are read into.
-/

namespace Waybind
namespace Xml

/--
An element: its local name, its attributes by local name in the order they are written, its child
elements in order, and all of the text directly inside of it as one.
-/
structure Element where
  name : String
  attributes : List (String × String)
  children : List Element
  text : String
deriving Inhabited

namespace Element

def attr? (element : Element) (name : String) : Option String :=
  element.attributes.lookup name

def childrenNamed (element : Element) (name : String) : List Element :=
  element.children.filter (·.name == name)

end Element

end Xml
end Waybind
