import Waybind.Zig.Comment
import Waybind.Zig.Identifier

/-!
This module contains a small set of Zig syntax nodes and their text. There is no layout beyond the
line breaks that comments need: the text is expected to go through a formatter.
-/

namespace Waybind
namespace Zig

structure Field where
  name : String
  type : String
  default : Option String
  comment : Option String
deriving Repr, DecidableEq

structure Variant (α : Type) where
  name : String
  payload : Option α
  doc : Option String
deriving Repr

/--
A piece of Zig code.
* `assignment` declares a public constant.
* `union` is a tagged union followed by declarations inside of it.
* `struct` is a struct type, packed into `backing` if there is one.
* `init` is a struct literal, of an inferred type if none is given.
* `function` declares a public function.
* `ret` is a return statement.
* `switch` is a switch expression with its arms.
-/
inductive Node where
  | assignment (name : String) (value : Node)
  | union (variants : List (Variant Node)) (extra : List Node)
  | struct (backing : Option String) (fields : List Field)
  | init (type : Option String) (fields : List (String × String))
  | function (name : String) (params : List (String × String)) (result : String) (body : Node)
  | ret (body : Node)
  | switch (value : String) (arms : List (String × String))
deriving Inhabited

def Field.renderComment (comment : Option String) : String :=
  match Text.singleLine (comment.getD "") with
  | "" => ""
  | comment => " // " ++ comment ++ "\n"

def Field.render (field : Field) : String :=
  let default :=
    match field.default with
    | some value => " = " ++ value
    | none => ""
  ident field.name ++ ": " ++ field.type ++ default ++ "," ++ renderComment field.comment

def renderBacking (backing : Option String) : String :=
  match backing with
  | some type => "packed struct(" ++ type ++ ") "
  | none => "struct "

def renderInit (field : String × String) : String :=
  "." ++ ident field.1 ++ " = " ++ field.2 ++ ","

def renderParam (param : String × String) : String :=
  param.1 ++ ": " ++ param.2 ++ ","

def renderArm (arm : String × String) : String :=
  arm.1 ++ " => " ++ arm.2 ++ ","

mutual

def Node.render : Node → String
  | .assignment name value => "pub const " ++ ident name ++ " = " ++ value.render ++ ";\n"
  | .union variants extra =>
    "union(enum) \x7b" ++ String.join (renderVariants variants) ++ String.join (renderExtra extra)
      ++ "\x7d"
  | .struct backing fields =>
    renderBacking backing ++ "\x7b" ++ String.join (fields.map Field.render) ++ "\x7d"
  | .init type fields =>
    type.getD "." ++ "\x7b" ++ String.join (fields.map renderInit) ++ "\x7d"
  | .function name params result body =>
    "\npub fn " ++ ident name ++ "(" ++ String.join (params.map renderParam) ++ ") " ++ result
      ++ " \x7b\n" ++ body.render ++ "\x7d\n"
  | .ret body => "return " ++ body.render ++ ";\n"
  | .switch value arms =>
    "switch (" ++ value ++ ") \x7b\n" ++ String.join (arms.map renderArm) ++ "\x7d"

def renderVariants : List (Variant Node) → List String
  | [] => []
  | variant :: variants => renderVariant variant :: renderVariants variants

def renderVariant : Variant Node → String
  | ⟨name, payload, doc⟩ =>
    comment doc "///" ++ ident name ++ ": " ++ renderPayload payload ++ ","

def renderPayload : Option Node → String
  | some payload => payload.render
  | none => "void"

def renderExtra : List Node → List String
  | [] => []
  | node :: nodes => ("\n" ++ node.render) :: renderExtra nodes

end

end Zig
end Waybind
