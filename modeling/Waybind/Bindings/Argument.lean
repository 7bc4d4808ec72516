import Waybind.Bindings.Name
import Waybind.Registry.Lookup
import Waybind.Zig.TypeExpr

/-!
This module contains how arguments appear in the bindings: their types, defaults and conversions,
and what requests evaluate to.
-/

namespace Waybind
namespace Bindings

open Zig (TypeExpr Conversion)

inductive TypeContext where
  | wire
  | typed
deriving Repr, DecidableEq

def orNull (nullable : Bool) (type : TypeExpr) : TypeExpr :=
  if nullable then .optional type else type

def qualifier (current owner : Interface) : Option String :=
  if owner.family = current.family then none else some owner.family

def handleType (place : Place) (name : String) : LookupM Lookup.Error TypeExpr := do
  let interface ← Lookup.findInterface place.protocol name
  return .handle (qualifier place.interface interface) interface.handleName

def enumTypeOf (current owner : Interface) (enum : Enumeration) : TypeExpr :=
  if owner.id = current.id then
    .enum none enum.typeName
  else
    .enum (some (qualifier current owner, owner.handleName)) enum.typeName

def enumType (place : Place) (name : String) : LookupM Lookup.Error TypeExpr := do
  let (owner, enum) ← Lookup.findEnum place name
  return enumTypeOf place.interface owner enum

def integerType (place : Place) (arg : Arg) (plain : TypeExpr) : LookupM Lookup.Error TypeExpr :=
  match arg.enum with
  | some name => enumType place name
  | none => return plain

def argType (place : Place) (arg : Arg) (context : TypeContext) :
    LookupM Lookup.Error TypeExpr :=
  match arg.type with
  | .int => integerType place arg .i32
  | .uint => integerType place arg .u32
  | .fixed => return .fixed
  | .string => return orNull arg.allowNull .string
  | .fd => return .fileDescriptor
  | .newId =>
    match context, arg.interface with
    | .typed, some name => handleType place name
    | _, _ => return .u32
  | .object =>
    match context, arg.interface with
    | .wire, _ => return .u32
    | .typed, some name => orNull arg.allowNull <$> handleType place name
    | .typed, none => return orNull arg.allowNull .u32
  | .array =>
    match arg.interface with
    | some name => .slice <$> handleType place name
    | none => return .slice .u8

def argDefault? (arg : Arg) : Option String :=
  match arg.type, arg.interface with
  | .newId, some _ => some "@enumFromInt(0)"
  | .newId, none => some "0"
  | _, _ => none

def integerConversion (place : Place) (arg : Arg) : LookupM Lookup.Error Conversion :=
  match arg.enum with
  | some name => do
    let (_, enum) ← Lookup.findEnum place name
    return if enum.bitfield then .bitCast else .enumFromInt
  | none => return .keep

def idConversion (arg : Arg) : Conversion :=
  match arg.interface with
  | some _ => .enumFromInt
  | none => .keep

def conversion (place : Place) (arg : Arg) : LookupM Lookup.Error Conversion :=
  match arg.type with
  | .int | .uint => integerConversion place arg
  | .newId => return idConversion arg
  | .object => return if arg.allowNull then .orNull (idConversion arg) else idConversion arg
  | .array =>
    match arg.interface with
    | some name => .slice <$> handleType place name
    | none => return .slice .u8
  | .fixed | .string | .fd => return .keep

def rawArg (arg : Arg) (index : Nat) : String :=
  s!"args[{index}]." ++ arg.type.name

def decodeExpr (place : Place) (arg : Arg) (index : Nat) : LookupM Lookup.Error String :=
  (·.render (rawArg arg index)) <$> conversion place arg

/--
What a request evaluates to: nothing, a handle of the object it creates, or, if the interface of
that object is only known at run time, nothing that can be compiled.
-/
inductive ReturnType where
  | void
  | created (type : TypeExpr)
  | unknown (handle request : String)
deriving Repr, DecidableEq

def ReturnType.render : ReturnType → String
  | .void => "void"
  | .created type => type.render
  | .unknown handle request =>
    "@compileError(\"" ++ handle ++ "." ++ request
      ++ " creates an object whose interface is only known at runtime\")"

def returnType (place : Place) (request : Request) : LookupM Lookup.Error ReturnType :=
  match request.kind, request.createdInterface? with
  | .constructor, some name => .created <$> handleType place name
  | .constructor, none => return .unknown place.interface.handleName request.name
  | _, _ => return .void

end Bindings
end Waybind
