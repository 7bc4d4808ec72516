/-!
This module contains the types that appear in the bindings, and how they are written.
-/

namespace Waybind
namespace Zig

/--
A type. Handles and enumerations of another namespace are qualified with its name, and an
enumeration of another interface with the handle that it is declared in.
-/
inductive TypeExpr where
  | i32
  | u32
  | u8
  | fixed
  | string
  | fileDescriptor
  | handle (qualifier : Option String) (name : String)
  | enum (owner : Option (Option String × String)) (name : String)
  | optional (type : TypeExpr)
  | slice (element : TypeExpr)
deriving Repr, DecidableEq, Inhabited

def renderQualifier (qualifier : Option String) : String :=
  match qualifier with
  | some qualifier => qualifier ++ "."
  | none => ""

def TypeExpr.render : TypeExpr → String
  | .i32 => "i32"
  | .u32 => "u32"
  | .u8 => "u8"
  | .fixed => "Fixed"
  | .string => "[:0]const u8"
  | .fileDescriptor => "std.posix.fd_t"
  | .handle qualifier name => renderQualifier qualifier ++ name
  | .enum none name => name
  | .enum (some (qualifier, owner)) name => renderQualifier qualifier ++ owner ++ "." ++ name
  | .optional type => "?" ++ type.render
  | .slice element => "[]" ++ element.render

inductive Conversion where
  | keep
  | bitCast
  | enumFromInt
  | orNull (conversion : Conversion)
  | slice (element : TypeExpr)
deriving Repr, DecidableEq, Inhabited

def Conversion.render (raw : String) : Conversion → String
  | .keep => raw
  | .bitCast => "@bitCast(" ++ raw ++ ")"
  | .enumFromInt => "@enumFromInt(" ++ raw ++ ")"
  | .orNull conversion => "if (" ++ raw ++ " == 0) null else " ++ conversion.render raw
  | .slice element => raw ++ ".slice(" ++ element.render ++ ")"

end Zig
end Waybind
