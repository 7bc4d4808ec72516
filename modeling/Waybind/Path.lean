import Waybind.Text.Blank

/-!
This module contains file paths as texts: joining them, and the path of the directory that something
is in. Nothing here looks at files.
-/

namespace Waybind

structure Path where
  text : String
deriving Repr, DecidableEq, Inhabited

namespace Path

def isAbsolute (path : Path) : Bool :=
  path.text.toList.head? == some '/'

/--
A path below a directory. An absolute path replaces the directory.
-/
def join (base path : Path) : Path :=
  if path.isAbsolute then
    path
  else
    match base.text.toList.getLast? with
    | none => path
    | some '/' => ⟨base.text ++ path.text⟩
    | some _ => ⟨base.text ++ "/" ++ path.text⟩

/--
The parts of a path between its slashes. The first part of an absolute path is empty.
-/
def parts (path : Path) : List (List Char) :=
  Text.pieces (· == '/') path.text.toList

def isBlankPart (part : List Char) : Bool :=
  part == [] || part == ['.']

/--
The path of the directory that a path is in: what is before its last part that leads somewhere. The
first part always does. The root and the empty path are in no directory.
-/
def parent? (path : Path) : Option Path :=
  match path.parts with
  | [] => none
  | first :: rest =>
    match rest.reverse.dropWhile isBlankPart with
    | [] => if first.isEmpty then none else some ⟨""⟩
    | _ :: rest =>
      match (rest.dropWhile isBlankPart).reverse with
      | [] => some ⟨if first.isEmpty then "/" else String.ofList first⟩
      | rest => some ⟨"/".intercalate ((first :: rest).map String.ofList)⟩

end Path
end Waybind
