import Waybind.Rehearsal.Shell.Pattern

/-!
This module contains how a word that has been expanded is cut into fields. Values are cut at
separators; what stood in the script or in quotes is not.
-/

namespace Waybind
namespace Rehearsal
namespace Shell

/--
A character of a word that has been expanded, or what is left where there is none. A `mark` is left
where there were quotes, so that there is a field even if nothing was in them, and a `cut` stands
between two arguments.
-/
inductive Atom where
  | char (c : Char) (quoted : Bool)
  | mark
  | cut
deriving Repr, DecidableEq

namespace Atom

def text (atoms : List Atom) : String :=
  String.ofList (atoms.filterMap fun
    | .char c _ => some c
    | _ => none)

def pattern (atoms : List Atom) : Pattern :=
  atoms.filterMap fun
    | .char c quoted => some (c, quoted)
    | _ => none

end Atom

inductive Piece where
  | text (quoted : Bool) (content : String)
  | mark
  | cut
deriving Repr, DecidableEq

namespace Piece

def atoms : Piece → List Atom
  | .text quoted content => content.toList.map (.char · quoted)
  | .mark => [.mark]
  | .cut => [.cut]

def chars : Piece → String
  | .text _ content => content
  | _ => ""

def size : Piece → Nat
  | .text _ content => content.length
  | _ => 1

def takeAtoms (count : Nat) (pieces : List Piece) : List Piece :=
  match pieces with
  | [] => []
  | piece :: rest =>
    if piece.size ≤ count then
      piece :: takeAtoms (count - piece.size) rest
    else
      match piece with
      | .text quoted content => [.text quoted (String.ofList (content.toList.take count))]
      | _ => []

def dropAtoms (count : Nat) (pieces : List Piece) : List Piece :=
  match pieces with
  | [] => []
  | piece :: rest =>
    if piece.size ≤ count then
      dropAtoms (count - piece.size) rest
    else
      match piece with
      | .text quoted content => .text quoted (String.ofList (content.toList.drop count)) :: rest
      | piece => piece :: rest

end Piece

inductive Cutting where
  | nowhere
  | separators
  | arguments
deriving Repr, DecidableEq

structure Segment where
  cutting : Cutting
  pieces : List Piece
deriving Repr

namespace Segment

def atoms (segment : Segment) : List Atom :=
  segment.pieces.flatMap Piece.atoms

def text (segments : List Segment) : String :=
  String.join (segments.flatMap fun segment => segment.pieces.map Piece.chars)

def pattern (segments : List Segment) : Pattern :=
  Atom.pattern (segments.flatMap Segment.atoms)

def isSolid (separators : List Char) (segment : Segment) : Bool :=
  let cuts := segment.cutting != .nowhere
  segment.cutting != .arguments && segment.pieces.all fun
    | .text quoted content => !content.any fun (c : Char) =>
      (cuts && separators.contains c) || (!quoted && Pattern.isWild c)
    | .mark => true
    | .cut => false

end Segment

/--
Fields in the making, newest first, with their atoms newest first.

- `size` is how many atoms the current field has.
- `blank` tells that a blank has just ended a field, so that a separator behind it belongs to the
  same end.
- `left` is how many fields are wanted still, if that is limited.
- `stop` is where the last field ends if nothing but separators follows.
-/
structure Fields where
  done : List (List Atom) := []
  current : List Atom := []
  size : Nat := 0
  blank : Bool := false
  left : Option Nat := none
  stop : Option Nat := none

namespace Fields

def push (fields : Fields) (atom : Atom) : Fields :=
  { fields with current := atom :: fields.current, size := fields.size + 1 }

def clear (fields : Fields) : Fields :=
  { fields with current := [], size := 0 }

inductive Kind where
  | ordinary
  | blank
  | separator
deriving DecidableEq

def kindOf (separators : List Char) (cutting : Cutting) (atom : Atom) : Kind :=
  match atom with
  | .cut => .blank
  | .mark => .ordinary
  | .char c _ =>
    if cutting == .arguments || !separators.contains c then .ordinary
    else if c == ' ' || c == '\t' || c == '\n' then .blank
    else .separator

def addToLast (fields : Fields) (kind : Kind) (atom : Atom) : Fields :=
  match kind with
  | .blank => { fields with stop := some (fields.stop.getD fields.size) }.push atom
  | kind =>
    let stop := if kind == .separator && fields.blank then fields.stop else none
    { fields with stop := stop, blank := false }.push atom

def close (fields : Fields) (blank : Bool) (atom : Atom) : Fields :=
  match fields.left with
  | some 1 => { fields with left := some 0, stop := some fields.size, blank := blank }.push atom
  | left =>
    { fields with
      done := fields.current :: fields.done, left := left.map (· - 1), blank := blank }.clear

def add (separators : List Char) (cutting : Cutting) (afterArguments : Bool) (fields : Fields)
    (atom : Atom) : Fields :=
  let kind := kindOf separators cutting atom
  let strict := cutting == .arguments || afterArguments
  if fields.left == some 0 then
    fields.addToLast kind atom
  else
    match fields.blank, kind with
    | true, .blank => fields
    | true, .separator => { fields with blank := false }
    | _, .ordinary => { fields with blank := false }.push atom
    | false, kind =>
      let blank := kind == .blank && !strict
      if fields.current.isEmpty && blank then fields else fields.close blank atom

def addSegments (separators : List Char) (fields : Fields) (wasArguments : Bool)
    (segments : List Segment) : Fields × Bool :=
  match segments with
  | [] => (fields, wasArguments)
  | segment :: rest =>
    if segment.cutting == .nowhere then
      addSegments separators (segment.atoms.foldl push fields) wasArguments rest
    else
      let fields := segment.atoms.foldl (add separators segment.cutting wasArguments)
        { fields with blank := false }
      addSegments separators fields (segment.cutting == .arguments) rest

def split (separators : List Char) (limit : Option Nat) (segments : List Segment) :
    List (List Atom) :=
  let (fields, keepsLast) := addSegments separators { left := limit } false segments
  let current :=
    match fields.stop with
    | some stop => fields.current.drop (fields.size - stop)
    | none => fields.current
  let done := if keepsLast || !current.isEmpty then current :: fields.done else fields.done
  done.reverse.map List.reverse

end Fields
end Shell
end Rehearsal
end Waybind
