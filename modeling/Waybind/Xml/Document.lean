import Waybind.Xml.Element
import Waybind.Xml.Token

/-!
This module contains the reading of documents: the pieces of a document build up a stack of open
elements, and the element that closes last is the root.
-/

namespace Waybind
namespace Xml

/--
An element that is open: its qualified name, its local name and attributes, and its children and the
bytes of its body so far, newest first.
-/
structure Frame where
  qualified : List UInt8
  name : String
  attributes : List (String × String)
  children : List Element
  body : List UInt8

/--
How far a document is read: not yet at the root, inside of elements, or after the end of the root.
-/
inductive Progress where
  | prolog
  | inside (frame : Frame) (outer : List Frame)
  | finished (root : Element)

namespace Frame

def ofTag (tag : List UInt8) : Except Error Frame := do
  let qualified := tagName tag
  let name ← (Utf8.decode (localName qualified)).mapError .elementName
  let attributes ← (tagAttributes tag).mapError (.attributes name)
  return ⟨qualified, name, attributes, [], []⟩

def addBytes (frame : Frame) (bytes : List UInt8) : Frame :=
  { frame with body := bytes.reverseAux frame.body }

def addChild (frame : Frame) (child : Element) : Frame :=
  { frame with children := child :: frame.children }

def addReference (frame : Frame) (name : List UInt8) : Except Error Frame :=
  match Utf8.decodeChars name with
  | .error _ => .error (.reference (Utf8.decodeLossy name))
  | .ok chars =>
    match Reference.resolve chars with
    | .error _ => .error (.reference (Utf8.decodeLossy name))
    | .ok c => .ok (frame.addBytes (String.utf8EncodeChar c))

def close (frame : Frame) : Except Error Element := do
  let text ← (Utf8.decode frame.body.reverse).mapError (.body frame.name)
  return ⟨frame.name, frame.attributes, frame.children.reverse, text⟩

end Frame

def displayName (name : List UInt8) : String :=
  (Utf8.decode name).toOption.getD ""

namespace Progress

def complete (element : Element) (outer : List Frame) : Progress :=
  match outer with
  | [] => .finished element
  | frame :: outer => .inside (frame.addChild element) outer

def openTag (tag : List UInt8) (empty : Bool) (outer : List Frame) : Except Error Progress := do
  let frame ← Frame.ofTag tag
  if empty then
    return complete (← frame.close) outer
  else
    return .inside frame outer

def step (progress : Progress) (token : Token) : Except Error Progress :=
  match progress, token with
  | .finished root, _ => .ok (.finished root)
  | .prolog, .opening tag empty => openTag tag empty []
  | .prolog, .closing name => .error (.form (.unmatchedEndTag (displayName name)))
  | .prolog, _ => .ok .prolog
  | .inside frame outer, .opening tag empty => openTag tag empty (frame :: outer)
  | .inside frame outer, .closing name =>
    if frame.qualified = name then do
      return complete (← frame.close) outer
    else
      .error (.form (.mismatchedEndTag (displayName frame.qualified) (displayName name)))
  | .inside frame outer, .text bytes => .ok (.inside (frame.addBytes bytes) outer)
  | .inside frame outer, .cdata bytes => .ok (.inside (frame.addBytes bytes) outer)
  | .inside frame outer, .reference name => do
    return .inside (← frame.addReference name) outer
  | .inside frame outer, .skipped => .ok (.inside frame outer)

def atEnd (progress : Progress) : Except Error Element :=
  match progress with
  | .prolog => .error .missingRoot
  | .inside frame _ => .error (.unclosed frame.name)
  | .finished root => .ok root

/--
Read on until the root is complete. What follows it is not looked at.
-/
def read (progress : Progress) (input : List UInt8) : Except Error Element :=
  match progress with
  | .finished root => .ok root
  | progress =>
    match h : Token.next input with
    | .error error => .error error
    | .ok none => progress.atEnd
    | .ok (some (token, rest)) =>
      have := Token.length_of_next h
      match progress.step token with
      | .error error => .error error
      | .ok progress => read progress rest
termination_by input.length

end Progress

def withoutMark (input : List UInt8) : List UInt8 :=
  match input with
  | 0xEF :: 0xBB :: 0xBF :: rest => rest
  | input => input

def parse (input : List UInt8) : Except Error Element :=
  Progress.read .prolog (withoutMark input)

end Xml
end Waybind
