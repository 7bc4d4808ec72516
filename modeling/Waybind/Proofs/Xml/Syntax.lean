import Waybind.Proofs.Numeral
import Waybind.Proofs.Utf8
import Waybind.Xml.Document

/-!
This module contains documents as they are written: all that is free in the spelling of a tree, such
as white space, quotes, comments and references. Each part carries what it needs to be well-formed.
A written document has its bytes, and the tree that it is meant to be.
-/

namespace Waybind
namespace Xml
namespace Written

structure Space where
  bytes : List UInt8
  isSpace : ∀ b ∈ bytes, isSpace b = true

def delimiters : List Char :=
  [' ', '\t', '\r', '\n', '"', '\'', '<', '>', '/', '=']

structure Name where
  chars : List Char
  ne_nil : chars ≠ []
  plain : ∀ c ∈ chars, c ∉ delimiters
  head : ∀ c ∈ chars.head?, c ≠ '!' ∧ c ≠ '?'

namespace Name

def bytes (name : Name) : List UInt8 :=
  Utf8.encodeChars name.chars

def localChars (name : Name) : List Char :=
  match name.chars.dropWhile (· != ':') with
  | _ :: rest => rest
  | [] => name.chars

end Name

def entities : List (List Char × Char) := [
  ("lt".toList, '<'), ("gt".toList, '>'), ("amp".toList, '&'), ("quot".toList, '"'),
  ("apos".toList, '\'')]

inductive Reference where
  | entity (name : List Char) (char : Char) (mem : (name, char) ∈ entities)
  | decimal (digits : List Char) (char : Char) (number : Numeral.IsNumeral 10 digits char.toNat)
    (ne_zero : char.toNat ≠ 0)
  | hexadecimal (digits : List Char) (char : Char)
    (number : Numeral.IsNumeral 16 digits char.toNat) (ne_zero : char.toNat ≠ 0)

namespace Reference

def name : Reference → List Char
  | entity name _ _ => name
  | decimal digits _ _ _ => '#' :: digits
  | hexadecimal digits _ _ _ => '#' :: 'x' :: digits

def char : Reference → Char
  | entity _ char _ => char
  | decimal _ char _ _ => char
  | hexadecimal _ char _ _ => char

def chars (reference : Reference) : List Char :=
  '&' :: reference.name ++ [';']

end Reference

inductive Quote where
  | single
  | double

def Quote.char : Quote → Char
  | single => '\''
  | double => '"'

inductive Part (quote : Quote) where
  | literal (text : List Char) (plain : ∀ c ∈ text, c ≠ '&' ∧ c ≠ quote.char)
  | reference (reference : Reference)

namespace Part

variable {quote : Quote}

def chars : Part quote → List Char
  | literal text _ => text
  | reference ref => ref.chars

def text : Part quote → List Char
  | literal text _ => text
  | reference ref => [ref.char]

end Part

structure Attribute where
  before : Space
  before_ne_nil : before.bytes ≠ []
  name : Name
  beforeEquals : Space
  afterEquals : Space
  quote : Quote
  value : List (Part quote)

namespace Attribute

variable (attr : Attribute)

def valueBytes : List UInt8 :=
  Utf8.encodeChars (attr.value.flatMap Part.chars)

def bytes : List UInt8 :=
  attr.before.bytes ++ (attr.name.bytes ++ (attr.beforeEquals.bytes
    ++ '='.toUInt8 :: (attr.afterEquals.bytes ++ attr.quote.char.toUInt8
      :: (attr.valueBytes ++ [attr.quote.char.toUInt8]))))

def pair : String × String :=
  (String.ofList attr.name.localChars,
    String.ofList (attr.value.flatMap Part.text))

end Attribute

/--
What stands between the angle brackets of a tag, but for the slash of an empty element. No name
stands in it twice.
-/
structure Tag where
  name : Name
  attributes : List Attribute
  nodup : (attributes.map (·.name.chars)).Nodup
  after : Space

def Tag.bytes (tag : Tag) : List UInt8 :=
  tag.name.bytes ++ (tag.attributes.flatMap Attribute.bytes ++ tag.after.bytes)

structure Comment where
  content : List UInt8
  open_end : ¬ Utf8.encode "-->" <:+: content

def Comment.bytes (comment : Comment) : List UInt8 :=
  Utf8.encode "<!--" ++ comment.content ++ Utf8.encode "-->"

structure Instruction where
  content : List UInt8
  head : ∀ b ∈ content.head?, b ≠ '>'.toUInt8
  open_end : ¬ Utf8.encode "?>" <:+: content

def Instruction.bytes (instruction : Instruction) : List UInt8 :=
  Utf8.encode "<?" ++ instruction.content ++ Utf8.encode "?>"

mutual

inductive Element where
  | empty (tag : Tag)
  | holding (tag : Tag) (content : List Item) (gap : Space)

inductive Item where
  | text (text : List Char) (plain : ∀ c ∈ text, c ≠ '<' ∧ c ≠ '&')
  | cdata (text : List Char) (open_end : ¬ "]]>".toList <:+: text)
  | comment (comment : Comment)
  | instruction (instruction : Instruction)
  | reference (reference : Reference)
  | child (element : Element)

end

mutual

def Element.bytes : Element → List UInt8
  | .empty tag => Utf8.encode "<" ++ tag.bytes ++ Utf8.encode "/>"
  | .holding tag content gap =>
    Utf8.encode "<" ++ tag.bytes ++ Utf8.encode ">" ++ contentBytes content
      ++ Utf8.encode "</" ++ tag.name.bytes ++ gap.bytes ++ Utf8.encode ">"

def Item.bytes : Item → List UInt8
  | .text text _ => Utf8.encodeChars text
  | .cdata text _ => Utf8.encode "<![CDATA[" ++ Utf8.encodeChars text ++ Utf8.encode "]]>"
  | .comment note => note.bytes
  | .instruction instr => instr.bytes
  | .reference ref => Utf8.encodeChars ref.chars
  | .child element => element.bytes

def contentBytes : List Item → List UInt8
  | [] => []
  | item :: items => item.bytes ++ contentBytes items

end

def Item.chars : Item → List Char
  | .text cs _ => cs
  | .cdata cs _ => cs
  | .reference ref => [ref.char]
  | .comment _ | .instruction _ | .child _ => []

mutual

def Element.tree : Element → Xml.Element
  | .empty tag =>
    ⟨String.ofList tag.name.localChars, tag.attributes.map Attribute.pair, [], ""⟩
  | .holding tag content _ =>
    ⟨String.ofList tag.name.localChars, tag.attributes.map Attribute.pair, contentTrees content,
      String.ofList (content.flatMap Item.chars)⟩

def Item.trees : Item → List Xml.Element
  | .child element => [element.tree]
  | .text _ _ | .cdata _ _ | .comment _ | .instruction _ | .reference _ => []

def contentTrees : List Item → List Xml.Element
  | [] => []
  | item :: items => item.trees ++ contentTrees items

end

inductive Misc where
  | text (bytes : List UInt8) (plain : ∀ b ∈ bytes, b ≠ '<'.toUInt8 ∧ b ≠ '&'.toUInt8)
  | comment (comment : Comment)
  | instruction (instruction : Instruction)

def Misc.bytes : Misc → List UInt8
  | .text bytes _ => bytes
  | .comment note => note.bytes
  | .instruction instr => instr.bytes

structure Document where
  byteOrderMark : Bool
  prolog : List Misc
  root : Element

def Document.bytes (document : Document) : List UInt8 :=
  (if document.byteOrderMark then [0xEF, 0xBB, 0xBF] else [])
    ++ document.prolog.flatMap Misc.bytes ++ document.root.bytes

end Written
end Xml
end Waybind
