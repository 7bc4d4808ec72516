import Waybind.Proofs.Xml.Token

/-!
This module contains the reading of written documents. An element is read as a whole, whatever
stands around it, and the tree of the root is the one that the document is meant to be.
-/

namespace Waybind
namespace Xml
namespace Progress

open Written (Comment Instruction Misc)

theorem read_finished (root : Element) (rest : List UInt8) :
    read (.finished root) rest = .ok root := by
  rw [read]

theorem read_of_next {progress progress' : Progress} {token : Token} {input rest : List UInt8}
    (hnext : Token.next input = .ok (some (token, rest)))
    (hstep : progress.step token = .ok progress') : read progress input = read progress' rest := by
  cases progress with
  | finished root =>
    cases hstep
    rw [read_finished, read_finished]
  | prolog | inside =>
    rw [read]
    -- the match keeps its equation for termination, so that it cannot be rewritten by `hnext`
    · split
      · next heq =>
        rw [hnext] at heq
        cases heq
      · next heq =>
        rw [hnext] at heq
        cases heq
      · next heq =>
        rw [hnext] at heq
        cases heq
        rw [hstep]
    · intro root heq
      cases heq

section Text

def addText (progress : Progress) (bytes : List UInt8) : Progress :=
  match progress with
  | .prolog => .prolog
  | .inside frame outer => .inside (frame.addBytes bytes) outer
  | .finished root => .finished root

theorem addText_append (progress : Progress) (bytes bytes' : List UInt8) :
    progress.addText (bytes ++ bytes') = (progress.addText bytes).addText bytes' := by
  cases progress with
  | prolog | finished => rfl
  | inside frame outer =>
    simp only [addText, Frame.addBytes, List.reverseAux_eq, List.reverse_append, List.append_assoc]

theorem read_eq_addText (progress : Progress) (input : List UInt8) :
    read progress input = read (progress.addText (input.takeWhile Token.isTextByte))
      (input.dropWhile Token.isTextByte) := by
  have hnil : progress.addText [] = progress := by
    cases progress with
    | prolog | finished | inside => rfl
  cases input with
  | nil => rw [List.takeWhile_nil, List.dropWhile_nil, hnil]
  | cons b rest =>
    by_cases hb : Token.isTextByte b = true
    · rw [List.takeWhile_cons_of_pos hb, List.dropWhile_cons_of_pos hb]
      have hnext : Token.next (b :: rest) = .ok (some (.text (b :: rest.takeWhile Token.isTextByte),
          rest.dropWhile Token.isTextByte)) := by
        rw [Token.isTextByte, Bool.and_eq_true, bne_iff_ne, bne_iff_ne] at hb
        rw [Token.next, if_neg, if_neg]
        · rw [beq_iff_eq]
          exact hb.2
        · rw [beq_iff_eq]
          exact hb.1
      apply read_of_next hnext
      cases progress with
      | prolog | finished | inside => rfl
    · rw [List.takeWhile_cons_of_neg hb, List.dropWhile_cons_of_neg hb, hnil]

theorem read_text {bytes : List UInt8} (h : ∀ b ∈ bytes, Token.isTextByte b = true)
    (progress : Progress) (rest : List UInt8) :
    read progress (bytes ++ rest) = read (progress.addText bytes) rest := by
  rw [read_eq_addText, List.takeWhile_append_of_pos h, List.dropWhile_append_of_pos h,
    addText_append, ← read_eq_addText]

theorem read_mark (rest : List UInt8) :
    read .prolog (0xEF :: 0xBB :: 0xBF :: rest) = read .prolog rest := by
  have hmark : ∀ b ∈ ([0xEF, 0xBB, 0xBF] : List UInt8), Token.isTextByte b = true :=
    List.all_eq_true.mp (by decide)
  exact read_text hmark .prolog rest

theorem parse_eq_read (input : List UInt8) : parse input = read .prolog input := by
  unfold parse withoutMark
  split
  · next rest => exact (read_mark rest).symm
  · rfl

end Text

section Skipped

theorem step_skipped (progress : Progress) : progress.step .skipped = .ok progress := by
  cases progress with
  | prolog | finished | inside => rfl

theorem read_comment (note : Comment) (progress : Progress) (rest : List UInt8) :
    read progress (note.bytes ++ rest) = read progress rest :=
  read_of_next (Token.next_comment note rest) progress.step_skipped

theorem read_instruction (instr : Instruction) (progress : Progress) (rest : List UInt8) :
    read progress (instr.bytes ++ rest) = read progress rest :=
  read_of_next (Token.next_instruction instr rest) progress.step_skipped

theorem read_prolog (prolog : List Misc) (rest : List UInt8) :
    read .prolog (prolog.flatMap Misc.bytes ++ rest) = read .prolog rest := by
  induction prolog with
  | nil => rfl
  | cons misc prolog ih =>
    rw [List.flatMap_cons, List.append_assoc, ← ih]
    cases misc with
    | text bytes plain =>
      refine read_text ?_ .prolog _
      intro b hb
      rw [Token.isTextByte, Bool.and_eq_true, bne_iff_ne, bne_iff_ne]
      exact plain b hb
    | comment note => exact read_comment note .prolog _
    | instruction instr => exact read_instruction instr .prolog _

end Skipped
end Progress

namespace Frame

def addContent (frame : Frame) (trees : List Element) (text : List Char) : Frame :=
  { frame with
    children := trees.reverse ++ frame.children
    body := (Utf8.encodeChars text).reverse ++ frame.body }

variable (frame : Frame)

theorem addContent_nil : frame.addContent [] [] = frame := by
  rw [addContent, Utf8.encodeChars_nil]
  rfl

theorem addContent_addContent (trees trees' : List Element) (text text' : List Char) :
    (frame.addContent trees text).addContent trees' text' =
      frame.addContent (trees ++ trees') (text ++ text') := by
  simp only [addContent, Utf8.encodeChars_append, List.reverse_append, List.append_assoc]

theorem addBytes_encodeChars (text : List Char) :
    frame.addBytes (Utf8.encodeChars text) = frame.addContent [] text := by
  rw [addBytes, addContent, List.reverseAux_eq]
  rfl

theorem addReference_name (ref : Written.Reference) :
    frame.addReference (Utf8.encodeChars ref.name) = .ok (frame.addContent [] [ref.char]) := by
  have hchar : String.utf8EncodeChar ref.char = Utf8.encodeChars [ref.char] := by
    rw [Utf8.encodeChars_cons, Utf8.encodeChars_nil, List.append_nil]
  rw [addReference, Utf8.decodeChars_encodeChars]
  simp only [ref.resolve_name]
  rw [hchar, addBytes_encodeChars]

theorem close_addContent (qualified : List UInt8) (name : String)
    (attributes : List (String × String)) (trees : List Element) (text : List Char) :
    (addContent ⟨qualified, name, attributes, [], []⟩ trees text).close =
      .ok ⟨name, attributes, trees, String.ofList text⟩ := by
  simp only [close, addContent, List.append_nil, List.reverse_reverse, Utf8.decode_encodeChars]
  rfl

end Frame

section Elements

open Progress
open Written (Item Reference Tag)

def Progress.within (outer : List Frame) : Progress :=
  match outer with
  | [] => .prolog
  | frame :: outer => .inside frame outer

theorem Progress.step_opening (outer : List Frame) (tag : List UInt8) (empty : Bool) :
    (within outer).step (.opening tag empty) = openTag tag empty outer := by
  cases outer with
  | nil | cons => rfl

def Frame.opened (tag : Tag) : Frame :=
  ⟨tag.name.bytes, String.ofList tag.name.localChars,
    tag.attributes.map Written.Attribute.pair, [], []⟩

theorem read_emptyTag (tag : Tag) (outer : List Frame) (rest : List UInt8) :
    read (within outer) (Written.Element.bytes (.empty tag) ++ rest) =
      read (complete (Written.Element.tree (.empty tag)) outer) rest := by
  apply read_of_next (Token.next_emptyTag tag rest)
  have hclose := Frame.close_addContent tag.name.bytes (String.ofList tag.name.localChars)
    (tag.attributes.map Written.Attribute.pair) [] []
  rw [Frame.addContent_nil] at hclose
  rw [step_opening, openTag, tag.ofTag_bytes]
  simp only [bind, Except.bind, ↓reduceIte, hclose]
  rfl

theorem read_startTag (tag : Tag) (outer : List Frame) (rest : List UInt8) :
    read (within outer) (Utf8.encode "<" ++ tag.bytes ++ Utf8.encode ">" ++ rest) =
      read (.inside (.opened tag) outer) rest := by
  apply read_of_next (Token.next_tag tag rest)
  rw [step_opening, openTag, tag.ofTag_bytes]
  rfl

theorem read_endTag (tag : Tag) (trees : List Element) (text : List Char) (gap : Written.Space)
    (outer : List Frame) (rest : List UInt8) :
    read (.inside ((Frame.opened tag).addContent trees text) outer)
        (Utf8.encode "</" ++ tag.name.bytes ++ gap.bytes ++ Utf8.encode ">" ++ rest) =
      read (complete ⟨String.ofList tag.name.localChars,
        tag.attributes.map Written.Attribute.pair, trees, String.ofList text⟩ outer) rest := by
  apply read_of_next (Token.next_endTag tag.name gap rest)
  have hqualified : ((Frame.opened tag).addContent trees text).qualified = tag.name.bytes := rfl
  rw [step, if_pos hqualified, Frame.opened, Frame.close_addContent]
  rfl

theorem read_reference (ref : Reference) (frame : Frame) (outer : List Frame)
    (rest : List UInt8) :
    read (.inside frame outer) (Utf8.encodeChars ref.chars ++ rest) =
      read (.inside (frame.addContent [] [ref.char]) outer) rest := by
  apply read_of_next (Token.next_reference ref rest)
  rw [step, frame.addReference_name ref]
  rfl

theorem read_cdata {text : List Char} (hopen : ¬ "]]>".toList <:+: text) (frame : Frame)
    (outer : List Frame) (rest : List UInt8) :
    read (.inside frame outer)
        (Utf8.encode "<![CDATA[" ++ Utf8.encodeChars text ++ Utf8.encode "]]>" ++ rest) =
      read (.inside (frame.addContent [] text) outer) rest := by
  apply read_of_next (Token.next_cdata hopen rest)
  rw [step, frame.addBytes_encodeChars]

theorem read_plain {text : List Char} (hplain : ∀ c ∈ text, c ≠ '<' ∧ c ≠ '&') (frame : Frame)
    (outer : List Frame) (rest : List UInt8) :
    read (.inside frame outer) (Utf8.encodeChars text ++ rest) =
      read (.inside (frame.addContent [] text) outer) rest := by
  rw [read_text, addText, frame.addBytes_encodeChars]
  intro b hb
  rw [Token.isTextByte, Bool.and_eq_true, bne_iff_ne, bne_iff_ne]
  constructor
  · rintro rfl
    have hmem := (Utf8.mem_encodeChars_iff (by decide : '<'.toNat < 128) text).mp hb
    exact (hplain _ hmem).1 rfl
  · rintro rfl
    have hmem := (Utf8.mem_encodeChars_iff (by decide : '&'.toNat < 128) text).mp hb
    exact (hplain _ hmem).2 rfl

-- by the constructors, with the frame that content is read into and what follows it kept general
mutual

theorem read_element : (element : Written.Element) → (outer : List Frame) →
    (rest : List UInt8) → read (within outer) (element.bytes ++ rest) =
      read (complete element.tree outer) rest
  | .empty tag, outer, rest => read_emptyTag tag outer rest
  | .holding tag content gap, outer, rest => by
    have hbytes : (Written.Element.holding tag content gap).bytes ++ rest =
        Utf8.encode "<" ++ tag.bytes ++ Utf8.encode ">" ++ (Written.contentBytes content
          ++ (Utf8.encode "</" ++ tag.name.bytes ++ gap.bytes ++ Utf8.encode ">" ++ rest)) := by
      simp only [Written.Element.bytes, List.append_assoc]
    rw [hbytes, read_startTag, read_content content, read_endTag]
    rfl

theorem read_item : (item : Item) → (frame : Frame) → (outer : List Frame) →
    (rest : List UInt8) → read (.inside frame outer) (item.bytes ++ rest) =
      read (.inside (frame.addContent item.trees item.chars) outer) rest
  | .text _ plain, frame, outer, rest => read_plain plain frame outer rest
  | .cdata _ open_end, frame, outer, rest => read_cdata open_end frame outer rest
  | .comment note, frame, outer, rest => by
    rw [Item.trees, Item.chars, frame.addContent_nil]
    exact read_comment note _ rest
  | .instruction instr, frame, outer, rest => by
    rw [Item.trees, Item.chars, frame.addContent_nil]
    exact read_instruction instr _ rest
  | .reference ref, frame, outer, rest => read_reference ref frame outer rest
  -- to complete the child is to add its tree to the frame that it is in
  | .child element, frame, outer, rest => read_element element (frame :: outer) rest

theorem read_content : (content : List Item) → (frame : Frame) → (outer : List Frame) →
    (rest : List UInt8) → read (.inside frame outer) (Written.contentBytes content ++ rest) =
      read (.inside (frame.addContent (Written.contentTrees content)
        (content.flatMap Item.chars)) outer) rest
  | [], frame, outer, rest => by
    rw [Written.contentTrees, List.flatMap_nil, frame.addContent_nil]
    rfl
  | item :: content, frame, outer, rest => by
    rw [Written.contentBytes, List.append_assoc, read_item item, read_content content,
      frame.addContent_addContent]
    rfl

end

theorem parse_bytes (document : Written.Document) (rest : List UInt8) :
    parse (document.bytes ++ rest) = .ok document.root.tree := by
  have hroot : read .prolog (document.root.bytes ++ rest) = .ok document.root.tree :=
    (read_element document.root [] rest).trans (read_finished _ rest)
  rw [parse_eq_read, Written.Document.bytes, List.append_assoc, List.append_assoc]
  cases document.byteOrderMark with
  | false => exact (read_prolog document.prolog _).trans hroot
  | true => exact (read_mark _).trans ((read_prolog document.prolog _).trans hroot)

example : ∃ document : Written.Document,
    document.bytes = Utf8.encode
        "<?x?><!--a--><wl:arg name = \"&#65;_b\">c<![CDATA[<]]>&gt;<wl:d/></wl:arg >"
      ∧ document.root.tree = ⟨"arg", [("name", "A_b")], [⟨"d", [], [], ""⟩], "c<>"⟩ := by
  let blank : Written.Space := ⟨[32], List.all_eq_true.mp rfl⟩
  let nothing : Written.Space := ⟨[], List.all_eq_true.mp rfl⟩
  let letter : Written.Reference :=
    .decimal ['6', '5'] 'A' ⟨by simp, [6, 5], by simp [Numeral.IsDigit], rfl⟩ (by decide)
  let naming : Written.Attribute :=
    ⟨blank, List.cons_ne_nil _ _, ⟨"name".toList, by simp, by simp [Written.delimiters], by simp⟩,
      blank, blank, .double,
      [.reference letter, .literal "_b".toList (by simp [Written.Quote.char])]⟩
  let child : Written.Element :=
    .empty ⟨⟨"wl:d".toList, by simp, by simp [Written.delimiters], by simp⟩, [], by simp, nothing⟩
  let tag : Written.Tag :=
    ⟨⟨"wl:arg".toList, by simp, by simp [Written.delimiters], by simp⟩, [naming], by simp, nothing⟩
  let content : List Item :=
    [.text ['c'] (by simp), .cdata ['<'] (by decide),
      .reference (.entity "gt".toList '>' (by decide)), .child child]
  let prolog : List Written.Misc :=
    [.instruction ⟨[120], by rintro _ ⟨⟩; decide, by decide⟩, .comment ⟨[97], by decide⟩]
  exact ⟨⟨false, prolog, .holding tag content blank⟩, by decide +kernel, rfl⟩

end Elements
end Xml
end Waybind
