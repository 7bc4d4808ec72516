import Waybind.Proofs.Except
import Waybind.Proofs.Utf8.Strict
import Waybind.Proofs.Xml.Document

/-!
This module contains what a value with references in it denotes, be it the text of an element or an
attribute. The two are read in different orders: the bytes of a text are decoded after the
references in it have been replaced, those of an attribute before. The main statement is that the
order does not matter, for any bytes.
-/

namespace Waybind
namespace Xml

/--
What is written as `value` denotes `text`: references stand for a character, and all other
characters for themselves.
-/
inductive Denotes : List Char → List Char → Prop where
  | nil : Denotes [] []
  | char {c : Char} {value text : List Char} (hc : c ≠ '&') (h : Denotes value text) :
    Denotes (c :: value) (c :: text)
  | reference {name value text : List Char} {c : Char} (hname : ∀ d ∈ name, d ≠ ';' ∧ d ≠ '&')
    (hc : Reference.resolve name = .ok c) (h : Denotes value text) :
    Denotes ('&' :: (name ++ ';' :: value)) (c :: text)

namespace Denotes

theorem append {plain value text : List Char} (hplain : '&' ∉ plain) (h : Denotes value text) :
    Denotes (plain ++ value) (plain ++ text) := by
  induction plain with
  | nil => exact h
  | cons c plain ih =>
    rw [List.mem_cons, not_or] at hplain
    exact .char (Ne.symm hplain.1) (ih hplain.2)

end Denotes

namespace Reference

theorem go_of_denotes {value text : List Char} (h : Denotes value text) (size pos : Nat)
    (done : List Char) : expand.go size pos done value = .ok (done.reverse ++ text) := by
  induction h generalizing pos done with
  | nil => rw [expand.go, List.append_nil]
  | char hc _ ih =>
    rw [expand.go, if_neg hc, ih, List.reverse_cons, List.append_assoc, List.singleton_append]
  | reference hname hc _ ih =>
    have hresolve : resolve (([] : List Char).reverse ++ _) = .ok _ := hc
    obtain ⟨pos', hopen⟩ := Written.exists_goOpen_eq hname hresolve size pos (pos + 1) done _
    rw [expand.go, if_pos rfl, hopen, ih, List.reverse_cons, List.append_assoc,
      List.singleton_append]

/--
A value that can be expanded is one whose references all end and stand for something. The second
part is about the rest of a value in which a reference is open.
-/
theorem denotes_of_go (value : List Char) :
    (∀ size pos done text, expand.go size pos done value = .ok text →
      ∃ text', text = done.reverse ++ text' ∧ Denotes value text')
    ∧ ∀ size start name pos done text, expand.goOpen size start name pos done value = .ok text →
      ∃ more c rest text', value = more ++ ';' :: rest ∧ (∀ d ∈ more, d ≠ ';' ∧ d ≠ '&')
        ∧ resolve (name.reverse ++ more) = .ok c ∧ text = done.reverse ++ c :: text'
        ∧ Denotes rest text' := by
  induction value with
  | nil =>
    refine ⟨?_, ?_⟩
    · intro size pos done text h
      cases h
      exact ⟨[], (List.append_nil _).symm, .nil⟩
    · intro size start name pos done text h
      cases h
  | cons c value ih =>
    obtain ⟨ih, ihOpen⟩ := ih
    refine ⟨?_, ?_⟩
    · intro size pos done text h
      rw [expand.go] at h
      split at h
      · next hc =>
        obtain ⟨name, d, rest, text', rfl, hname, hd, rfl, hrest⟩ := ihOpen _ _ _ _ _ _ h
        rw [hc]
        exact ⟨d :: text', rfl, .reference hname hd hrest⟩
      · next hc =>
        obtain ⟨text', rfl, hrest⟩ := ih _ _ _ _ h
        refine ⟨c :: text', ?_, .char hc hrest⟩
        rw [List.reverse_cons, List.append_assoc, List.singleton_append]
    · intro size start name pos done text h
      rw [expand.goOpen] at h
      split at h
      · next hc =>
        split at h
        · next d hd =>
          obtain ⟨text', rfl, hrest⟩ := ih _ _ _ _ h
          refine ⟨[], d, value, text', by rw [hc]; rfl, List.forall_mem_nil _, ?_, ?_, hrest⟩
          · rwa [List.append_nil]
          · rw [List.reverse_cons, List.append_assoc, List.singleton_append]
        · cases h
        · cases h
      · next hsemicolon =>
        split at h
        · cases h
        · next hampersand =>
          obtain ⟨more, d, rest, text', rfl, hmore, hd, rfl, hrest⟩ := ihOpen _ _ _ _ _ _ h
          refine ⟨c :: more, d, rest, text', rfl, ?_, ?_, rfl, hrest⟩
          · exact List.forall_mem_cons.mpr ⟨⟨hsemicolon, hampersand⟩, hmore⟩
          · rwa [List.reverse_cons, List.append_assoc, List.singleton_append] at hd

theorem expand_eq_ok_iff {value text : List Char} :
    expand value = .ok text ↔ Denotes value text := by
  constructor
  · intro h
    obtain ⟨_, rfl, hdenotes⟩ := (denotes_of_go value).1 _ _ _ _ h
    exact hdenotes
  · intro h
    exact go_of_denotes h _ 0 []

end Reference

theorem Denotes.unique {value text text' : List Char} (h : Denotes value text)
    (h' : Denotes value text') : text = text' := by
  rw [← Reference.expand_eq_ok_iff] at h h'
  rw [h] at h'
  exact Except.ok.inj h'

section Bytes

open Token (isTextByte isReferenceByte)

/--
The bytes `body` are those of `input` with each reference replaced by the character it stands for.
Neither has to be UTF-8.
-/
inductive Resolved : List UInt8 → List UInt8 → Prop where
  | text {bytes : List UInt8} (hbytes : ∀ b ∈ bytes, isTextByte b = true) : Resolved bytes bytes
  | reference {before input body : List UInt8} {name : List Char} {c : Char}
    (hbefore : ∀ b ∈ before, isTextByte b = true)
    (hname : ∀ b ∈ Utf8.encodeChars name, isReferenceByte b = true)
    (hc : Reference.resolve name = .ok c) (h : Resolved input body) :
    Resolved (before ++ '&'.toUInt8 :: (Utf8.encodeChars name ++ ';'.toUInt8 :: input))
      (before ++ (String.utf8EncodeChar c ++ body))

theorem isTextByte_iff {b : UInt8} :
    isTextByte b = true ↔ b ≠ '<'.toUInt8 ∧ b ≠ '&'.toUInt8 := by
  rw [isTextByte, Bool.and_eq_true, bne_iff_ne, bne_iff_ne]

theorem Resolved.append {plain input body : List UInt8}
    (hplain : ∀ b ∈ plain, isTextByte b = true) (h : Resolved input body) :
    Resolved (plain ++ input) (plain ++ body) := by
  cases h with
  | text hbytes => exact .text (List.forall_mem_append.mpr ⟨hplain, hbytes⟩)
  | reference hbefore hname hc h =>
    rw [← List.append_assoc, ← List.append_assoc plain]
    exact .reference (List.forall_mem_append.mpr ⟨hplain, hbefore⟩) hname hc h

theorem forall_or_exists_append {α : Type} (p : α → Bool) (xs : List α) :
    (∀ x ∈ xs, p x = true) ∨ ∃ before x after, xs = before ++ x :: after
      ∧ (∀ y ∈ before, p y = true) ∧ p x = false := by
  cases h : xs.find? (!p ·) with
  | none =>
    left
    simpa using h
  | some x =>
    obtain ⟨hx, before, after, rfl, hbefore⟩ := List.find?_eq_some_iff_append.mp h
    right
    exact ⟨before, x, after, rfl, by simpa using hbefore, by simpa using hx⟩

end Bytes

namespace Token

theorem next_reference_append {name : List UInt8} (hname : ∀ b ∈ name, isReferenceByte b = true)
    (rest : List UInt8) : next ('&'.toUInt8 :: (name ++ ';'.toUInt8 :: rest)) =
      .ok (some (.reference name, rest)) := by
  have hend : ∀ b ∈ (';'.toUInt8 :: rest).head?, isReferenceByte b = false := by
    rintro _ ⟨⟩
    rfl
  obtain ⟨htake, hdrop⟩ := span_append hname hend
  change some <$> textReference (name ++ ';'.toUInt8 :: rest) = _
  rw [textReference, hdrop, htake]
  rfl

theorem exists_of_next_reference {input rest rest' : List UInt8} {token : Token}
    (hinput : '<'.toUInt8 ∉ input)
    (h : next ('&'.toUInt8 :: (input ++ '<'.toUInt8 :: rest)) = .ok (some (token, rest'))) :
    ∃ name input', input = name ++ ';'.toUInt8 :: input'
      ∧ (∀ b ∈ name, isReferenceByte b = true) := by
  change some <$> textReference (input ++ '<'.toUInt8 :: rest) = _ at h
  obtain ⟨_, hread, -⟩ := (Except.map_eq_ok_iff _ _ _).mp h
  rw [textReference] at hread
  obtain hall | ⟨name, b, input', rfl, hname, hb⟩ := forall_or_exists_append isReferenceByte input
  · rw [List.dropWhile_append_of_pos hall] at hread
    cases hread
  · have hend : ∀ b' ∈ (b :: (input' ++ '<'.toUInt8 :: rest)).head?,
        isReferenceByte b' = false := by
      rintro _ ⟨⟩
      exact hb
    rw [List.append_assoc, List.cons_append, (span_append hname hend).2] at hread
    dsimp only at hread
    split at hread
    · next hsemicolon =>
      rw [beq_iff_eq.mp hsemicolon]
      exact ⟨name, input', rfl, hname⟩
    · cases hread

end Token

theorem Frame.addReference_eq_ok_iff {frame frame' : Frame} {bytes : List UInt8} :
    frame.addReference bytes = .ok frame' ↔ ∃ name c, bytes = Utf8.encodeChars name
      ∧ Reference.resolve name = .ok c ∧ frame' = frame.addBytes (String.utf8EncodeChar c) := by
  constructor
  · intro h
    unfold addReference at h
    split at h
    · cases h
    · next name hname =>
      split at h
      · cases h
      · next c hc =>
        cases h
        exact ⟨name, c, Utf8.decodeChars_eq_ok_iff.mp hname, hc, rfl⟩
  · rintro ⟨name, c, rfl, hc, rfl⟩
    rw [addReference, Utf8.decodeChars_encodeChars]
    simp only [hc]

theorem Frame.addBytes_append (frame : Frame) (bytes bytes' : List UInt8) :
    frame.addBytes (bytes ++ bytes') = (frame.addBytes bytes).addBytes bytes' := by
  simp only [addBytes, List.reverseAux_eq, List.reverse_append, List.append_assoc]

namespace Progress

theorem step_reference_eq_ok_iff {frame : Frame} {outer : List Frame} {bytes : List UInt8}
    {progress : Progress} :
    step (.inside frame outer) (.reference bytes) = .ok progress ↔ ∃ name c,
      bytes = Utf8.encodeChars name ∧ Reference.resolve name = .ok c
        ∧ progress = .inside (frame.addBytes (String.utf8EncodeChar c)) outer := by
  rw [step, Except.bind_eq_ok_iff]
  simp only [Frame.addReference_eq_ok_iff]
  constructor
  · rintro ⟨_, ⟨name, c, hbytes, hc, rfl⟩, ⟨⟩⟩
    exact ⟨name, c, hbytes, hc, rfl⟩
  · rintro ⟨name, c, hbytes, hc, rfl⟩
    exact ⟨_, ⟨name, c, hbytes, hc, rfl⟩, rfl⟩

theorem exists_of_read {progress : Progress} {input : List UInt8} {root : Element}
    (hopen : ∀ root, progress ≠ .finished root) (h : read progress input = .ok root) :
    ∃ token rest progress', Token.next input = .ok (some (token, rest))
      ∧ progress.step token = .ok progress' ∧ read progress' rest = .ok root := by
  rw [read] at h
  · split at h
    · cases h
    · cases progress with
      | prolog | inside => cases h
      | finished root => exact absurd rfl (hopen root)
    · next token rest hnext =>
      split at h
      · cases h
      · next progress' hstep => exact ⟨token, rest, progress', hnext, hstep, h⟩
  · exact hopen

theorem read_eq_ok_iff {progress : Progress} {token : Token} {input rest : List UInt8}
    {root : Element} (hopen : ∀ root, progress ≠ .finished root)
    (hnext : Token.next input = .ok (some (token, rest))) :
    read progress input = .ok root ↔
      ∃ progress', progress.step token = .ok progress' ∧ read progress' rest = .ok root := by
  constructor
  · intro h
    obtain ⟨_, _, progress', hnext', hstep, h⟩ := exists_of_read hopen h
    rw [hnext] at hnext'
    cases hnext'
    exact ⟨progress', hstep, h⟩
  · rintro ⟨progress', hstep, h⟩
    rw [read_of_next hnext hstep, h]

theorem read_of_resolved {input body : List UInt8} (h : Resolved input body) (frame : Frame)
    (outer : List Frame) (rest : List UInt8) :
    read (.inside frame outer) (input ++ rest) =
      read (.inside (frame.addBytes body) outer) rest := by
  induction h generalizing frame with
  | text hbytes => exact read_text hbytes (.inside frame outer) rest
  | @reference before input body name c hbefore hname hc _ ih =>
    have hstep : step (.inside (frame.addBytes before) outer) (.reference (Utf8.encodeChars name)) =
        .ok (.inside ((frame.addBytes before).addBytes (String.utf8EncodeChar c)) outer) :=
      step_reference_eq_ok_iff.mpr ⟨name, c, rfl, hc, rfl⟩
    simp only [List.append_assoc, List.cons_append]
    rw [read_text hbefore, addText, read_of_next (Token.next_reference_append hname _) hstep, ih,
      Frame.addBytes_append, Frame.addBytes_append]

theorem exists_resolved_of_read {input rest : List UInt8} (hinput : '<'.toUInt8 ∉ input)
    {frame : Frame} {outer : List Frame} {root : Element}
    (h : read (.inside frame outer) (input ++ '<'.toUInt8 :: rest) = .ok root) :
    ∃ body, Resolved input body := by
  -- a reference is taken together with the text before it, so the induction is on the length
  induction hn : input.length using Nat.strong_induction_on generalizing input frame with
  | _ n ih =>
    obtain hall | ⟨before, b, after, rfl, hbefore, hb⟩ :=
      forall_or_exists_append Token.isTextByte input
    · exact ⟨input, .text hall⟩
    · rw [List.mem_append, List.mem_cons, not_or, not_or] at hinput
      have hb : b = '&'.toUInt8 := by
        by_contra hne
        rw [isTextByte_iff.mpr ⟨Ne.symm hinput.2.1, hne⟩] at hb
        cases hb
      subst hb
      rw [List.append_assoc, read_text hbefore, addText] at h
      obtain ⟨token, rest', progress, hnext, hstep, h⟩ := exists_of_read (by rintro _ ⟨⟩) h
      obtain ⟨bytes, input, rfl, hname⟩ := Token.exists_of_next_reference hinput.2.2 hnext
      rw [List.cons_append, List.append_assoc, List.cons_append,
        Token.next_reference_append hname] at hnext
      cases hnext
      obtain ⟨name, c, rfl, hc, rfl⟩ := step_reference_eq_ok_iff.mp hstep
      rw [List.mem_append, List.mem_cons, not_or, not_or] at hinput
      have hlt : input.length < n := by
        rw [← hn]
        simp only [List.length_append, List.length_cons]
        omega
      obtain ⟨body, hbody⟩ := ih input.length hlt hinput.2.2.2.2 h rfl
      exact ⟨_, .reference hbefore hname hc hbody⟩

end Progress

section Decoding

open Token (isTextByte isReferenceByte)

theorem forall_isTextByte_iff {text : List Char} :
    (∀ b ∈ Utf8.encodeChars text, isTextByte b = true) ↔ '<' ∉ text ∧ '&' ∉ text := by
  rw [← Utf8.mem_encodeChars_iff (by decide : '<'.toNat < 128) text,
    ← Utf8.mem_encodeChars_iff (by decide : '&'.toNat < 128) text, ← List.forall_mem_ne',
    ← List.forall_mem_ne', ← forall₂_and]
  simp only [isTextByte, Bool.and_eq_true, bne_iff_ne]
  rfl

theorem forall_isReferenceByte_iff {name : List Char} :
    (∀ b ∈ Utf8.encodeChars name, isReferenceByte b = true) ↔
      (∀ d ∈ name, d ≠ ';' ∧ d ≠ '&') ∧ '<' ∉ name := by
  rw [forall₂_and, List.forall_mem_ne', List.forall_mem_ne',
    ← Utf8.mem_encodeChars_iff (by decide : ';'.toNat < 128) name,
    ← Utf8.mem_encodeChars_iff (by decide : '&'.toNat < 128) name,
    ← Utf8.mem_encodeChars_iff (by decide : '<'.toNat < 128) name, ← List.forall_mem_ne',
    ← List.forall_mem_ne', ← List.forall_mem_ne', ← forall₂_and, ← forall₂_and]
  simp only [isReferenceByte, Bool.and_eq_true, bne_iff_ne]
  rfl

theorem Resolved.exists_denotes {input body : List UInt8} (h : Resolved input body)
    {text : List Char} (hbody : Utf8.encodeChars text = body) :
    ∃ value, input = Utf8.encodeChars value ∧ Denotes value text := by
  induction h generalizing text with
  | text hbytes =>
    subst hbody
    have hplain := Denotes.append (forall_isTextByte_iff.mp hbytes).2 .nil
    rw [List.append_nil] at hplain
    exact ⟨text, rfl, hplain⟩
  | @reference _ _ _ name c hbefore hname hc _ ih =>
    obtain ⟨before, after, rfl, rfl, hafter⟩ :=
      Utf8.exists_of_encodeChars_eq_append_encodeChar hbody
    obtain ⟨value, rfl, hvalue⟩ := ih hafter
    have hdenotes := Denotes.reference (forall_isReferenceByte_iff.mp hname).1 hc hvalue
    refine ⟨before ++ '&' :: (name ++ ';' :: value), ?_,
      hdenotes.append (forall_isTextByte_iff.mp hbefore).2⟩
    simp only [Utf8.encodeChars_append, Utf8.encodeChars_cons]
    rfl

theorem Denotes.resolved {value text : List Char} (h : Denotes value text) (hvalue : '<' ∉ value) :
    Resolved (Utf8.encodeChars value) (Utf8.encodeChars text) := by
  induction h with
  | nil => exact .text (List.forall_mem_nil _)
  | @char c _ _ hc _ ih =>
    rw [List.mem_cons, not_or] at hvalue
    have hplain : ∀ b ∈ Utf8.encodeChars [c], isTextByte b = true := by
      rw [forall_isTextByte_iff, List.mem_singleton, List.mem_singleton]
      exact ⟨hvalue.1, Ne.symm hc⟩
    have happend := (ih hvalue.2).append hplain
    rwa [← Utf8.encodeChars_append, ← Utf8.encodeChars_append] at happend
  | @reference name value text c hname hc _ ih =>
    rw [List.mem_cons, List.mem_append, List.mem_cons, not_or, not_or, not_or] at hvalue
    have hbytes := forall_isReferenceByte_iff.mpr ⟨hname, hvalue.2.1⟩
    have hreference := Resolved.reference (List.forall_mem_nil _) hbytes hc (ih hvalue.2.2.2)
    have hinput : Utf8.encodeChars ('&' :: (name ++ ';' :: value)) = [] ++ '&'.toUInt8 ::
        (Utf8.encodeChars name ++ ';'.toUInt8 :: Utf8.encodeChars value) := by
      simp only [Utf8.encodeChars_append, Utf8.encodeChars_cons]
      rfl
    rw [hinput, Utf8.encodeChars_cons]
    exact hreference

end Decoding

section Attributes

theorem RawAttribute.decode_eq_ok_iff {raw : RawAttribute} {pair : String × String} :
    raw.decode = .ok pair ↔ ∃ name value text, Utf8.decode (localName raw.key) = .ok name
      ∧ raw.value = Utf8.encodeChars value ∧ Denotes value text
      ∧ pair = (name, String.ofList text) := by
  simp only [decode, Except.bind_eq_ok_iff, Except.mapError_eq_ok_iff, Utf8.decodeChars_eq_ok_iff,
    Reference.expand_eq_ok_iff]
  constructor
  · rintro ⟨name, hname, value, hvalue, text, htext, ⟨⟩⟩
    exact ⟨name, value, text, hname, hvalue, htext, rfl⟩
  · rintro ⟨name, value, text, hname, hvalue, htext, rfl⟩
    exact ⟨name, hname, value, hvalue, text, htext, rfl⟩

theorem exists_decode_of_go {size : Nat} {earlier : List RawAttribute} {input rest : List UInt8}
    {raw : RawAttribute} {done pairs : List (String × String)}
    (hnext : RawAttribute.next size earlier input = .ok (some (raw, rest)))
    (h : tagAttributes.go size earlier done input = .ok pairs) :
    ∃ pair, raw.decode = .ok pair := by
  rw [tagAttributes.go] at h
  split at h
  · cases h
  · next hnone =>
    rw [hnext] at hnone
    cases hnone
  · next hsome =>
    rw [hnext] at hsome
    cases hsome
    split at h
    · cases h
    · next pair hpair => exact ⟨pair, hpair⟩

end Attributes

section Documents

open Progress
open Written (Space Tag)

def valueTag (value : List UInt8) : List UInt8 :=
  Utf8.encode "a x=" ++ '"'.toUInt8 :: (value ++ ['"'.toUInt8])

theorem exists_next_valueTag {value : List UInt8} (hvalue : '"'.toUInt8 ∉ value) (size : Nat) :
    ∃ position, RawAttribute.next size [] ((valueTag value).dropWhile (!isSpace ·)) =
      .ok (some (⟨position, ['x'.toUInt8], value⟩, [])) := by
  have hread : RawAttribute.value? size ('"'.toUInt8 :: (value ++ ['"'.toUInt8])) =
      .ok (value, []) :=
    Written.value?_append ⟨[], List.forall_mem_nil _⟩ .double hvalue size []
  refine ⟨size - (('='.toUInt8 :: '"'.toUInt8 :: (value ++ ['"'.toUInt8])).length + 1), ?_⟩
  change (RawAttribute.value? size ('"'.toUInt8 :: (value ++ ['"'.toUInt8])) >>= _) = _
  rw [hread]
  rfl

theorem tagAttributes_valueTag_iff {value : List UInt8} (hvalue : '"'.toUInt8 ∉ value)
    {pairs : List (String × String)} :
    tagAttributes (valueTag value) = .ok pairs ↔ ∃ chars text, value = Utf8.encodeChars chars
      ∧ Denotes chars text ∧ pairs = [("x", String.ofList text)] := by
  obtain ⟨position, hnext⟩ := exists_next_valueTag hvalue (valueTag value).length
  have hname : Utf8.decode (localName ['x'.toUInt8]) = .ok "x" := Utf8.decode_encodeChars ['x']
  have hread {pair : String × String}
      (hpair : RawAttribute.decode ⟨position, ['x'.toUInt8], value⟩ = .ok pair) :
      tagAttributes (valueTag value) = .ok [pair] := by
    rw [tagAttributes, Written.go_of_next hnext hpair, Written.go_of_none rfl]
    rfl
  constructor
  · intro h
    obtain ⟨pair, hpair⟩ := exists_decode_of_go hnext h
    rw [hread hpair] at h
    cases h
    obtain ⟨name, chars, text, hname', hchars, htext, rfl⟩ :=
      RawAttribute.decode_eq_ok_iff.mp hpair
    rw [hname] at hname'
    cases hname'
    exact ⟨chars, text, hchars, htext, rfl⟩
  · rintro ⟨chars, text, hchars, htext, rfl⟩
    exact hread (RawAttribute.decode_eq_ok_iff.mpr ⟨"x", chars, text, hname, hchars, htext, rfl⟩)

theorem next_valueTag {value : List UInt8} (hvalue : '"'.toUInt8 ∉ value) :
    Token.next (Utf8.encode "<" ++ valueTag value ++ Utf8.encode "/>") =
      .ok (some (.opening (valueTag value) true, [])) := by
  have hname : Token.Passed ['a'.toUInt8, ' '.toUInt8, 'x'.toUInt8, '='.toUInt8] := by
    apply Token.Passed.of_plain
    simp only [List.forall_mem_cons]
    exact ⟨by decide, by decide, by decide, by decide, List.forall_mem_nil _⟩
  have hslash : Token.Passed ['/'.toUInt8] := .of_plain (List.forall_mem_singleton.mpr (by decide))
  have hpassed : Token.Passed (valueTag value ++ ['/'.toUInt8]) :=
    (hname.append (.quoted .double hvalue)).append hslash
  have hstart : Token.startTag (valueTag value ++ ['/'.toUInt8] ++ '>'.toUInt8 :: []) =
      .ok (.opening (valueTag value) true, []) := by
    rw [Token.startTag, hpassed.untilTagEnd_eq]
    simp only [List.getLast?_concat, beq_self_eq_true, List.dropLast_concat, ↓reduceIte]
  rw [List.append_assoc] at hstart
  rw [List.append_assoc]
  change some <$> Token.startTag (valueTag value ++ Utf8.encode "/>") = _
  exact congrArg (some <$> ·) hstart

theorem step_valueTag_iff {value : List UInt8} {progress : Progress} :
    step .prolog (.opening (valueTag value) true) = .ok progress ↔ ∃ pairs,
      tagAttributes (valueTag value) = .ok pairs ∧ progress = .finished ⟨"a", pairs, [], ""⟩ := by
  have hname : Utf8.decode (localName (tagName (valueTag value))) = .ok "a" :=
    Utf8.decode_encodeChars ['a']
  have hclose (pairs : List (String × String)) :
      Frame.close ⟨tagName (valueTag value), "a", pairs, [], []⟩ = .ok ⟨"a", pairs, [], ""⟩ := by
    have h := Frame.close_addContent (tagName (valueTag value)) "a" pairs [] []
    rwa [Frame.addContent_nil] at h
  simp only [step, openTag, Frame.ofTag, hname, Except.bind_eq_ok_iff, Except.mapError_eq_ok_iff,
    ↓reduceIte]
  constructor
  · rintro ⟨_, ⟨_, ⟨⟩, pairs, hpairs, ⟨⟩⟩, element, helement, ⟨⟩⟩
    rw [hclose] at helement
    cases helement
    exact ⟨pairs, hpairs, rfl⟩
  · rintro ⟨pairs, hpairs, rfl⟩
    exact ⟨_, ⟨"a", rfl, pairs, hpairs, rfl⟩, _, hclose pairs, rfl⟩

theorem parse_attribute_iff {value : List UInt8} (hvalue : '"'.toUInt8 ∉ value) {root : Element} :
    parse (Utf8.encode "<" ++ valueTag value ++ Utf8.encode "/>") = .ok root ↔
      ∃ chars text, value = Utf8.encodeChars chars ∧ Denotes chars text
        ∧ root = ⟨"a", [("x", String.ofList text)], [], ""⟩ := by
  rw [parse_eq_read, read_eq_ok_iff (by rintro _ ⟨⟩) (next_valueTag hvalue)]
  simp only [step_valueTag_iff, tagAttributes_valueTag_iff hvalue]
  constructor
  · rintro ⟨_, ⟨_, ⟨chars, text, hchars, htext, rfl⟩, rfl⟩, hroot⟩
    rw [read_finished] at hroot
    cases hroot
    exact ⟨chars, text, hchars, htext, rfl⟩
  · rintro ⟨chars, text, hchars, htext, rfl⟩
    exact ⟨_, ⟨_, ⟨chars, text, hchars, htext, rfl⟩, rfl⟩, read_finished _ _⟩

theorem exists_text_of_close {frame : Frame} {root : Element} (h : frame.close = .ok root) :
    ∃ text, Utf8.encodeChars text = frame.body.reverse := by
  obtain ⟨text, htext, -⟩ := (Except.bind_eq_ok_iff _ _ _).mp h
  rw [Except.mapError_eq_ok_iff, Utf8.decode_eq_ok_iff, Utf8.encode_eq] at htext
  exact ⟨text.toList, htext.symm⟩

theorem parse_content_iff (tag : Tag) (gap : Space) {input : List UInt8}
    (hinput : '<'.toUInt8 ∉ input) {root : Element} :
    parse (Utf8.encode "<" ++ tag.bytes ++ Utf8.encode ">" ++ (input ++ (Utf8.encode "</"
        ++ tag.name.bytes ++ gap.bytes ++ Utf8.encode ">" ++ []))) = .ok root ↔
      ∃ value text, input = Utf8.encodeChars value ∧ Denotes value text
        ∧ root = ⟨String.ofList tag.name.localChars,
          tag.attributes.map Written.Attribute.pair, [], String.ofList text⟩ := by
  have hopen := read_startTag tag [] (input ++ (Utf8.encode "</" ++ tag.name.bytes ++ gap.bytes
    ++ Utf8.encode ">" ++ []))
  rw [parse_eq_read]
  change read (within []) _ = _ ↔ _
  rw [hopen]
  have hend (text : List Char) := read_endTag tag [] text gap [] []
  simp only [← Frame.addBytes_encodeChars] at hend
  constructor
  · intro h
    obtain ⟨body, hbody⟩ := exists_resolved_of_read hinput h
    rw [read_of_resolved hbody] at h
    have htext : ∃ text, Utf8.encodeChars text = body := by
      obtain ⟨progress, hstep, -⟩ := (read_eq_ok_iff (by rintro _ ⟨⟩)
        (Token.next_endTag tag.name gap [])).mp h
      rw [step, if_pos (by rfl), Except.bind_eq_ok_iff] at hstep
      obtain ⟨element, hclose, -⟩ := hstep
      obtain ⟨text, htext⟩ := exists_text_of_close hclose
      refine ⟨text, htext.trans ?_⟩
      rw [Frame.addBytes, List.reverseAux_eq, Frame.opened, List.append_nil, List.reverse_reverse]
    obtain ⟨text, rfl⟩ := htext
    obtain ⟨value, hvalue, hdenotes⟩ := hbody.exists_denotes rfl
    rw [hend, complete, read_finished] at h
    cases h
    exact ⟨value, text, hvalue, hdenotes, rfl⟩
  · rintro ⟨value, text, rfl, hdenotes, rfl⟩
    have hplain : '<' ∉ value := by
      rwa [← Utf8.mem_encodeChars_iff (by decide : '<'.toNat < 128) value]
    rw [read_of_resolved (hdenotes.resolved hplain), hend, complete, read_finished]

def bareTag : Tag where
  name := ⟨['a'], List.cons_ne_nil _ _, by simp [Written.delimiters], by simp⟩
  attributes := []
  nodup := List.nodup_nil
  after := ⟨[], List.forall_mem_nil _⟩

/--
The text of an element and the value of an attribute that are written with the same bytes are the
same, and one can be read exactly if the other can be. Bytes that denote a text are read as it.
-/
theorem text_agrees_with_attribute (input : List UInt8) (hmarkup : '<'.toUInt8 ∉ input)
    (hquote : '"'.toUInt8 ∉ input) :
    ((∃ e, parse (Utf8.encode "<a>" ++ input ++ Utf8.encode "</a>") = .ok e) ↔
      ∃ e, parse (Utf8.encode "<a x=\"" ++ input ++ Utf8.encode "\"/>") = .ok e)
    ∧ (∀ e e', parse (Utf8.encode "<a>" ++ input ++ Utf8.encode "</a>") = .ok e →
      parse (Utf8.encode "<a x=\"" ++ input ++ Utf8.encode "\"/>") = .ok e' →
        e'.attr? "x" = some e.text)
    ∧ ∀ value text, input = Utf8.encodeChars value → Denotes value text →
      ∃ e, parse (Utf8.encode "<a>" ++ input ++ Utf8.encode "</a>") = .ok e
        ∧ e.text = String.ofList text := by
  have hcontent (e : Element) :=
    @parse_content_iff bareTag ⟨[], List.forall_mem_nil _⟩ input hmarkup e
  have hattribute (e : Element) := @parse_attribute_iff input hquote e
  have hopened : Utf8.encode "<" ++ bareTag.bytes ++ Utf8.encode ">" ++ (input ++ (Utf8.encode "</"
      ++ bareTag.name.bytes ++ [] ++ Utf8.encode ">" ++ [])) =
        Utf8.encode "<a>" ++ input ++ Utf8.encode "</a>" := by
    rw [List.append_assoc (Utf8.encode "<a>")]
    rfl
  have htag : Utf8.encode "<" ++ valueTag input ++ Utf8.encode "/>" =
      Utf8.encode "<a x=\"" ++ input ++ Utf8.encode "\"/>" := by
    simp only [valueTag, List.append_assoc, List.cons_append]
    rfl
  rw [hopened] at hcontent
  rw [htag] at hattribute
  simp only [hcontent, hattribute]
  refine ⟨?_, ?_, ?_⟩
  · constructor
    · rintro ⟨_, value, text, hvalue, htext, -⟩
      exact ⟨_, value, text, hvalue, htext, rfl⟩
    · rintro ⟨_, value, text, hvalue, htext, -⟩
      exact ⟨_, value, text, hvalue, htext, rfl⟩
  · rintro _ _ ⟨value, text, rfl, htext, rfl⟩ ⟨value', text', hvalue, htext', rfl⟩
    cases Utf8.encodeChars_injective hvalue
    cases htext.unique htext'
    rfl
  · intro value text hvalue htext
    exact ⟨_, ⟨value, text, hvalue, htext, rfl⟩, rfl⟩

theorem text_agrees_with_attribute_escaped :
    ∃ e e', parse (Utf8.encode "<a>é&#65;>'</a>") = .ok e
      ∧ parse (Utf8.encode "<a x=\"é&#65;>'\"/>") = .ok e'
      ∧ e.text = "éA>'" ∧ e'.attr? "x" = some "éA>'" := by
  obtain ⟨hiff, hsame, hread⟩ := text_agrees_with_attribute (Utf8.encode "é&#65;>'") (by decide)
    (by decide)
  have hreference : Denotes ('&' :: ("#65".toList ++ ';' :: ">'".toList)) ('A' :: ">'".toList) :=
    .reference (by simp) rfl (.char (by decide) (.char (by decide) .nil))
  obtain ⟨e, he, htext⟩ := hread "é&#65;>'".toList "éA>'".toList (Utf8.encode_eq _)
    (.char (by decide) hreference)
  obtain ⟨e', he'⟩ := hiff.mp ⟨e, he⟩
  refine ⟨e, e', he, he', htext, ?_⟩
  rw [hsame e e' he he', htext]
  rfl

end Documents
end Xml
end Waybind
