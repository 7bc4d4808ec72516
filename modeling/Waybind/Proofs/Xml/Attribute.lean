import Waybind.Proofs.Xml.Syntax

/-!
This module contains how the inside of a written tag is read: the attributes of a tag have their
local names and the texts that their values stand for.
-/

namespace Waybind
namespace Xml

theorem span_append {α : Type} {p : α → Bool} {xs ys : List α} (hxs : ∀ x ∈ xs, p x = true)
    (hys : ∀ y ∈ ys.head?, p y = false) :
    (xs ++ ys).takeWhile p = xs ∧ (xs ++ ys).dropWhile p = ys := by
  rw [List.takeWhile_append_of_pos hxs, List.dropWhile_append_of_pos hxs]
  cases ys with
  | nil => exact ⟨List.append_nil xs, rfl⟩
  | cons y ys =>
    have hy : ¬ p y = true := by
      rw [hys y rfl]
      exact Bool.false_ne_true
    rw [List.takeWhile_cons_of_neg hy, List.dropWhile_cons_of_neg hy, List.append_nil]
    exact ⟨rfl, rfl⟩

namespace Written

section Bytes

theorem Name.delimiter_notMem_bytes (name : Name) {c : Char} (hc : c ∈ delimiters) :
    c.toUInt8 ∉ name.bytes := by
  have hascii : ∀ c ∈ delimiters, c.toNat < 128 := by simp [delimiters]
  intro hmem
  exact name.plain c ((Utf8.mem_encodeChars_iff (hascii c hc) name.chars).mp hmem) hc

theorem Name.isSpace_eq_false (name : Name) : ∀ b ∈ name.bytes, isSpace b = false := by
  intro b hb
  have hspace : ∀ c ∈ [' ', '\t', '\r', '\n'], b ≠ c.toUInt8 := by
    intro c hc heq
    have hdelimiter : c ∈ delimiters := List.mem_append_left ['"', '\'', '<', '>', '/', '='] hc
    exact name.delimiter_notMem_bytes hdelimiter (heq ▸ hb)
  simp only [List.forall_mem_cons] at hspace
  obtain ⟨h1, h2, h3, h4, -⟩ := hspace
  simp only [isSpace, Bool.or_eq_false_iff, beq_eq_false_iff_ne]
  exact ⟨⟨⟨h1, h2⟩, h3⟩, h4⟩

theorem Name.isKeyByte_eq_true (name : Name) :
    ∀ b ∈ name.bytes, RawAttribute.isKeyByte b = true := by
  intro b hb
  have hequals : b ≠ '='.toUInt8 := by
    rintro rfl
    exact name.delimiter_notMem_bytes (by decide) hb
  rw [RawAttribute.isKeyByte, name.isSpace_eq_false b hb, Bool.not_false, Bool.and_true]
  exact bne_iff_ne.mpr hequals

theorem Name.bytes_ne_nil (name : Name) : name.bytes ≠ [] := by
  obtain ⟨c, cs, hchars⟩ := List.exists_cons_of_ne_nil name.ne_nil
  rw [bytes, hchars, Utf8.encodeChars_cons]
  exact fun h => String.utf8EncodeChar_ne_nil (List.append_eq_nil_iff.mp h).1

theorem Name.localName_bytes (name : Name) :
    localName name.bytes = Utf8.encodeChars name.localChars := by
  have hcolon (cs : List Char) (hcs : ∀ c ∈ cs, (c != ':') = true) :
      ∀ b ∈ Utf8.encodeChars cs, (b != ':'.toUInt8) = true := by
    intro b hb
    rw [bne_iff_ne]
    rintro rfl
    have hmem := (Utf8.mem_encodeChars_iff (by decide : ':'.toNat < 128) cs).mp hb
    exact bne_iff_ne.mp (hcs ':' hmem) rfl
  have hbefore := hcolon (name.chars.takeWhile (· != ':')) fun c hc => by
    simpa using List.mem_takeWhile_imp hc
  rw [localName, localChars, bytes]
  cases hdrop : name.chars.dropWhile (· != ':') with
  | nil =>
    have hall := List.dropWhile_eq_nil_iff.mp hdrop
    rw [List.dropWhile_eq_nil_iff.mpr (hcolon _ hall)]
  | cons c rest =>
    obtain ⟨hchars, hc⟩ := Text.eq_append_of_dropWhile_eq hdrop
    rw [bne_eq_false_iff_eq] at hc
    rw [hchars, hc, Utf8.encodeChars_append, Utf8.encodeChars_cons,
      (span_append hbefore (by rintro _ ⟨⟩; rfl)).2]
    rfl

end Bytes

section References

namespace Reference

theorem toNat_of_mem_name {reference : Reference} {c : Char} (hc : c ∈ reference.name) :
    c.toNat = 35 ∨ 48 ≤ c.toNat ∧ c.toNat ≤ 57 ∨ 65 ≤ c.toNat ∧ c.toNat ≤ 90
      ∨ 97 ≤ c.toNat ∧ c.toNat ≤ 122 := by
  cases reference with
  | entity name char mem =>
    have hletters : ∀ entity ∈ entities, ∀ c ∈ entity.1, 97 ≤ c.toNat ∧ c.toNat ≤ 122 := by
      simp [entities]
    exact .inr (.inr (.inr (hletters _ mem c hc)))
  | decimal digits char number ne_zero =>
    rcases List.mem_cons.mp hc with rfl | hc
    · exact .inl rfl
    · obtain ⟨d, h⟩ := number.isDigit_of_mem c hc
      exact .inr h.toNat_cases
  | hexadecimal digits char number ne_zero =>
    rcases List.mem_cons.mp hc with rfl | hc
    · exact .inl rfl
    · rcases List.mem_cons.mp hc with rfl | hc
      · exact .inr (.inr (.inr ⟨by decide, by decide⟩))
      · obtain ⟨d, h⟩ := number.isDigit_of_mem c hc
        exact .inr h.toNat_cases

theorem code_digits {radix : Nat} {digits : List Char} {c : Char}
    (h : Numeral.IsNumeral radix digits c.toNat) :
    Xml.Reference.code radix digits = .ok c.toNat := by
  have hlimit : c.toNat ≤ Numeral.maxUInt32 := by
    have hvalid : c.toNat < 0xD800 ∨ 0xDFFF < c.toNat ∧ c.toNat < 0x110000 := c.valid
    rw [Numeral.maxUInt32]
    omega
  unfold Xml.Reference.code
  split
  · exact absurd h (Numeral.not_isNumeral_of_sign (.inl rfl))
  · exact absurd h (Numeral.not_isNumeral_of_sign (.inr rfl))
  · rw [(Numeral.number_eq_ok_iff _ _ _ _ _).mpr ⟨h, hlimit⟩]

theorem ofCode_toNat {c : Char} (h : c.toNat ≠ 0) : Xml.Reference.ofCode c.toNat = .ok c := by
  have hvalid : c.toNat.isValidChar := c.valid
  rw [Xml.Reference.ofCode, if_neg h, if_pos hvalid, Char.ofNat_toNat]

theorem character_decimal {digits : List Char} {c : Char}
    (h : Numeral.IsNumeral 10 digits c.toNat) (hne : c.toNat ≠ 0) :
    Xml.Reference.character digits = .ok c := by
  unfold Xml.Reference.character
  split
  · obtain ⟨d, hd⟩ := h.isDigit_of_mem 'x' List.mem_cons_self
    unfold Numeral.IsDigit at hd
    simp at hd
    omega
  · rw [code_digits h]
    exact ofCode_toNat hne

theorem character_hexadecimal {digits : List Char} {c : Char}
    (h : Numeral.IsNumeral 16 digits c.toNat) (hne : c.toNat ≠ 0) :
    Xml.Reference.character ('x' :: digits) = .ok c := by
  rw [Xml.Reference.character, code_digits h]
  exact ofCode_toNat hne

theorem resolve_name (reference : Reference) :
    Xml.Reference.resolve reference.name = .ok reference.char := by
  cases reference with
  | entity name char mem =>
    simp only [entities, List.mem_cons, Prod.mk.injEq, List.not_mem_nil, or_false] at mem
    rcases mem with ⟨rfl, rfl⟩ | ⟨rfl, rfl⟩ | ⟨rfl, rfl⟩ | ⟨rfl, rfl⟩ | ⟨rfl, rfl⟩
    all_goals rfl
  | decimal digits char number ne_zero =>
    rw [name, Xml.Reference.resolve, character_decimal number ne_zero]
    rfl
  | hexadecimal digits char number ne_zero =>
    rw [name, Xml.Reference.resolve, character_hexadecimal number ne_zero]
    rfl

end Reference

open Xml.Reference (expand)

theorem exists_goOpen_eq {cs : List Char} (hcs : ∀ c ∈ cs, c ≠ ';' ∧ c ≠ '&')
    {name : List Char} {c : Char} (hresolve : Xml.Reference.resolve (name.reverse ++ cs) = .ok c)
    (size start pos : Nat) (done rest : List Char) :
    ∃ pos', expand.goOpen size start name pos done (cs ++ ';' :: rest) =
      expand.go size pos' (c :: done) rest := by
  induction cs generalizing name pos with
  | nil =>
    rw [List.append_nil] at hresolve
    rw [List.nil_append, expand.goOpen, if_pos rfl, hresolve]
    exact ⟨pos + 1, rfl⟩
  | cons d cs ih =>
    obtain ⟨hd, hcs⟩ := List.forall_mem_cons.mp hcs
    rw [List.cons_append, expand.goOpen, if_neg hd.1, if_neg hd.2]
    apply ih hcs
    rwa [List.reverse_cons, List.append_assoc, List.singleton_append]

theorem exists_go_literal {cs : List Char} (hcs : ∀ c ∈ cs, c ≠ '&') (size pos : Nat)
    (done rest : List Char) :
    ∃ pos', expand.go size pos done (cs ++ rest) =
      expand.go size pos' (cs.reverse ++ done) rest := by
  induction cs generalizing pos done with
  | nil => exact ⟨pos, rfl⟩
  | cons c cs ih =>
    obtain ⟨hc, hcs⟩ := List.forall_mem_cons.mp hcs
    obtain ⟨pos', h⟩ := ih hcs (pos + c.utf8Size) (c :: done)
    refine ⟨pos', ?_⟩
    rw [List.cons_append, expand.go, if_neg hc, h, List.reverse_cons, List.append_assoc,
      List.singleton_append]

theorem exists_go_reference (reference : Reference) (size pos : Nat) (done rest : List Char) :
    ∃ pos', expand.go size pos done (reference.chars ++ rest) =
      expand.go size pos' (reference.char :: done) rest := by
  have hname : ∀ c ∈ reference.name, c ≠ ';' ∧ c ≠ '&' := by
    intro c hc
    have hcode := Reference.toNat_of_mem_name hc
    refine ⟨?_, ?_⟩
    · rintro rfl
      revert hcode
      decide
    · rintro rfl
      revert hcode
      decide
  have hchars : reference.chars ++ rest = '&' :: (reference.name ++ ';' :: rest) := by
    simp [Reference.chars]
  have hresolve : Xml.Reference.resolve ([].reverse ++ reference.name) = .ok reference.char :=
    reference.resolve_name
  rw [hchars, expand.go, if_pos rfl]
  exact exists_goOpen_eq hname hresolve size pos (pos + 1) done rest

theorem go_parts {quote : Quote} (parts : List (Part quote)) (size pos : Nat)
    (done : List Char) :
    expand.go size pos done (parts.flatMap Part.chars) =
      .ok (done.reverse ++ parts.flatMap Part.text) := by
  induction parts generalizing pos done with
  | nil => rw [List.flatMap_nil, List.flatMap_nil, List.append_nil, expand.go]
  | cons part parts ih =>
    rw [List.flatMap_cons, List.flatMap_cons]
    cases part with
    | literal text plain =>
      obtain ⟨pos', h⟩ := exists_go_literal (fun c hc => (plain c hc).1) size pos done
        (parts.flatMap Part.chars)
      rw [Part.chars, Part.text, h, ih, List.reverse_append, List.reverse_reverse,
        List.append_assoc]
    | reference ref =>
      obtain ⟨pos', h⟩ := exists_go_reference ref size pos done (parts.flatMap Part.chars)
      rw [Part.chars, Part.text, h, ih, List.reverse_cons, List.append_assoc]

theorem expand_value {quote : Quote} (parts : List (Part quote)) :
    expand (parts.flatMap Part.chars) = .ok (parts.flatMap Part.text) :=
  go_parts parts _ 0 []

end References
section Attributes

theorem Space.dropWhile_append (space : Space) {rest : List UInt8}
    (h : ∀ b ∈ rest.head?, Xml.isSpace b = false) :
    (space.bytes ++ rest).dropWhile Xml.isSpace = rest :=
  (span_append space.isSpace h).2

namespace Quote

variable (quote : Quote)

theorem toNat_char_lt : quote.char.toNat < 128 := by
  cases quote with
  | single | double => decide

theorem isSpace_eq_false : Xml.isSpace quote.char.toUInt8 = false := by
  cases quote with
  | single | double => decide

theorem isQuote :
    (quote.char.toUInt8 == '"'.toUInt8 || quote.char.toUInt8 == '\''.toUInt8) = true := by
  cases quote with
  | single | double => decide

theorem notMem_reference (reference : Reference) : quote.char ∉ reference.chars := by
  rw [Reference.chars, List.cons_append, List.mem_cons, List.mem_append, List.mem_singleton]
  rintro (h | h | h)
  · cases quote with
    | single | double => cases h
  · have hcode := Reference.toNat_of_mem_name h
    cases quote with
    | single | double =>
      revert hcode
      decide
  · cases quote with
    | single | double => cases h

end Quote

theorem equals_append (space : Space) (size : Nat) (rest : List UInt8) :
    RawAttribute.equals size (space.bytes ++ '='.toUInt8 :: rest) = .ok rest := by
  have hhead : ∀ b ∈ ('='.toUInt8 :: rest).head?, Xml.isSpace b = false := by
    rintro _ ⟨⟩
    rfl
  rw [RawAttribute.equals, space.dropWhile_append hhead]
  rfl

theorem value?_append (space : Space) (quote : Quote) {value : List UInt8}
    (hvalue : quote.char.toUInt8 ∉ value) (size : Nat) (rest : List UInt8) :
    RawAttribute.value? size (space.bytes ++ quote.char.toUInt8 ::
      (value ++ quote.char.toUInt8 :: rest)) = .ok (value, rest) := by
  have hhead : ∀ b ∈ (quote.char.toUInt8 :: (value ++ quote.char.toUInt8 :: rest)).head?,
      Xml.isSpace b = false := by
    rintro _ ⟨⟩
    exact quote.isSpace_eq_false
  have hinside : ∀ b ∈ value, (b != quote.char.toUInt8) = true := by
    intro b hb
    exact bne_iff_ne.mpr fun heq => hvalue (heq ▸ hb)
  have hend : ∀ b ∈ (quote.char.toUInt8 :: rest).head?, (b != quote.char.toUInt8) = false := by
    rintro _ ⟨⟩
    exact bne_self_eq_false _
  obtain ⟨htake, hdrop⟩ := span_append hinside hend
  rw [RawAttribute.value?, space.dropWhile_append hhead]
  simp only [quote.isQuote, ↓reduceIte, htake, hdrop]

/--
Bytes that can be the key of an attribute: only the first one may be an equals sign.
-/
def IsKey (key : List UInt8) : Prop :=
  ∃ b rest, key = b :: rest ∧ Xml.isSpace b = false
    ∧ ∀ c ∈ rest, RawAttribute.isKeyByte c = true

theorem Name.isKey_bytes (name : Name) : IsKey name.bytes := by
  obtain ⟨b, rest, hname⟩ := List.exists_cons_of_ne_nil name.bytes_ne_nil
  have hspace := name.isSpace_eq_false
  have hkey := name.isKeyByte_eq_true
  rw [hname, List.forall_mem_cons] at hspace hkey
  exact ⟨b, rest, hname, hspace.1, hkey.2⟩

theorem exists_next_append (before : Space) {key : List UInt8} (hkey : IsKey key)
    (beforeEquals afterEquals : Space) (quote : Quote) {value : List UInt8}
    (hvalue : quote.char.toUInt8 ∉ value) {earlier : List RawAttribute}
    (hnew : ∀ raw ∈ earlier, raw.key ≠ key) (size : Nat) (rest : List UInt8) :
    ∃ position, RawAttribute.next size earlier (before.bytes ++ (key ++ (beforeEquals.bytes
      ++ '='.toUInt8 :: (afterEquals.bytes ++ quote.char.toUInt8
        :: (value ++ quote.char.toUInt8 :: rest))))) = .ok (some (⟨position, key, value⟩, rest)) := by
  obtain ⟨b, key, rfl, hspace, hkey⟩ := hkey
  have hvalue := value?_append afterEquals quote hvalue size rest
  generalize afterEquals.bytes ++ quote.char.toUInt8 :: (value ++ quote.char.toUInt8 :: rest) =
    more at hvalue
  have hhead : ∀ c ∈ (b :: (key ++ (beforeEquals.bytes ++ '='.toUInt8 :: more))).head?,
      Xml.isSpace c = false := by
    rintro _ ⟨⟩
    exact hspace
  -- the key ends at the equals sign, or at the white space before it
  have hend : ∀ c ∈ (beforeEquals.bytes ++ '='.toUInt8 :: more).head?,
      RawAttribute.isKeyByte c = false := by
    intro c hc
    rw [RawAttribute.isKeyByte, Bool.and_eq_false_iff, bne_eq_false_iff_eq]
    cases hequals : beforeEquals.bytes with
    | nil =>
      rw [hequals] at hc
      exact .inl (Option.some.inj hc).symm
    | cons first space =>
      have hfirst := beforeEquals.isSpace first (by rw [hequals]; exact List.mem_cons_self)
      rw [hequals] at hc
      rw [← Option.some.inj hc, hfirst]
      exact .inr rfl
  obtain ⟨htake, hdrop⟩ := span_append hkey hend
  have hfind : earlier.find? (·.key == b :: key) = none := by
    rw [List.find?_eq_none]
    intro raw hraw heq
    exact hnew raw hraw (beq_iff_eq.mp heq)
  have hequals := equals_append beforeEquals size more
  refine ⟨size - ((key ++ (beforeEquals.bytes ++ '='.toUInt8 :: more)).length + 1), ?_⟩
  rw [List.cons_append, RawAttribute.next, before.dropWhile_append hhead]
  simp only [htake, hdrop, hequals, hfind, hvalue, bind, Except.bind]
  rfl

namespace Attribute

variable (attr : Attribute)

theorem quote_notMem_valueBytes : attr.quote.char.toUInt8 ∉ attr.valueBytes := by
  intro hmem
  have hmem := (Utf8.mem_encodeChars_iff attr.quote.toNat_char_lt _).mp hmem
  obtain ⟨part, -, hmem⟩ := List.mem_flatMap.mp hmem
  cases part with
  | literal text plain => exact (plain _ hmem).2 rfl
  | reference ref => exact attr.quote.notMem_reference ref hmem

theorem exists_next_eq {earlier : List RawAttribute}
    (hnew : ∀ raw ∈ earlier, raw.key ≠ attr.name.bytes) (size : Nat) (rest : List UInt8) :
    ∃ position, RawAttribute.next size earlier (attr.bytes ++ rest) =
      .ok (some (⟨position, attr.name.bytes, attr.valueBytes⟩, rest)) := by
  have hbytes : attr.bytes ++ rest = attr.before.bytes ++ (attr.name.bytes
      ++ (attr.beforeEquals.bytes ++ '='.toUInt8 :: (attr.afterEquals.bytes
        ++ attr.quote.char.toUInt8 :: (attr.valueBytes ++ attr.quote.char.toUInt8 :: rest)))) := by
    simp only [bytes, List.append_assoc, List.cons_append, List.nil_append]
  rw [hbytes]
  exact exists_next_append attr.before attr.name.isKey_bytes attr.beforeEquals attr.afterEquals
    attr.quote attr.quote_notMem_valueBytes hnew size rest

theorem decode_eq (position : Nat) :
    RawAttribute.decode ⟨position, attr.name.bytes, attr.valueBytes⟩ = .ok attr.pair := by
  have hname : Utf8.decode (localName attr.name.bytes) =
      .ok (String.ofList attr.name.localChars) := by
    rw [attr.name.localName_bytes, Utf8.decode_encodeChars]
  simp only [RawAttribute.decode, hname, valueBytes, Utf8.decodeChars_encodeChars, Except.mapError,
    bind, Except.bind, expand_value]
  rfl

end Attribute

theorem go_of_next {size : Nat} {earlier : List RawAttribute} {input rest : List UInt8}
    {raw : RawAttribute} {pair : String × String}
    (hnext : RawAttribute.next size earlier input = .ok (some (raw, rest)))
    (hdecode : raw.decode = .ok pair) (done : List (String × String)) :
    tagAttributes.go size earlier done input =
      tagAttributes.go size (raw :: earlier) (pair :: done) rest := by
  rw [tagAttributes.go]
  split
  · next hfault =>
    rw [hnext] at hfault
    cases hfault
  · next hnone =>
    rw [hnext] at hnone
    cases hnone
  · next hsome =>
    rw [hnext] at hsome
    cases hsome
    rw [hdecode]

theorem go_of_none {size : Nat} {earlier : List RawAttribute} {input : List UInt8}
    (hnext : RawAttribute.next size earlier input = .ok none) (done : List (String × String)) :
    tagAttributes.go size earlier done input = .ok done.reverse := by
  rw [tagAttributes.go]
  split
  · next hfault =>
    rw [hnext] at hfault
    cases hfault
  · rfl
  · next hsome =>
    rw [hnext] at hsome
    cases hsome

theorem go_attributes {attrs : List Attribute} (hnodup : (attrs.map (·.name.chars)).Nodup)
    {earlier : List RawAttribute}
    (hnew : ∀ attr ∈ attrs, ∀ raw ∈ earlier, raw.key ≠ attr.name.bytes) (after : Space)
    (size : Nat) (done : List (String × String)) :
    tagAttributes.go size earlier done (attrs.flatMap Attribute.bytes ++ after.bytes) =
      .ok (done.reverse ++ attrs.map Attribute.pair) := by
  induction attrs generalizing earlier done with
  | nil =>
    have hdrop : after.bytes.dropWhile Xml.isSpace = [] :=
      List.dropWhile_eq_nil_iff.mpr after.isSpace
    have hnext : RawAttribute.next size earlier after.bytes = .ok none := by
      rw [RawAttribute.next, hdrop]
    rw [List.flatMap_nil, List.nil_append, List.map_nil, List.append_nil, go_of_none hnext]
  | cons attr attrs ih =>
    obtain ⟨hfresh, hnodup⟩ := List.nodup_cons.mp hnodup
    obtain ⟨hattr, hattrs⟩ := List.forall_mem_cons.mp hnew
    obtain ⟨position, hnext⟩ := attr.exists_next_eq hattr size
      (attrs.flatMap Attribute.bytes ++ after.bytes)
    rw [List.flatMap_cons, List.append_assoc, go_of_next hnext (attr.decode_eq position), ih hnodup]
    · rw [List.reverse_cons, List.append_assoc, List.singleton_append, List.map_cons]
    · intro other hother
      rw [List.forall_mem_cons]
      refine ⟨?_, hattrs other hother⟩
      intro heq
      have hchars : attr.name.chars = other.name.chars := Utf8.encodeChars_injective heq
      exact hfresh (List.mem_map.mpr ⟨other, hother, hchars.symm⟩)

namespace Tag

variable (tag : Tag)

theorem isSpace_after_name :
    ∀ b ∈ (tag.attributes.flatMap Attribute.bytes ++ tag.after.bytes).head?,
      (!Xml.isSpace b) = false := by
  intro b hb
  rw [Bool.not_eq_false']
  cases hattributes : tag.attributes with
  | nil =>
    rw [hattributes] at hb
    exact tag.after.isSpace b (List.mem_of_mem_head? hb)
  | cons attr attrs =>
    obtain ⟨first, space, hspace⟩ := List.exists_cons_of_ne_nil attr.before_ne_nil
    rw [hattributes, List.flatMap_cons, Attribute.bytes, hspace] at hb
    rw [← Option.some.inj hb]
    exact attr.before.isSpace first (by rw [hspace]; exact List.mem_cons_self)

theorem span_bytes : tag.bytes.takeWhile (!Xml.isSpace ·) = tag.name.bytes
    ∧ tag.bytes.dropWhile (!Xml.isSpace ·) =
      tag.attributes.flatMap Attribute.bytes ++ tag.after.bytes := by
  refine span_append ?_ tag.isSpace_after_name
  intro b hb
  rw [tag.name.isSpace_eq_false b hb]
  rfl

theorem tagName_bytes : tagName tag.bytes = tag.name.bytes :=
  tag.span_bytes.1

theorem tagAttributes_bytes :
    tagAttributes tag.bytes = .ok (tag.attributes.map Attribute.pair) := by
  rw [tagAttributes, tag.span_bytes.2]
  exact go_attributes tag.nodup (fun _ _ _ hraw => absurd hraw List.not_mem_nil) tag.after _ []

theorem ofTag_bytes : Frame.ofTag tag.bytes = .ok ⟨tag.name.bytes,
    String.ofList tag.name.localChars, tag.attributes.map Attribute.pair, [], []⟩ := by
  have hname : Utf8.decode (localName (tagName tag.bytes)) =
      .ok (String.ofList tag.name.localChars) := by
    rw [tag.tagName_bytes, tag.name.localName_bytes, Utf8.decode_encodeChars]
  simp only [Frame.ofTag, hname, tag.tagAttributes_bytes, Except.mapError, bind, Except.bind]
  rw [tag.tagName_bytes]
  rfl

end Tag
end Attributes
end Written
end Xml
end Waybind
