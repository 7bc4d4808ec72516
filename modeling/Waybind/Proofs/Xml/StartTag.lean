import Waybind.Proofs.Table
import Waybind.Proofs.Xml.Reference

/-!
This module contains where the attributes of a tree come from. The elements of a tree, in document
order, are those that the start tags of the document open. Each has the attributes that are written
in its tag, of which the qualified names differ, but which it has by their local names only.
-/

namespace Waybind
namespace Xml

open Written (IsKey Quote Space)

section Attributes

/--
The attributes that are written as `bytes`, each with its qualified name and what stands between its
quotes.
-/
inductive Lists : List UInt8 → List (List UInt8 × List UInt8) → Prop where
  | nil (space : Space) : Lists space.bytes []
  | cons (before : Space) {key : List UInt8} (hkey : IsKey key) (beforeEquals afterEquals : Space)
    (quote : Quote) {value : List UInt8} (hvalue : quote.char.toUInt8 ∉ value) {rest : List UInt8}
    {attrs : List (List UInt8 × List UInt8)} (h : Lists rest attrs) :
    Lists (before.bytes ++ (key ++ (beforeEquals.bytes ++ '='.toUInt8 :: (afterEquals.bytes
      ++ quote.char.toUInt8 :: (value ++ quote.char.toUInt8 :: rest))))) ((key, value) :: attrs)

def Keeps (attr : List UInt8 × List UInt8) (pair : String × String) : Prop :=
  localName attr.1 = Utf8.encode pair.1
    ∧ ∃ value, attr.2 = Utf8.encodeChars value ∧ Denotes value pair.2.toList

theorem exists_space_append (input : List UInt8) :
    ∃ space : Space, input = space.bytes ++ input.dropWhile isSpace :=
  ⟨⟨input.takeWhile isSpace, fun _ hb => List.mem_takeWhile_imp hb⟩,
    List.takeWhile_append_dropWhile.symm⟩

namespace RawAttribute

theorem exists_of_equals {size : Nat} {input rest : List UInt8}
    (h : equals size input = .ok rest) :
    ∃ space : Space, input = space.bytes ++ '='.toUInt8 :: rest := by
  obtain ⟨space, hspace⟩ := exists_space_append input
  refine ⟨space, ?_⟩
  unfold equals at h
  split at h
  · cases h
  · next b after hdrop =>
    split at h
    · next hb =>
      cases h
      rw [hspace, hdrop, beq_iff_eq.mp hb]
    · cases h

theorem exists_of_value? {size : Nat} {input value rest : List UInt8}
    (h : value? size input = .ok (value, rest)) :
    ∃ (space : Space) (quote : Quote), quote.char.toUInt8 ∉ value
      ∧ input = space.bytes ++ quote.char.toUInt8 :: (value ++ quote.char.toUInt8 :: rest) := by
  obtain ⟨space, hspace⟩ := exists_space_append input
  unfold value? at h
  split at h
  · cases h
  · next b after hdrop =>
    split at h
    · next hb =>
      obtain ⟨quote, rfl⟩ : ∃ quote : Quote, b = quote.char.toUInt8 := by
        rw [Bool.or_eq_true, beq_iff_eq, beq_iff_eq] at hb
        rcases hb with rfl | rfl
        · exact ⟨.double, rfl⟩
        · exact ⟨.single, rfl⟩
      split at h
      · cases h
      · next hend =>
        obtain ⟨hafter, hquote⟩ := Text.eq_append_of_dropWhile_eq hend
        cases h
        rw [bne_eq_false_iff_eq] at hquote
        refine ⟨space, quote, ?_, ?_⟩
        · intro hmem
          exact absurd (List.mem_takeWhile_imp hmem) (by simp)
        · rw [hquote] at hafter
          rw [← hafter, ← hdrop, ← hspace]
    · cases h

theorem exists_of_next {size : Nat} {earlier : List RawAttribute} {input rest : List UInt8}
    {raw : RawAttribute} (h : next size earlier input = .ok (some (raw, rest))) :
    ∃ (before beforeEquals afterEquals : Space) (quote : Quote), IsKey raw.key
      ∧ quote.char.toUInt8 ∉ raw.value ∧ (∀ other ∈ earlier, other.key ≠ raw.key)
      ∧ input = before.bytes ++ (raw.key ++ (beforeEquals.bytes ++ '='.toUInt8 :: (afterEquals.bytes
        ++ quote.char.toUInt8 :: (raw.value ++ quote.char.toUInt8 :: rest)))) := by
  obtain ⟨before, hbefore⟩ := exists_space_append input
  unfold next at h
  split at h
  · cases h
  · next b after hdrop =>
    obtain ⟨behind, hequals, h⟩ := (Except.bind_eq_ok_iff _ _ _).mp h
    obtain ⟨-, hspace⟩ := Text.eq_append_of_dropWhile_eq hdrop
    split at h
    · cases h
    · next hfind =>
      obtain ⟨⟨value, rest'⟩, hvalue, h⟩ := (Except.bind_eq_ok_iff _ _ _).mp h
      cases h
      obtain ⟨beforeEquals, hbehind⟩ := exists_of_equals hequals
      obtain ⟨afterEquals, quote, hquote, rfl⟩ := exists_of_value? hvalue
      refine ⟨before, beforeEquals, afterEquals, quote, ?_, hquote, ?_, ?_⟩
      · exact ⟨b, _, rfl, hspace, fun _ hc => List.mem_takeWhile_imp hc⟩
      · intro other hother heq
        exact List.find?_eq_none.mp hfind other hother (beq_iff_eq.mpr heq)
      · rw [List.cons_append, ← hbehind, List.takeWhile_append_dropWhile, ← hdrop, ← hbefore]

theorem forall_isSpace_of_next {size : Nat} {earlier : List RawAttribute} {input : List UInt8}
    (h : next size earlier input = .ok none) : ∀ b ∈ input, isSpace b = true := by
  unfold next at h
  split at h
  · next hdrop => exact List.dropWhile_eq_nil_iff.mp hdrop
  · obtain ⟨_, -, h⟩ := (Except.bind_eq_ok_iff _ _ _).mp h
    split at h
    · cases h
    · obtain ⟨_, -, h⟩ := (Except.bind_eq_ok_iff _ _ _).mp h
      cases h

theorem keeps_of_decode {raw : RawAttribute} {pair : String × String}
    (h : raw.decode = .ok pair) : Keeps (raw.key, raw.value) pair := by
  obtain ⟨name, value, text, hname, hvalue, htext, rfl⟩ := decode_eq_ok_iff.mp h
  refine ⟨Utf8.decode_eq_ok_iff.mp hname, value, hvalue, ?_⟩
  rwa [String.toList_ofList]

end RawAttribute

theorem exists_lists_of_go {size : Nat} {earlier : List RawAttribute}
    {done pairs : List (String × String)} {input : List UInt8}
    (h : tagAttributes.go size earlier done input = .ok pairs) :
    ∃ attrs kept, pairs = done.reverse ++ kept ∧ Lists input attrs ∧ (attrs.map Prod.fst).Nodup
      ∧ (∀ attr ∈ attrs, ∀ raw ∈ earlier, raw.key ≠ attr.1) ∧ List.Forall₂ Keeps attrs kept := by
  fun_induction tagAttributes.go size earlier done input with
  | case1 | case3 => cases h
  | case2 earlier done input hnext =>
    cases h
    have hspace := RawAttribute.forall_isSpace_of_next hnext
    exact ⟨[], [], (List.append_nil _).symm, .nil ⟨input, hspace⟩, List.nodup_nil,
      List.forall_mem_nil _, .nil⟩
  | case4 earlier done input raw rest hnext _ pair hpair ih =>
    obtain ⟨attrs, kept, rfl, hlists, hnodup, hnew, hkept⟩ := ih h
    obtain ⟨before, beforeEquals, afterEquals, quote, hkey, hvalue, hfresh, rfl⟩ :=
      RawAttribute.exists_of_next hnext
    refine ⟨(raw.key, raw.value) :: attrs, pair :: kept, by simp,
      .cons before hkey beforeEquals afterEquals quote hvalue hlists, ?_, ?_,
      .cons (RawAttribute.keeps_of_decode hpair) hkept⟩
    · refine List.nodup_cons.mpr ⟨?_, hnodup⟩
      intro hmem
      obtain ⟨attr, hattr, heq⟩ := List.mem_map.mp hmem
      exact hnew attr hattr raw List.mem_cons_self heq.symm
    · refine List.forall_mem_cons.mpr ⟨hfresh, ?_⟩
      intro attr hattr other hother
      exact hnew attr hattr other (List.mem_cons_of_mem raw hother)

def behindName (tag : List UInt8) : List UInt8 :=
  tag.dropWhile (!isSpace ·)

theorem exists_lists_of_tagAttributes {tag : List UInt8} {pairs : List (String × String)}
    (h : tagAttributes tag = .ok pairs) :
    ∃ attrs, Lists (behindName tag) attrs ∧ (attrs.map Prod.fst).Nodup
      ∧ List.Forall₂ Keeps attrs pairs := by
  obtain ⟨attrs, kept, rfl, hlists, hnodup, -, hkept⟩ := exists_lists_of_go h
  exact ⟨attrs, hlists, hnodup, hkept⟩

theorem Lists.next_cases {bytes : List UInt8} {attrs : List (List UInt8 × List UInt8)}
    (h : Lists bytes attrs) : attrs = [] ∧ RawAttribute.next 0 [] bytes = .ok none
      ∨ ∃ key value attrs' position rest, attrs = (key, value) :: attrs' ∧ Lists rest attrs'
        ∧ RawAttribute.next 0 [] bytes = .ok (some (⟨position, key, value⟩, rest)) := by
  cases h with
  | nil space =>
    have hdrop : space.bytes.dropWhile isSpace = [] :=
      List.dropWhile_eq_nil_iff.mpr space.isSpace
    exact .inl ⟨rfl, by rw [RawAttribute.next, hdrop]⟩
  | cons before hkey beforeEquals afterEquals quote hvalue hrest =>
    obtain ⟨position, hnext⟩ := Written.exists_next_append before hkey beforeEquals afterEquals
      quote hvalue (List.forall_mem_nil _) 0 _
    exact .inr ⟨_, _, _, position, _, rfl, hrest, hnext⟩

theorem Lists.unique {bytes : List UInt8} {attrs attrs' : List (List UInt8 × List UInt8)}
    (h : Lists bytes attrs) (h' : Lists bytes attrs') : attrs' = attrs := by
  induction attrs generalizing bytes attrs' with
  | nil =>
    obtain ⟨-, hnext⟩ | ⟨_, _, _, _, _, hcons, -⟩ := h.next_cases
    · obtain ⟨hnil, -⟩ | ⟨_, _, _, _, _, -, -, hnext'⟩ := h'.next_cases
      · exact hnil
      · rw [hnext] at hnext'
        cases hnext'
    · cases hcons
  | cons attr attrs ih =>
    obtain ⟨hnil, -⟩ | ⟨key, value, _, position, rest, hcons, hrest, hnext⟩ := h.next_cases
    · cases hnil
    · cases hcons
      obtain ⟨-, hnext'⟩ | ⟨_, _, attrs', _, _, rfl, hrest', hnext'⟩ := h'.next_cases
      · rw [hnext] at hnext'
        cases hnext'
      · rw [hnext] at hnext'
        cases hnext'
        rw [ih hrest hrest']

end Attributes

section Tree

mutual

def Element.elements : Element → List Element
  | ⟨name, attributes, children, text⟩ =>
    ⟨name, attributes, children, text⟩ :: elementsOf children

def elementsOf : List Element → List Element
  | [] => []
  | element :: elements => element.elements ++ elementsOf elements

end

theorem elementsOf_append (elements elements' : List Element) :
    elementsOf (elements ++ elements') = elementsOf elements ++ elementsOf elements' := by
  induction elements with
  | nil => rfl
  | cons element elements ih =>
    rw [List.cons_append, elementsOf, elementsOf, ih, List.append_assoc]

def Token.tags : Token → List (List UInt8)
  | .opening tag _ => [tag]
  | .text _ | .cdata _ | .reference _ | .skipped | .closing _ => []

/--
The start tags of a document, up to where it cannot be read any more.
-/
def startTags (input : List UInt8) : List (List UInt8) :=
  match h : Token.next input with
  | .error _ => []
  | .ok none => []
  | .ok (some (token, rest)) =>
    have := Token.length_of_next h
    token.tags ++ startTags rest
termination_by input.length

theorem startTags_of_next {input rest : List UInt8} {token : Token}
    (h : Token.next input = .ok (some (token, rest))) :
    startTags input = token.tags ++ startTags rest := by
  rw [startTags]
  split
  · next hfault =>
    rw [h] at hfault
    cases hfault
  · next hnone =>
    rw [h] at hnone
    cases hnone
  · next hsome =>
    rw [h] at hsome
    cases hsome
    rfl

end Tree

section Run

def Frame.seen (frame : Frame) : List (List (String × String)) :=
  frame.attributes :: (elementsOf frame.children.reverse).map (·.attributes)

def seenIn (outer : List Frame) : List (List (String × String)) :=
  outer.reverse.flatMap Frame.seen

def Progress.seen : Progress → List (List (String × String))
  | .prolog => []
  | .inside frame outer => seenIn (frame :: outer)
  | .finished root => root.elements.map (·.attributes)

theorem seenIn_cons (frame : Frame) (outer : List Frame) :
    seenIn (frame :: outer) = seenIn outer ++ frame.seen := by
  simp only [seenIn, List.reverse_cons, List.flatMap_append, List.flatMap_cons, List.flatMap_nil,
    List.append_nil]

theorem Progress.seen_within (outer : List Frame) : (within outer).seen = seenIn outer := by
  cases outer with
  | nil | cons => rfl

theorem Frame.seen_addChild (frame : Frame) (child : Element) :
    (frame.addChild child).seen = frame.seen ++ child.elements.map (·.attributes) := by
  simp only [seen, addChild, List.reverse_cons, elementsOf_append, elementsOf, List.append_nil,
    List.map_append, List.cons_append]

theorem Progress.seen_addBytes (frame : Frame) (outer : List Frame) (bytes : List UInt8) :
    (inside (frame.addBytes bytes) outer).seen = seenIn (frame :: outer) := by
  rw [seen, seenIn_cons, seenIn_cons]
  rfl

theorem Progress.seen_complete (element : Element) (outer : List Frame) :
    (complete element outer).seen = seenIn outer ++ element.elements.map (·.attributes) := by
  cases outer with
  | nil => rfl
  | cons frame outer =>
    rw [complete, seen, seenIn_cons, seenIn_cons, Frame.seen_addChild, List.append_assoc]

theorem Frame.seen_of_close {frame : Frame} {element : Element} (h : frame.close = .ok element) :
    element.elements.map (·.attributes) = frame.seen := by
  obtain ⟨text, -, h⟩ := (Except.bind_eq_ok_iff _ _ _).mp h
  cases h
  rw [Element.elements]
  rfl

theorem Frame.of_ofTag {tag : List UInt8} {frame : Frame} (h : Frame.ofTag tag = .ok frame) :
    tagAttributes tag = .ok frame.attributes ∧ frame.seen = [frame.attributes] := by
  obtain ⟨name, -, h⟩ := (Except.bind_eq_ok_iff _ _ _).mp h
  obtain ⟨attributes, hattributes, h⟩ := (Except.bind_eq_ok_iff _ _ _).mp h
  cases h
  exact ⟨(Except.mapError_eq_ok_iff _ _ _).mp hattributes, rfl⟩

theorem Progress.exists_seen_of_openTag {tag : List UInt8} {empty : Bool} {outer : List Frame}
    {progress : Progress} (h : openTag tag empty outer = .ok progress) :
    ∃ attributes, tagAttributes tag = .ok attributes
      ∧ progress.seen = seenIn outer ++ [attributes] := by
  obtain ⟨frame, hframe, h⟩ := (Except.bind_eq_ok_iff _ _ _).mp h
  obtain ⟨hattributes, hseen⟩ := Frame.of_ofTag hframe
  refine ⟨frame.attributes, hattributes, ?_⟩
  split at h
  · obtain ⟨element, hclose, h⟩ := (Except.bind_eq_ok_iff _ _ _).mp h
    cases h
    rw [seen_complete, Frame.seen_of_close hclose, hseen]
  · cases h
    rw [seen, seenIn_cons, hseen]

theorem Progress.exists_eq_within {progress : Progress}
    (h : ∀ root, progress ≠ .finished root) : ∃ outer, progress = within outer := by
  cases progress with
  | prolog => exact ⟨[], rfl⟩
  | inside frame outer => exact ⟨frame :: outer, rfl⟩
  | finished root => exact absurd rfl (h root)

theorem Progress.seen_of_step {progress : Progress} {token : Token} {outer : List Frame}
    (htoken : token.tags = []) (h : (within outer).step token = .ok progress) :
    progress.seen = seenIn outer := by
  cases outer with
  | nil =>
    cases token with
    | opening => cases htoken
    | closing => cases h
    | text | cdata | reference | skipped =>
      cases h
      rfl
  | cons frame outer =>
    cases token with
    | opening => cases htoken
    | closing name =>
      rw [within, step] at h
      split at h
      · obtain ⟨element, hclose, h⟩ := (Except.bind_eq_ok_iff _ _ _).mp h
        cases h
        rw [seen_complete, Frame.seen_of_close hclose, seenIn_cons]
      · cases h
    | text bytes | cdata bytes =>
      cases h
      exact seen_addBytes frame outer bytes
    | skipped =>
      cases h
      rfl
    | reference name =>
      obtain ⟨_, _, -, -, rfl⟩ := step_reference_eq_ok_iff.mp h
      exact seen_addBytes frame outer _

theorem Progress.exists_seen_of_step {progress : Progress} {token : Token} {outer : List Frame}
    (h : (within outer).step token = .ok progress) :
    ∃ new, progress.seen = seenIn outer ++ new
      ∧ List.Forall₂ (fun tag attributes => tagAttributes tag = .ok attributes) token.tags new := by
  cases token with
  | opening tag empty =>
    rw [step_opening] at h
    obtain ⟨attributes, hattributes, hseen⟩ := exists_seen_of_openTag h
    exact ⟨[attributes], hseen, .cons hattributes .nil⟩
  | text | cdata | reference | skipped | closing =>
    exact ⟨[], by rw [seen_of_step rfl h, List.append_nil], .nil⟩

theorem Progress.exists_seen_of_read {progress : Progress} {input : List UInt8} {root : Element}
    (h : read progress input = .ok root) :
    ∃ tags more new, startTags input = tags ++ more
      ∧ root.elements.map (·.attributes) = progress.seen ++ new
      ∧ List.Forall₂ (fun tag attributes => tagAttributes tag = .ok attributes) tags new := by
  induction hn : input.length using Nat.strong_induction_on generalizing progress input with
  | _ n ih =>
    by_cases hopen : ∀ root, progress ≠ .finished root
    · obtain ⟨outer, rfl⟩ := exists_eq_within hopen
      obtain ⟨token, rest, progress', hnext, hstep, h⟩ := exists_of_read hopen h
      have hlt := Token.length_of_next hnext
      rw [hn] at hlt
      obtain ⟨new, hseen, hnew⟩ := exists_seen_of_step hstep
      obtain ⟨tags, more, new', htags, hroot, hnew'⟩ := ih _ hlt h rfl
      refine ⟨token.tags ++ tags, more, new ++ new', ?_, ?_, List.rel_append hnew hnew'⟩
      · rw [startTags_of_next hnext, htags, List.append_assoc]
      · rw [hroot, hseen, seen_within, List.append_assoc]
    · simp only [not_forall, not_not] at hopen
      obtain ⟨root', rfl⟩ := hopen
      rw [read_finished] at h
      cases h
      exact ⟨[], startTags input, [], rfl, (List.append_nil _).symm, .nil⟩

theorem exists_tags_of_parse {input : List UInt8} {root : Element} (h : parse input = .ok root) :
    ∃ tags more, startTags input = tags ++ more
      ∧ List.Forall₂ (fun tag element => tagAttributes tag = .ok element.attributes) tags
        root.elements := by
  rw [Progress.parse_eq_read] at h
  obtain ⟨tags, more, new, htags, hroot, hnew⟩ := Progress.exists_seen_of_read h
  refine ⟨tags, more, htags, ?_⟩
  rw [Progress.seen, List.nil_append] at hroot
  rw [← hroot] at hnew
  rwa [List.forall₂_map_right_iff] at hnew

end Run

section Names

theorem map_localName_eq {attrs : List (List UInt8 × List UInt8)} {pairs : List (String × String)}
    (h : List.Forall₂ Keeps attrs pairs) :
    attrs.map (fun attr => localName attr.1) = (pairs.map Prod.fst).map Utf8.encode := by
  induction h with
  | nil => rfl
  | cons hkeeps _ ih => rw [List.map_cons, List.map_cons, List.map_cons, hkeeps.1, ih]

theorem localName_of_notMem {key : List UInt8} (h : ':'.toUInt8 ∉ key) : localName key = key := by
  have hdrop : key.dropWhile (· != ':'.toUInt8) = [] := by
    rw [List.dropWhile_eq_nil_iff]
    intro b hb
    exact bne_iff_ne.mpr fun heq => h (heq ▸ hb)
  rw [localName, hdrop]

/--
The element that a tag opens in which the attributes `attrs` are written, and no others. Their
qualified names differ. The names that the element has them by differ exactly if the local names do,
and then the element gives the only attribute of a name.
-/
structure Opens (tag : List UInt8) (attrs : List (List UInt8 × List UInt8)) (element : Element) :
    Prop where
  written : ∀ attrs', Lists (behindName tag) attrs' ↔ attrs' = attrs
  kept : List.Forall₂ Keeps attrs element.attributes
  qualified_nodup : (attrs.map Prod.fst).Nodup
  nodup_iff : (element.attributes.map Prod.fst).Nodup ↔
    (attrs.map fun attr => localName attr.1).Nodup
  nodup_of_unprefixed : (∀ attr ∈ attrs, ':'.toUInt8 ∉ attr.1) →
    (element.attributes.map Prod.fst).Nodup
  only : (element.attributes.map Prod.fst).Nodup → ∀ name value,
    element.attr? name = some value ↔ (name, value) ∈ element.attributes

theorem exists_opens {tag : List UInt8} {element : Element}
    (h : tagAttributes tag = .ok element.attributes) : ∃ attrs, Opens tag attrs element := by
  obtain ⟨attrs, hlists, hqualified, hkept⟩ := exists_lists_of_tagAttributes h
  have hiff : (element.attributes.map Prod.fst).Nodup ↔
      (attrs.map fun attr => localName attr.1).Nodup := by
    rw [map_localName_eq hkept, List.nodup_map_iff Utf8.encode_injective]
  refine ⟨attrs, ?_, hkept, hqualified, hiff, ?_, ?_⟩
  · intro attrs'
    constructor
    · exact fun hlists' => hlists.unique hlists'
    · rintro rfl
      exact hlists
  · intro hcolon
    have hsame : attrs.map (fun attr => localName attr.1) = attrs.map Prod.fst :=
      List.map_congr_left fun attr hattr => localName_of_notMem (hcolon attr hattr)
    rwa [hiff, hsame]
  · intro hnodup name value
    exact @Table.get?_eq_some_iff String ⟨element.attributes⟩ hnodup name value

theorem opens_of_parse {input : List UInt8} {root : Element} (h : parse input = .ok root) :
    ∃ tags more, startTags input = tags ++ more
      ∧ List.Forall₂ (fun tag element => ∃ attrs, Opens tag attrs element) tags root.elements := by
  obtain ⟨tags, more, htags, hroot⟩ := exists_tags_of_parse h
  exact ⟨tags, more, htags, hroot.imp fun _ _ => exists_opens⟩

theorem opens_prefixed :
    ∃ root, parse (Utf8.encode "<p xmlns='u' x:n='1' m='2'><c n='3' xmlns:n='v'/></p>") = .ok root
      ∧ root.attributes = [("xmlns", "u"), ("n", "1"), ("m", "2")]
      ∧ ∃ tags more, startTags (Utf8.encode
          "<p xmlns='u' x:n='1' m='2'><c n='3' xmlns:n='v'/></p>") = tags ++ more
        ∧ List.Forall₂ (fun tag element => ∃ attrs, Opens tag attrs element) tags
          root.elements := by
  have hread : (parse (Utf8.encode "<p xmlns='u' x:n='1' m='2'><c n='3' xmlns:n='v'/></p>")
      ).toOption.map (·.attributes) = some [("xmlns", "u"), ("n", "1"), ("m", "2")] := by
    decide +kernel
  obtain ⟨root, hroot, hattributes⟩ := Option.map_eq_some_iff.mp hread
  have hroot := (Except.toOption_eq_some_iff _ _).mp hroot
  exact ⟨root, hroot, hattributes, opens_of_parse hroot⟩

theorem exists_names_not_nodup :
    ∃ root, parse (Utf8.encode "<a x:n=\"1\" y:n=\"2\"/>") = .ok root
      ∧ ¬ (root.attributes.map Prod.fst).Nodup ∧ ("n", "2") ∈ root.attributes
      ∧ root.attr? "n" = some "1" := by
  have hread : (parse (Utf8.encode "<a x:n=\"1\" y:n=\"2\"/>")).toOption.map (·.attributes) =
      some [("n", "1"), ("n", "2")] := by
    decide +kernel
  obtain ⟨root, hroot, hattributes⟩ := Option.map_eq_some_iff.mp hread
  refine ⟨root, (Except.toOption_eq_some_iff _ _).mp hroot, ?_⟩
  rw [Element.attr?, hattributes]
  decide

end Names
end Xml
end Waybind
