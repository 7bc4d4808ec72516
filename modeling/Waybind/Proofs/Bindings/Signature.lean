import Waybind.Proofs.Bindings.NameTable

/-!
This module contains the signatures in the description of an interface: for each event the wire types
of its arguments. They are read back for every interface, since no name has a part in them.
-/

namespace Waybind
namespace Zig

section Braced

variable {α : Type} (item? : List Char → Option (α × List Char))

/--
The items up to a closing brace, and what stands behind it. An item is not empty.
-/
def items? (text : List Char) : Option (List α × List Char) :=
  if text.head? = some '\x7d' then
    some ([], text.tail)
  else
    match item? text with
    | none => none
    | some (item, rest) =>
      if rest.length < text.length then
        (items? rest).map (Prod.map (item :: ·) id)
      else
        none
termination_by text.length

def itemList? (text : List Char) : Option (List α × List Char) :=
  (text.dropPrefix? "&.\x7b".toList).bind (items? item?)

variable {item?}

theorem items?_brace (rest : List Char) : items? item? ('\x7d' :: rest) = some ([], rest) := by
  rw [items?, List.head?_cons, if_pos rfl, List.tail_cons]

theorem items?_cons {text rest behind : List Char} {item : α} {items : List α}
    (hbrace : text.head? ≠ some '\x7d') (hitem : item? text = some (item, rest))
    (hlength : rest.length < text.length) (hitems : items? item? rest = some (items, behind)) :
    items? item? text = some (item :: items, behind) := by
  rw [items?, if_neg hbrace, hitem]
  simp only [if_pos hlength, hitems]
  rfl

end Braced
end Zig

namespace Bindings

open Zig (items? itemList? isNameChar dropPrefix?_append)

def tag? (text : List Char) : Option (WireType × List Char) :=
  (text.dropPrefix? ['.']).bind fun text =>
    let name := text.takeWhile isNameChar
    (WireType.ofName? (String.ofList name)).map (·, text.drop name.length)

def tagItem? (text : List Char) : Option (WireType × List Char) :=
  (tag? text).map (Prod.map id fun rest => (rest.dropPrefix? [',', ' ']).getD rest)

def tagsItem? (text : List Char) : Option (List WireType × List Char) :=
  (itemList? tagItem? text).bind fun found => (found.2.dropPrefix? [',']).map (found.1, ·)

def tagLists? : List Char → Option (List (List WireType) × List Char) :=
  itemList? tagsItem?

def describedSignatures? (interface : Interface) (rest : List Char) :
    Option (List (List WireType) × List Char) :=
  (described? interface "event_signatures").bind fun value => tagLists? (value.toList ++ rest)

section Tags

theorem isNameChar_of_mem_name {tag : WireType} {c : Char} (h : c ∈ tag.name.toList) :
    isNameChar c = true := by
  have hall : tag.name.toList.all isNameChar = true := by
    cases tag <;> decide
  exact List.all_eq_true.mp hall c h

theorem tag?_append (tag : WireType) {c : Char} (hc : isNameChar c = false) (rest : List Char) :
    tag? ('.' :: (tag.name.toList ++ c :: rest)) = some (tag, c :: rest) := by
  have hname : (tag.name.toList ++ c :: rest).takeWhile isNameChar = tag.name.toList := by
    rw [List.takeWhile_append_of_pos fun c => isNameChar_of_mem_name,
      List.takeWhile_cons_of_neg (by simp [hc]), List.append_nil]
  rw [tag?, ← List.singleton_append, dropPrefix?_append, Option.bind_some]
  simp only [hname, String.ofList_toList, WireType.ofName?_name, Option.map_some, List.drop_left]

theorem tagItem?_comma (tag : WireType) (rest : List Char) :
    tagItem? ('.' :: (tag.name.toList ++ ',' :: ' ' :: rest)) = some (tag, rest) := by
  have hcomma : (',' :: ' ' :: rest).dropPrefix? [',', ' '] = some rest :=
    dropPrefix?_append [',', ' '] rest
  rw [tagItem?, tag?_append tag (by decide), Option.map_some, Prod.map_apply, hcomma]
  rfl

theorem tagItem?_brace (tag : WireType) (rest : List Char) :
    tagItem? ('.' :: (tag.name.toList ++ '\x7d' :: rest)) = some (tag, '\x7d' :: rest) := by
  rw [tagItem?, tag?_append tag (by decide)]
  rfl

theorem items?_tags (tags : List WireType) (rest : List Char) :
    items? tagItem? ((", ".intercalate (tags.map ("." ++ ·.name))).toList ++ '\x7d' :: rest) =
      some (tags, rest) := by
  induction tags with
  | nil => exact Zig.items?_brace rest
  | cons tag tags ih =>
    -- there is a comma only before another tag
    cases tags with
    | nil =>
      have htext : (", ".intercalate ([tag].map ("." ++ ·.name))).toList ++ '\x7d' :: rest =
          '.' :: (tag.name.toList ++ '\x7d' :: rest) := by
        simp
      rw [htext]
      apply Zig.items?_cons _ (tagItem?_brace tag rest) _ (Zig.items?_brace rest)
      · simp
      · simp only [List.length_cons, List.length_append]
        omega
    | cons next tags =>
      have htext : (", ".intercalate ((tag :: next :: tags).map ("." ++ ·.name))).toList
          ++ '\x7d' :: rest = '.' :: (tag.name.toList ++ ',' :: ' ' ::
            ((", ".intercalate ((next :: tags).map ("." ++ ·.name))).toList ++ '\x7d' :: rest)) := by
        rw [List.map_cons, List.map_cons, String.intercalate_cons_cons]
        simp [-String.toList_intercalate]
      rw [htext]
      apply Zig.items?_cons _ (tagItem?_comma tag _) _ ih
      · simp
      · simp only [List.length_cons, List.length_append]
        omega

theorem tagsItem?_signature (event : Event) (rest : List Char) :
    tagsItem? ((signature event).toList ++ rest) = some (event.args.map (·.type), rest) := by
  have htext : (signature event).toList ++ rest = "&.\x7b".toList
      ++ ((", ".intercalate ((event.args.map (·.type)).map ("." ++ ·.name))).toList
        ++ '\x7d' :: ',' :: rest) := by
    simp [signature, -String.toList_intercalate, Function.comp_def]
  have hcomma : (',' :: rest).dropPrefix? [','] = some rest :=
    dropPrefix?_append [','] rest
  rw [htext, tagsItem?, itemList?, dropPrefix?_append, Option.bind_some, items?_tags,
    Option.bind_some, hcomma]
  rfl

end Tags

theorem items?_signatures (events : List Event) (rest : List Char) :
    items? tagsItem? ((String.join (events.map signature)).toList ++ '\x7d' :: rest) =
      some (events.map (·.args.map (·.type)), rest) := by
  induction events with
  | nil => exact Zig.items?_brace rest
  | cons event events ih =>
    have hopen : (signature event).toList.head? = some '&' := by
      simp [signature]
    obtain ⟨behind, hbehind⟩ := List.head?_eq_some_iff.mp hopen
    rw [List.map_cons, String.join_cons, String.toList_append, List.append_assoc]
    apply Zig.items?_cons _ (tagsItem?_signature event _) _ ih
    · simp [hopen]
    · simp only [hbehind, List.length_append, List.length_cons]
      omega

theorem tagLists?_signatures (events : List Event) (rest : List Char) :
    tagLists? ((signatures events).toList ++ rest) =
      some (events.map (·.args.map (·.type)), rest) := by
  have htext : (signatures events).toList ++ rest = "&.\x7b".toList
      ++ ((String.join (events.map signature)).toList ++ '\x7d' :: rest) := by
    simp [signatures, -String.toList_join]
  rw [htext, tagLists?, itemList?, dropPrefix?_append, Option.bind_some, items?_signatures]

theorem describedSignatures?_eq {interface : Interface} (h : interface.events.isEmpty = false)
    (rest : List Char) :
    describedSignatures? interface rest =
      some (interface.events.values.map (·.args.map (·.type)), rest) := by
  have hvalue : described? interface "event_signatures" =
      some (signatures interface.events.values) := by
    unfold described? metadata
    rw [h]
    rfl
  rw [describedSignatures?, hvalue, Option.bind_some, tagLists?_signatures]

end Bindings
end Waybind
