import Waybind.Bindings.Enumeration
import Waybind.Proofs.Protocol.Content
import Waybind.Proofs.Zig.Declaration

/-!
This module contains what is left of an enumeration in its declaration. A reader for declarations of
enums finds the enumerants in the order of the document, with values that are numerals of the entries
and that the integer type behind the enum can take.
-/

namespace Waybind

namespace Numeral

theorem toList_toString_int (v : Int) :
    ∃ sign ∈ signs, (toString v).toList = sign.1 ++ Nat.toDigits 10 v.natAbs
      ∧ v = sign.2 * v.natAbs := by
  rw [Int.toString_eq_repr, Int.repr_eq_if]
  split
  · next hpos =>
    have habs : v.toNat = v.natAbs := by omega
    refine ⟨([], 1), by simp [signs], ?_, by omega⟩
    rw [Nat.repr_eq_ofList_toDigits, String.toList_ofList, habs, List.nil_append]
  · next hneg =>
    have habs : (-v).toNat = v.natAbs := by omega
    refine ⟨(['-'], -1), by simp [signs], ?_, by omega⟩
    rw [Nat.repr_eq_ofList_toDigits, habs]
    simp

theorem literal?_toString {v : Int} (h : v.natAbs ≤ maxInt64) : literal? (toString v) = some v := by
  obtain ⟨sign, hsign, htext, hvalue⟩ := toList_toString_int v
  have hdigits := isNumeral_toDigits (by decide : 1 < 10) (by decide) v.natAbs
  rw [literal?_eq_some_iff]
  refine ⟨[], [], sign, _, v.natAbs, by simpa using htext, by simp, by simp, hsign, ⟨h, ?_⟩, hvalue⟩
  exact ⟨([], 10), by simp [markers], _, rfl, hdigits⟩

theorem comma_notMem_toString (v : Int) : ',' ∉ (toString v).toList := by
  obtain ⟨sign, hsign, htext, -⟩ := toList_toString_int v
  have hcomma : ∀ sign ∈ signs, ',' ∉ sign.1 := by
    simp [signs]
  rw [htext, List.mem_append, not_or]
  refine ⟨hcomma sign hsign, ?_⟩
  intro hmem
  have hdigit := Nat.isDigit_of_mem_toDigits (by decide) (by decide) hmem
  simp at hdigit

end Numeral

theorem Entry.DeclaredBy.literal?_toString {child : Xml.Element} {entry : Entry}
    (h : entry.DeclaredBy child) : Numeral.literal? (toString entry.value) = some entry.value := by
  obtain ⟨text, -, hliteral⟩ := h.value
  exact Numeral.literal?_toString hliteral.natAbs_le

namespace Zig

structure EnumDeclaration where
  name : String
  backing : String
  enumerants : List (String × String)

def enumerant? (text : List Char) : Option ((String × String) × List Char) := do
  let text := skipComments text
  let name := leadingIdent text
  let text ← (text.drop name.length).dropPrefix? " = ".toList
  let value := text.takeWhile (· != ',')
  let text ← (text.drop value.length).dropPrefix? [',']
  return ((String.ofList name, String.ofList value), text)

theorem length_dropPrefix?_le {text start rest : List Char}
    (h : text.dropPrefix? start = some rest) :
    rest.length + start.length ≤ text.length := by
  obtain ⟨start', rfl, hstart⟩ := List.dropPrefix?_eq_some_iff.mp h
  rw [List.length_append, eq_of_beq hstart]
  omega

theorem length_skipComments_le (text : List Char) : (skipComments text).length ≤ text.length := by
  suffices h : ∀ inside, (skipComments.go inside text).length ≤ text.length from h false
  induction text with
  | nil => simp [skipComments.go]
  | cons c text ih =>
    intro inside
    rw [skipComments.go]
    split
    · exact Nat.le_succ_of_le (ih _)
    · split
      · exact Nat.le_succ_of_le (ih _)
      · split
        · exact Nat.le_succ_of_le (ih _)
        · exact Nat.le_refl _

theorem length_lt_of_enumerant? {text rest : List Char} {found : String × String}
    (h : enumerant? text = some (found, rest)) : rest.length < text.length := by
  simp only [enumerant?, Option.bind_eq_bind, Option.bind_eq_some_iff, Option.pure_def,
    Option.some.injEq, Prod.mk.injEq] at h
  obtain ⟨behindName, hname, behindValue, hvalue, -, rfl⟩ := h
  have hskip := length_skipComments_le text
  have hbehindName := length_dropPrefix?_le hname
  have hbehindValue := length_dropPrefix?_le hvalue
  simp only [List.length_drop, List.length_singleton] at hbehindName hbehindValue
  omega

def enumerants (text : List Char) : List (String × String) × List Char :=
  match h : enumerant? text with
  | some (found, rest) =>
    have := length_lt_of_enumerant? h
    let (others, rest) := enumerants rest
    (found :: others, rest)
  | none => ([], text)
termination_by text.length

def enumDeclaration? (text : String) : Option EnumDeclaration := do
  let text ← (skipComments text.toList).dropPrefix? "pub const ".toList
  let name := leadingIdent text
  let text ← (text.drop name.length).dropPrefix? " = enum(".toList
  let backing := text.takeWhile (· != ')')
  let text ← (text.drop backing.length).dropPrefix? ") \x7b".toList
  let (enumerants, text) := enumerants text
  if text = "\x7d;\n".toList then
    some ⟨String.ofList name, String.ofList backing, enumerants⟩
  else
    none

section Reading

variable (rest : List Char)

theorem takeWhile_append_cons {text : List Char} {c : Char} (h : c ∉ text) :
    (text ++ c :: rest).takeWhile (· != c) = text := by
  have hne : ∀ d ∈ text, (d != c) = true := by
    intro d hd
    rw [bne_iff_ne]
    rintro rfl
    exact h hd
  rw [List.takeWhile_append_of_pos hne, List.takeWhile_cons_of_neg (by simp), List.append_nil]

omit rest in
theorem isBlank_of_isNameStart {c : Char} (h : isNameStart c = true) : Text.isBlank c = false := by
  simp only [isNameStart, Bool.or_eq_true, Bool.and_eq_true, decide_eq_true_eq, beq_iff_eq,
    Char.le_def, UInt32.le_iff_toNat_le] at h
  unfold Text.isBlank
  rcases h with (h | h) | rfl
  · simp at h ⊢
    omega
  · simp at h ⊢
    omega
  · rfl

theorem exists_ident_eq_cons (name : String) :
    ∃ c cs, (ident name).toList = c :: cs ∧ Text.isBlank c = false ∧ c ≠ '/' := by
  unfold ident
  split
  · next hplain =>
    rw [Bool.and_eq_true] at hplain
    cases hname : name.toList with
    | nil => simp [hname, isPlain] at hplain
    | cons c cs =>
      rw [hname, isPlain, Bool.and_eq_true] at hplain
      obtain ⟨⟨hstart, -⟩, -⟩ := hplain
      refine ⟨c, cs, rfl, ?_, ?_⟩
      · exact isBlank_of_isNameStart hstart
      · rintro rfl
        simp [isNameStart] at hstart
  · exact ⟨'@', '"' :: ((escape name).toList ++ ['"']), by simp, by decide, by decide⟩

theorem skipComments_ident (name : String) :
    skipComments ((ident name).toList ++ rest) = (ident name).toList ++ rest := by
  obtain ⟨c, cs, hident, hblank, hslash⟩ := exists_ident_eq_cons name
  have hslash : (c == '/') = false := beq_false_of_ne hslash
  rw [hident, List.cons_append, skipComments, skipComments.go]
  simp only [hblank, hslash, Bool.false_and, Bool.false_eq_true, ↓reduceIte]

theorem enumerant?_append (doc : Option String) (name : String) {value : String}
    (hvalue : ',' ∉ value.toList) :
    enumerant? ((comment doc "///" ++ ident name ++ " = " ++ value ++ ",").toList ++ rest) =
      some ((ident name, value), rest) := by
  have htext : (comment doc "///" ++ ident name ++ " = " ++ value ++ ",").toList ++ rest =
      (comment doc "///").toList ++ ((ident name).toList
        ++ (" = ".toList ++ (value.toList ++ ',' :: rest))) := by
    simp
  have hname : leadingIdent ((ident name).toList
      ++ (" = ".toList ++ (value.toList ++ ',' :: rest))) = (ident name).toList :=
    leadingIdent_ident _ name (by decide : isNameChar ' ' = false)
  rw [enumerant?, htext, skipComments_doc, skipComments_ident]
  simp only [hname, List.drop_left, dropPrefix?_append, Option.bind_eq_bind, Option.bind_some,
    takeWhile_append_cons rest hvalue]
  have hcomma : (',' :: rest).dropPrefix? [','] = some rest := dropPrefix?_append [','] rest
  simp only [hcomma, Option.bind_some, Option.pure_def, String.ofList_toList]

theorem enumerants_cons {text : List Char} {found : String × String}
    (h : enumerant? text = some (found, rest)) :
    enumerants text = (found :: (enumerants rest).1, (enumerants rest).2) := by
  rw [enumerants]
  split
  · next found' rest' h' =>
    rw [h, Option.some.injEq, Prod.mk.injEq] at h'
    obtain ⟨rfl, rfl⟩ := h'
    rfl
  · next h' =>
    rw [h] at h'
    cases h'

theorem enumerants_end : enumerants "\x7d;\n".toList = ([], "\x7d;\n".toList) := by
  rw [enumerants]
  have hnone : enumerant? "\x7d;\n".toList = none := by decide
  split
  · next h =>
    rw [hnone] at h
    cases h
  · rfl

end Reading

end Zig

namespace Bindings

open Xml (Element)
open Zig (EnumDeclaration enumDeclaration?)

theorem enumerant?_enumerant (entry : Entry) (rest : List Char) :
    Zig.enumerant? ((enumerant entry).toList ++ rest) =
      some ((Zig.ident entry.name, toString entry.value), rest) :=
  Zig.enumerant?_append rest _ entry.name (Numeral.comma_notMem_toString entry.value)

theorem enumerants_join (entries : List Entry) :
    Zig.enumerants ((String.join (entries.map enumerant)).toList ++ "\x7d;\n".toList) =
      (entries.map fun entry => (Zig.ident entry.name, toString entry.value), "\x7d;\n".toList) := by
  induction entries with
  | nil => exact Zig.enumerants_end
  | cons entry entries ih =>
    rw [List.map_cons, String.join_cons, String.toList_append, List.append_assoc,
      Zig.enumerants_cons _ (enumerant?_enumerant entry _), ih, List.map_cons]

theorem paren_notMem_enumBacking (enum : Enumeration) : ')' ∉ (enumBacking enum).toList := by
  unfold enumBacking
  split
  · decide
  · decide

theorem enumDeclaration?_enumText {enum : Enumeration} (h : enum.bitfield = false) :
    enumDeclaration? (enumText enum) = some {
      name := Zig.ident enum.typeName
      backing := enumBacking enum
      enumerants := enum.entries.values.map fun entry =>
        (Zig.ident entry.name, toString entry.value) } := by
  have htext : (enumText enum).toList =
      (Zig.comment (enum.description.map (·.body)) "///").toList ++ ("pub const ".toList
        ++ ((Zig.ident enum.typeName).toList ++ (" = enum(".toList
        ++ ((enumBacking enum).toList ++ (") \x7b".toList
        ++ ((String.join (enum.entries.values.map enumerant)).toList ++ "\x7d;\n".toList)))))) := by
    simp [enumText, h]
  have hname : Zig.leadingIdent ((Zig.ident enum.typeName).toList ++ (" = enum(".toList
      ++ ((enumBacking enum).toList ++ (") \x7b".toList
      ++ ((String.join (enum.entries.values.map enumerant)).toList ++ "\x7d;\n".toList))))) =
        (Zig.ident enum.typeName).toList :=
    Zig.leadingIdent_ident _ enum.typeName (by decide : Zig.isNameChar ' ' = false)
  have hbacking : ((enumBacking enum).toList ++ (") \x7b".toList
      ++ ((String.join (enum.entries.values.map enumerant)).toList
      ++ "\x7d;\n".toList))).takeWhile (· != ')') = (enumBacking enum).toList :=
    Zig.takeWhile_append_cons _ (paren_notMem_enumBacking enum)
  rw [enumDeclaration?, htext]
  simp only [Zig.dropPrefix?_skipComments, hname, hbacking, List.drop_left, Zig.dropPrefix?_append,
    enumerants_join, Option.bind_eq_bind, Option.bind_some, ↓reduceIte, String.ofList_toList]

inductive CanTake : String → Int → Prop where
  | signed {v : Int} (hlow : -2 ^ 31 ≤ v) (hhigh : v < 2 ^ 31) : CanTake "c_int" v
  | unsigned {v : Int} (hlow : 0 ≤ v) (hhigh : v < 2 ^ 32) : CanTake "u32" v

theorem enumBacking_eq_signed_iff (enum : Enumeration) :
    enumBacking enum = "c_int" ↔
      ∀ entry ∈ enum.entries.values, -2 ^ 31 ≤ entry.value ∧ entry.value < 2 ^ 31 := by
  rw [← enum.isSigned_iff, enumBacking]
  cases enum.isSigned with
  | true => simp
  | false => simp

theorem canTake_enumBacking {element : Element} {enum : Enumeration}
    (helement : Enumeration.ofElement element = .ok enum) (hbitfield : enum.bitfield = false) :
    ∀ entry ∈ enum.entries.values, CanTake (enumBacking enum) entry.value := by
  obtain ⟨_, _, _, _, -, -, -, -, -, hrange⟩ :=
    (Enumeration.ofElement_eq_ok_iff element enum).mp helement
  have hfits := ((Grammar.checkRange_iff enum).mp hrange).2 hbitfield
  intro entry hentry
  by_cases hsigned : enumBacking enum = "c_int"
  · obtain ⟨hlow, hhigh⟩ := (enumBacking_eq_signed_iff enum).mp hsigned entry hentry
    rw [hsigned]
    exact .signed hlow hhigh
  · -- what does not fit the signed type was accepted for the unsigned one
    have hunsigned : enumBacking enum = "u32" := by
      unfold enumBacking at hsigned ⊢
      split at hsigned
      · exact absurd rfl hsigned
      · next h => rw [if_neg h]
    rw [enumBacking_eq_signed_iff] at hsigned
    obtain ⟨hlow, hhigh⟩ := hfits.resolve_left hsigned entry hentry
    rw [hunsigned]
    exact .unsigned hlow hhigh

def Denotes (child : Element) (enumerant : String × String) : Prop :=
  ∃ name text value, child.attr? "name" = some name ∧ child.attr? "value" = some text
    ∧ Numeral.literal? text = some value
    ∧ enumerant.1 = Zig.ident name ∧ Numeral.literal? enumerant.2 = some value

theorem denotes_of_declaredBy {child : Element} {entry : Entry} (h : entry.DeclaredBy child) :
    Denotes child (Zig.ident entry.name, toString entry.value) := by
  obtain ⟨text, htext, hliteral⟩ := h.value
  rw [← Numeral.literal?_eq_some_iff] at hliteral
  exact ⟨entry.name, text, entry.value, h.name_eq, htext, hliteral, rfl, h.literal?_toString⟩

/--
A declaration that keeps the entries of an enumeration: one enumerant for each, in the order of the
document, and an integer type that all values fit.
-/
structure KeepsEntries (element : Element) (enum : Enumeration) (declaration : EnumDeclaration) :
    Prop where
  name_eq : declaration.name = Zig.ident enum.typeName
  enumerants_eq : declaration.enumerants =
    enum.entries.values.map fun entry => (Zig.ident entry.name, toString entry.value)
  literal : ∀ entry ∈ enum.entries.values,
    Numeral.literal? (toString entry.value) = some entry.value
  document : List.Forall₂ Denotes (element.childrenNamed "entry") declaration.enumerants
  range : ∀ entry ∈ enum.entries.values, CanTake declaration.backing entry.value
  signed_iff : declaration.backing = "c_int" ↔
    ∀ entry ∈ enum.entries.values, -2 ^ 31 ≤ entry.value ∧ entry.value < 2 ^ 31

theorem plain_enum_keeps_entries (element : Element) (enum : Enumeration)
    (helement : Enumeration.ofElement element = .ok enum) (hbitfield : enum.bitfield = false) :
    ∃ declaration, enumDeclaration? (enumText enum) = some declaration
      ∧ KeepsEntries element enum declaration := by
  have hdeclared := (Enumeration.declaredBy_of_ofElement helement).entries.forall₂
  refine ⟨_, enumDeclaration?_enumText hbitfield, ?_⟩
  exact {
    name_eq := by dsimp only
    enumerants_eq := by dsimp only
    literal := by
      intro entry hentry
      obtain ⟨child, -, hchild⟩ := exists_of_mem_right hdeclared entry hentry
      exact hchild.literal?_toString
    document := by
      rw [List.forall₂_map_right_iff]
      exact hdeclared.imp fun _ _ => denotes_of_declaredBy
    range := canTake_enumBacking helement hbitfield
    signed_iff := enumBacking_eq_signed_iff enum }

def wideEnum : Element :=
  ⟨"enum", [("name", "error")], [
    ⟨"entry", [("name", "a, b = 1"), ("value", " 0x10 ")], [
      ⟨"description", [], [], "c = 3,"⟩], ""⟩,
    ⟨"entry", [("name", "last"), ("value", "0xFFFFFFFF")], [], ""⟩], ""⟩

theorem plain_enum_keeps_entries_wideEnum :
    ∃ enum declaration, Enumeration.ofElement wideEnum = .ok enum ∧ enum.bitfield = false
      ∧ enum.entries.values.map (·.value) = [16, 4294967295]
      ∧ enumDeclaration? (enumText enum) = some declaration
      ∧ KeepsEntries wideEnum enum declaration := by
  have hread : (Enumeration.ofElement wideEnum).toOption.map (fun enum =>
      (enum.bitfield, enum.entries.values.map (·.value))) = some (false, [16, 4294967295]) := by
    decide +kernel
  obtain ⟨enum, henum, hvalues⟩ := Option.map_eq_some_iff.mp hread
  rw [Except.toOption_eq_some_iff] at henum
  obtain ⟨hbitfield, hvalues⟩ := Prod.mk.inj hvalues
  obtain ⟨declaration, hdeclaration, hkeeps⟩ :=
    plain_enum_keeps_entries wideEnum enum henum hbitfield
  exact ⟨enum, declaration, henum, hbitfield, hvalues, hdeclaration, hkeeps⟩

end Bindings
end Waybind
