import Mathlib.Data.List.Perm.Subperm
import Waybind.Bindings.Enumeration
import Waybind.Proofs.Protocol.Grammar

/-!
This module contains the layout of bitfields. The fields of a packed struct lie one behind the other
from the least significant bit on, and a bitfield has nothing between its flags. A flag is thus at
the bit of its value exactly if there is a flag for each lower bit. All fields together take 32 bits.
-/

namespace Waybind

namespace Zig

def width? (type : String) : Option Nat :=
  match type.toList with
  | 'u' :: digits => (Numeral.number 10 65535 .tooLarge digits).toOption
  | _ => if type = "bool" then some 1 else none

def offset? (fields : List Field) (index : Nat) : Option Nat :=
  ((fields.take index).mapM fun field => width? field.type).map List.sum

def bitsAt? (fields : List Field) (word : UInt32) (index : Nat) : Option Nat := do
  let field ← fields[index]?
  let start ← offset? fields index
  let width ← width? field.type
  return word.toNat / 2 ^ start % 2 ^ width

theorem width?_bool : width? "bool" = some 1 := by
  simp [width?]

theorem width?_unsigned {n : Nat} (h : n ≤ 65535) : width? ("u" ++ toString n) = some n := by
  have hnumber : Numeral.number 10 65535 .tooLarge (Nat.toDigits 10 n) = .ok n := by
    rw [Numeral.number_eq_ok_iff]
    exact ⟨Numeral.isNumeral_toDigits (by decide) (by decide) n, h⟩
  have htype : ("u" ++ toString n).toList = 'u' :: Nat.toDigits 10 n := by
    simp
  simp only [width?, htype, hnumber]
  rfl

end Zig

namespace Enumeration

variable {enum : Enumeration} {index bit : Nat} {entry : Entry}

theorem mem_take_bits_iff (h : enum.flags[index]? = some (bit, entry)) (b : Nat) :
    b ∈ (enum.flags.map Prod.fst).take index ↔ b ∈ enum.flags.map Prod.fst ∧ b < bit := by
  have hbit : (enum.flags.map Prod.fst)[index]? = some bit := by
    rw [List.getElem?_map, h, Option.map_some]
  obtain ⟨hindex, hbit⟩ := List.getElem?_eq_some_iff.mp hbit
  have hsorted := enum.pairwise_bits_flags
  have hsplit := List.take_append_drop index (enum.flags.map Prod.fst)
  rw [List.drop_eq_getElem_cons hindex, hbit] at hsplit
  rw [← hsplit] at hsorted
  obtain ⟨-, hafter, hbefore⟩ := List.pairwise_append.mp hsorted
  rw [List.pairwise_cons] at hafter
  constructor
  · intro hb
    exact ⟨List.mem_of_mem_take hb, hbefore b hb bit List.mem_cons_self⟩
  · rintro ⟨hb, hlt⟩
    rw [← hsplit, List.mem_append, List.mem_cons] at hb
    rcases hb with hb | rfl | hb
    · exact hb
    · omega
    · have := hafter.1 b hb
      omega

theorem nodup_bits_flags (enum : Enumeration) : (enum.flags.map Prod.fst).Nodup :=
  enum.pairwise_bits_flags.imp Nat.ne_of_lt

theorem length_take_bits (h : enum.flags[index]? = some (bit, entry)) :
    ((enum.flags.map Prod.fst).take index).length = index := by
  have hindex := (List.getElem?_eq_some_iff.mp h).1
  rw [List.length_take, List.length_map]
  omega

theorem subperm_take_bits (h : enum.flags[index]? = some (bit, entry)) :
    ((enum.flags.map Prod.fst).take index).Subperm (List.range bit) := by
  apply (enum.nodup_bits_flags.sublist (List.take_sublist index _)).subperm
  intro b hb
  exact List.mem_range.mpr ((mem_take_bits_iff h b).mp hb).2

theorem index_le_bit (h : enum.flags[index]? = some (bit, entry)) : index ≤ bit := by
  have hlength := (subperm_take_bits h).length_le
  rwa [length_take_bits h, List.length_range] at hlength

theorem index_eq_bit_iff (h : enum.flags[index]? = some (bit, entry)) :
    index = bit ↔ ∀ b < bit, b ∈ enum.flags.map Prod.fst := by
  constructor
  · intro heq b hb
    have hlength : (List.range bit).length ≤ ((enum.flags.map Prod.fst).take index).length := by
      rw [length_take_bits h, List.length_range, heq]
    have hperm := (subperm_take_bits h).perm_of_length_le hlength
    exact ((mem_take_bits_iff h b).mp (hperm.mem_iff.mpr (List.mem_range.mpr hb))).1
  · intro hlower
    have hsuperset : List.range bit ⊆ (enum.flags.map Prod.fst).take index := by
      intro b hb
      have hlt := List.mem_range.mp hb
      exact (mem_take_bits_iff h b).mpr ⟨hlower b hlt, hlt⟩
    have hlength := (List.nodup_range.subperm hsuperset).length_le
    rw [length_take_bits h, List.length_range] at hlength
    exact Nat.le_antisymm (index_le_bit h) hlength

theorem length_flags_le (h : ∀ b ∈ enum.flags.map Prod.fst, b < 32) : enum.flags.length ≤ 32 := by
  have hsubset : enum.flags.map Prod.fst ⊆ List.range 32 := by
    intro b hb
    exact List.mem_range.mpr (h b hb)
  simpa using (enum.nodup_bits_flags.subperm hsubset).length_le

end Enumeration

namespace Bindings

open Xml (Element)

variable {enum : Enumeration} {index bit : Nat} {entry : Entry}

theorem mapM_width?_flags (flags : List (Nat × Entry)) :
    ((flags.map fun flag => flagField flag.2).mapM fun field => Zig.width? field.type) =
      some (List.replicate flags.length 1) := by
  induction flags with
  | nil => rfl
  | cons flag flags ih =>
    rw [List.map_cons, List.mapM_cons, ih]
    simp [flagField, Zig.width?_bool, List.replicate_succ]

def padding (enum : Enumeration) : List Zig.Field :=
  if enum.flags.length < 32 then [paddingField enum.flags.length] else []

theorem bitfieldFields_eq (enum : Enumeration) :
    bitfieldFields enum = (enum.flags.map fun flag => flagField flag.2) ++ padding enum := by
  unfold bitfieldFields padding
  by_cases hlength : enum.flags.length < 32
  · simp [hlength]
  · simp [hlength]

theorem exists_padding (enum : Enumeration) (h : enum.flags.length ≤ 32) :
    ∃ padding widths, bitfieldFields enum =
        (enum.flags.map fun flag => flagField flag.2) ++ padding
      ∧ (padding.mapM fun field => Zig.width? field.type) = some widths
      ∧ enum.flags.length + widths.sum = 32 := by
  rw [bitfieldFields_eq, padding]
  by_cases hlength : enum.flags.length < 32
  · refine ⟨[paddingField enum.flags.length], [32 - enum.flags.length], by rw [if_pos hlength], ?_,
      ?_⟩
    · have hwidth : Zig.width? (paddingField enum.flags.length).type =
          some (32 - enum.flags.length) := Zig.width?_unsigned (by omega)
      rw [List.mapM_cons, hwidth]
      rfl
    · simp only [List.sum_cons, List.sum_nil]
      omega
  · refine ⟨[], [], by rw [if_neg hlength], rfl, ?_⟩
    simp only [List.sum_nil]
    omega

section Layout

variable (hlength : enum.flags.length ≤ 32)

include hlength

theorem offset?_bitfieldFields (h : index ≤ enum.flags.length) :
    Zig.offset? (bitfieldFields enum) index = some index := by
  obtain ⟨padding, widths, hfields, -⟩ := exists_padding enum hlength
  rw [Zig.offset?, hfields, List.take_append_of_le_length (by simpa using h), ← List.map_take,
    mapM_width?_flags]
  simp [h]

theorem offset?_length_bitfieldFields :
    Zig.offset? (bitfieldFields enum) (bitfieldFields enum).length = some 32 := by
  obtain ⟨padding, widths, hfields, hwidths, hsum⟩ := exists_padding enum hlength
  rw [Zig.offset?, List.take_length, hfields, List.mapM_append, mapM_width?_flags, hwidths]
  simpa using hsum

theorem getElem?_bitfieldFields (h : enum.flags[index]? = some (bit, entry)) :
    (bitfieldFields enum)[index]? = some (flagField entry) := by
  obtain ⟨padding, widths, hfields, -⟩ := exists_padding enum hlength
  have hindex := (List.getElem?_eq_some_iff.mp h).1
  rw [hfields, List.getElem?_append_left (by simpa using hindex), List.getElem?_map, h,
    Option.map_some]

theorem bitsAt?_bitfieldFields (h : enum.flags[index]? = some (bit, entry)) (word : UInt32) :
    Zig.bitsAt? (bitfieldFields enum) word index = some (word.toNat.testBit index).toNat := by
  have hindex := (List.getElem?_eq_some_iff.mp h).1
  have hwidth : Zig.width? (flagField entry).type = some 1 := Zig.width?_bool
  simp [Zig.bitsAt?, getElem?_bitfieldFields hlength h,
    offset?_bitfieldFields hlength hindex.le, hwidth, Nat.toNat_testBit]

end Layout

theorem forall_testBit_eq_iff (hbit : bit < 32) :
    (∀ word : UInt32, word.toNat.testBit index = word.toNat.testBit bit) ↔ index = bit := by
  constructor
  · intro h
    have hword : (UInt32.ofNat (2 ^ bit)).toNat = 2 ^ bit :=
      UInt32.toNat_ofNat_of_lt' (Nat.pow_lt_pow_right (by decide) hbit)
    have heq := h (UInt32.ofNat (2 ^ bit))
    rw [hword, Nat.testBit_two_pow_self, Nat.testBit_two_pow] at heq
    simpa [eq_comm] using heq
  · rintro rfl word
    rfl

theorem bit_lt_of_ofElement {element : Element} (helement : Enumeration.ofElement element = .ok enum)
    (hbitfield : enum.bitfield = true) : ∀ b ∈ enum.flags.map Prod.fst, b < 32 := by
  obtain ⟨name, since, bitfield, draft, -, -, -, -, rfl, hrange⟩ :=
    (Enumeration.ofElement_eq_ok_iff element enum).mp helement
  intro b hb
  exact ((Grammar.checkRange_iff _).mp hrange).1 hbitfield b
    ((Enumeration.mem_bits_flags _ b).mp hb)

/--
A flag of a bitfield is at the bit of its value, and is read from there, exactly if there is a flag
for each lower bit. Otherwise it is at a lower bit, which is its position.
-/
theorem flag_layout (element : Element) (enum : Enumeration) (index bit : Nat) (entry : Entry)
    (helement : Enumeration.ofElement element = .ok enum) (hbitfield : enum.bitfield = true)
    (hflag : enum.flags[index]? = some (bit, entry)) :
    let fields := bitfieldFields enum
    fields[index]? = some (flagField entry)
      ∧ entry.value = 2 ^ bit ∧ bit < 32
      ∧ Zig.offset? fields index = some index ∧ index ≤ bit
      ∧ (∀ word, Zig.bitsAt? fields word index = some (word.toNat.testBit index).toNat)
      ∧ (Zig.offset? fields index = some bit ↔
        ∀ lower < bit, ∃ other ∈ enum.entries.values, other.value = 2 ^ lower)
      ∧ ((∀ word, Zig.bitsAt? fields word index = some (word.toNat.testBit bit).toNat) ↔
        ∀ lower < bit, ∃ other ∈ enum.entries.values, other.value = 2 ^ lower)
      ∧ Zig.offset? fields fields.length = some 32 := by
  intro fields
  have hbits := bit_lt_of_ofElement helement hbitfield
  have hlength := Enumeration.length_flags_le hbits
  have hindex := (List.getElem?_eq_some_iff.mp hflag).1
  have hmem : (bit, entry) ∈ enum.flags := List.mem_of_getElem? hflag
  have hbit : bit < 32 := hbits bit (List.mem_map_of_mem hmem)
  have hoffset := offset?_bitfieldFields hlength hindex.le
  have hread := bitsAt?_bitfieldFields hlength hflag
  have hlower := Enumeration.index_eq_bit_iff hflag
  simp only [Enumeration.mem_bits_flags] at hlower
  refine ⟨getElem?_bitfieldFields hlength hflag, (Enumeration.value_of_mem_flags hmem).2, hbit,
    hoffset, Enumeration.index_le_bit hflag, hread, ?_, ?_, offset?_length_bitfieldFields hlength⟩
  · rw [hoffset, Option.some.injEq, hlower]
  · simp only [fields, hread, Option.some.injEq]
    rw [← hlower, ← forall_testBit_eq_iff hbit]
    refine forall_congr' fun word => ?_
    cases word.toNat.testBit index <;> cases word.toNat.testBit bit <;> simp

def gappedMode : Element :=
  ⟨"enum", [("name", "mode"), ("bitfield", "true")], [
    ⟨"entry", [("name", "high"), ("value", "0x8")], [], ""⟩,
    ⟨"entry", [("name", "low"), ("value", "1")], [], ""⟩], ""⟩

theorem flags_gappedMode :
    (Enumeration.ofElement gappedMode).toOption.map (fun enum =>
      (enum.bitfield, enum.flags.map fun flag => (flag.1, flag.2.name))) =
        some (true, [(0, "low"), (3, "high")]) := by
  decide +kernel

theorem exists_ofElement_gappedMode :
    ∃ enum low high, Enumeration.ofElement gappedMode = .ok enum ∧ enum.bitfield = true
      ∧ enum.flags = [(0, low), (3, high)] ∧ high.name = "high" := by
  obtain ⟨enum, henum, hflags⟩ := Option.map_eq_some_iff.mp flags_gappedMode
  rw [Except.toOption_eq_some_iff] at henum
  simp only [Prod.mk.injEq, List.map_eq_cons_iff, List.map_eq_nil_iff] at hflags
  obtain ⟨hbitfield, ⟨_, low⟩, _, hflags, ⟨rfl, -⟩, ⟨_, high⟩, _, rfl, ⟨rfl, hhigh⟩, rfl⟩ := hflags
  exact ⟨enum, low, high, henum, hbitfield, hflags, hhigh⟩

theorem flag_layout_gappedMode :
    ∃ enum entry, Enumeration.ofElement gappedMode = .ok enum ∧ enum.bitfield = true
      ∧ enum.flags[1]? = some (3, entry) ∧ entry.name = "high"
      ∧ (bitfieldFields enum)[1]? = some (flagField entry)
      ∧ Zig.offset? (bitfieldFields enum) 1 = some 1 := by
  obtain ⟨enum, low, high, henum, hbitfield, hflags, hhigh⟩ := exists_ofElement_gappedMode
  have hflag : enum.flags[1]? = some (3, high) := by
    rw [hflags]
    rfl
  obtain ⟨hfield, -, -, hoffset, -⟩ := flag_layout gappedMode enum 1 3 high henum hbitfield hflag
  exact ⟨enum, high, henum, hbitfield, hflag, hhigh, hfield, hoffset⟩

theorem exists_flag_not_at_bit :
    ∃ enum entry, Enumeration.ofElement gappedMode = .ok enum ∧ enum.bitfield = true
      ∧ enum.flags[1]? = some (3, entry) ∧ (bitfieldFields enum)[1]? = some (flagField entry)
      ∧ Zig.offset? (bitfieldFields enum) 1 ≠ some 3
      ∧ Zig.bitsAt? (bitfieldFields enum) 8 1 = some 0
      ∧ Zig.bitsAt? (bitfieldFields enum) 2 1 = some 1 := by
  obtain ⟨enum, low, high, henum, hbitfield, hflags, -⟩ := exists_ofElement_gappedMode
  have hlength : enum.flags.length ≤ 32 := by
    simp [hflags]
  have hflag : enum.flags[1]? = some (3, high) := by
    rw [hflags]
    rfl
  refine ⟨enum, high, henum, hbitfield, hflag, getElem?_bitfieldFields hlength hflag, ?_, ?_, ?_⟩
  · rw [offset?_bitfieldFields hlength (by simp [hflags])]
    decide
  · rw [bitsAt?_bitfieldFields hlength hflag]
    decide
  · rw [bitsAt?_bitfieldFields hlength hflag]
    decide

/--
A bitfield of 32 bits: one boolean for each value that is a power of two, in ascending order, and
padding unless there are 32 of them.
-/
structure FillsWord (enum : Enumeration) (flags padding : List Zig.Field) : Prop where
  node_eq : bitfield enum = .assignment enum.typeName (.struct (some "u32") (flags ++ padding))
  bit_lt : ∀ flag ∈ enum.flags, flag.1 < 32
  bits : ∀ bit, bit ∈ enum.flags.map Prod.fst ↔
    ∃ entry ∈ enum.entries.values, entry.value = 2 ^ bit
  flag_fields : List.Forall₂ (fun flag (field : Zig.Field) => field.name = flag.2.name
    ∧ field.type = "bool" ∧ field.default = some "false") enum.flags flags
  length_le : enum.flags.length ≤ 32
  padding_eq : padding =
    if enum.flags.length < 32 then
      [⟨"_padding", "u" ++ toString (32 - enum.flags.length), some "0", none⟩]
    else
      []
  width : ((flags ++ padding).mapM fun field => Zig.width? field.type).map List.sum = some 32

theorem fillsWord_of_bit_lt (hbits : ∀ b ∈ enum.flags.map Prod.fst, b < 32) :
    FillsWord enum (enum.flags.map fun flag => flagField flag.2) (padding enum) where
  node_eq := by rw [bitfield, bitfieldFields_eq]
  bit_lt := by
    intro flag hflag
    exact hbits flag.1 (List.mem_map_of_mem hflag)
  bits := enum.mem_bits_flags
  flag_fields := by
    rw [List.forall₂_map_right_iff, List.forall₂_same]
    intro flag _
    exact ⟨rfl, rfl, rfl⟩
  length_le := Enumeration.length_flags_le hbits
  padding_eq := rfl
  width := by
    have hlength := Enumeration.length_flags_le hbits
    rw [← bitfieldFields_eq]
    have hoffset := offset?_length_bitfieldFields hlength
    rwa [Zig.offset?, List.take_length] at hoffset

theorem flags_fill_word (enum : Enumeration) :
    (enum.flags.map Prod.fst).Pairwise (· < ·)
      ∧ (∀ bit entry, (bit, entry) ∈ enum.flags ↔
        Entry.FirstOf enum.entries.values bit entry)
      ∧ ∀ element, Enumeration.ofElement element = .ok enum → enum.bitfield = true →
        ∃ flags padding, FillsWord enum flags padding := by
  refine ⟨enum.pairwise_bits_flags, enum.mem_flags_iff, ?_⟩
  intro element helement hbitfield
  exact ⟨_, _, fillsWord_of_bit_lt (bit_lt_of_ofElement helement hbitfield)⟩

def aliasedMode : Element :=
  ⟨"enum", [("name", "mode"), ("bitfield", "true")], [
    ⟨"entry", [("name", "none"), ("value", "0")], [], ""⟩,
    ⟨"entry", [("name", "top"), ("value", "0x80000000")], [], ""⟩,
    ⟨"entry", [("name", "low"), ("value", "1")], [], ""⟩,
    ⟨"entry", [("name", "first"), ("value", "0b1")], [], ""⟩,
    ⟨"entry", [("name", "both"), ("value", "0x80000001")], [], ""⟩,
    ⟨"entry", [("name", "below"), ("value", "-4")], [], ""⟩], ""⟩

theorem flags_fill_word_aliasedMode :
    ∃ enum flags padding, Enumeration.ofElement aliasedMode = .ok enum ∧ enum.bitfield = true
      ∧ enum.flags.map (fun flag => (flag.1, flag.2.name)) = [(0, "low"), (31, "top")]
      ∧ FillsWord enum flags padding := by
  have hread : (Enumeration.ofElement aliasedMode).toOption.map (fun enum =>
      (enum.bitfield, enum.flags.map fun flag => (flag.1, flag.2.name))) =
        some (true, [(0, "low"), (31, "top")]) := by
    decide +kernel
  obtain ⟨enum, henum, hflags⟩ := Option.map_eq_some_iff.mp hread
  rw [Except.toOption_eq_some_iff] at henum
  obtain ⟨hbitfield, hflags⟩ := Prod.mk.inj hflags
  obtain ⟨-, -, hfill⟩ := flags_fill_word enum
  obtain ⟨flags, padding, hfills⟩ := hfill aliasedMode henum hbitfield
  exact ⟨enum, flags, padding, henum, hbitfield, hflags, hfills⟩

end Bindings

end Waybind
