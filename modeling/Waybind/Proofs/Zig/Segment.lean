import Waybind.Proofs.Zig.Camel

/-!
This module contains what camel case makes of the characters of a name. The segments of the name
are joined with capitals, but byte by byte, so that each character beyond ASCII becomes several:
names in ASCII keep their characters, and no others do.
-/

namespace Waybind
namespace Zig

section Case

theorem toUpper_eq_self {c : Char} (h : ¬ c.toNat < 128) : c.toUpper = c := by
  apply dif_neg
  rintro ⟨-, hle⟩
  exact h (Nat.lt_of_le_of_lt (UInt32.le_iff_toNat_le.mp hle) (by decide))

theorem toLower_eq_self {c : Char} (h : ¬ c.toNat < 128) : c.toLower = c := by
  apply dif_neg
  rintro ⟨-, hle⟩
  exact h (Nat.lt_of_le_of_lt (UInt32.le_iff_toNat_le.mp hle) (by decide))

theorem case_induction {motive : Char → Prop}
    (ascii : ∀ b : UInt8, b.toNat < 128 → motive (Char.ofNat b.toNat))
    (fixed : ∀ c : Char, ¬ c.toNat < 128 → c.toUpper = c → c.toLower = c → motive c) (c : Char) :
    motive c := by
  by_cases hc : c.toNat < 128
  · have hn : (UInt8.ofNat c.toNat).toNat = c.toNat := Utf8.toNat_ofNat (by omega)
    have hmotive := ascii (UInt8.ofNat c.toNat) (by rwa [hn])
    rwa [hn, Char.ofNat_toNat] at hmotive
  · exact fixed c hc (toUpper_eq_self hc) (toLower_eq_self hc)

theorem toLower_toUpper (c : Char) : c.toUpper.toLower = c.toLower := by
  induction c using case_induction with
  | ascii b hb =>
    revert b
    apply forall_byte
    decide +kernel
  | fixed c _ hupper _ => rw [hupper]

theorem toUpper_toUpper (c : Char) : c.toUpper.toUpper = c.toUpper := by
  induction c using case_induction with
  | ascii b hb =>
    revert b
    apply forall_byte
    decide +kernel
  | fixed c _ hupper _ => rw [hupper, hupper]

theorem eq_underscore_of_toLower (c : Char) : c.toLower = '_' → c = '_' := by
  induction c using case_induction with
  | ascii b hb =>
    revert b
    apply forall_byte
    decide +kernel
  | fixed c _ _ hlower => exact fun h => hlower.symm.trans h

theorem toNat_toLower_lt_iff (c : Char) : c.toLower.toNat < 128 ↔ c.toNat < 128 := by
  induction c using case_induction with
  | ascii b hb =>
    revert b
    apply forall_byte
    decide +kernel
  | fixed c _ _ hlower => rw [hlower]

end Case

section Capitals

/--
The segments of a text between underscores, joined with the first character of each in upper case,
if it is a letter of ASCII.
-/
def capitals (cs : List Char) : List Char :=
  (cs.splitOn '_').flatMap (List.modifyHead Char.toUpper)

@[elab_as_elim]
theorem segment_induction {motive : List Char → Prop}
    (last : ∀ segment, '_' ∉ segment → motive segment)
    (cut : ∀ segment rest, '_' ∉ segment → motive rest → motive (segment ++ '_' :: rest))
    (cs : List Char) : motive cs := by
  induction hn : cs.length using Nat.strong_induction_on generalizing cs with
  | _ n ih =>
    by_cases hmem : '_' ∈ cs
    · obtain ⟨segment, rest, rfl, hsegment⟩ := List.eq_append_cons_of_mem hmem
      refine cut segment rest hsegment (ih rest.length ?_ rest rfl)
      rw [← hn, List.length_append, List.length_cons]
      omega
    · exact last cs hmem

variable {segment : List Char}

theorem capitals_of_notMem (h : '_' ∉ segment) :
    capitals segment = segment.modifyHead Char.toUpper := by
  rw [capitals, List.splitOn_eq_singleton h, List.flatMap_singleton]

theorem capitals_append (h : '_' ∉ segment) (rest : List Char) :
    capitals (segment ++ '_' :: rest) = segment.modifyHead Char.toUpper ++ capitals rest := by
  rw [capitals, List.splitOn_append_cons_self_of_not_mem h, List.flatMap_cons]
  rfl

theorem filter_of_notMem (h : '_' ∉ segment) : segment.filter (· != '_') = segment := by
  rw [List.filter_eq_self]
  intro c hc
  rw [bne_iff_ne]
  rintro rfl
  exact h hc

theorem map_toLower_modifyHead (cs : List Char) :
    (cs.modifyHead Char.toUpper).map Char.toLower = cs.map Char.toLower := by
  cases cs with
  | nil => rfl
  | cons c cs =>
    rw [List.modifyHead_cons, List.map_cons, List.map_cons, toLower_toUpper]

theorem map_toLower_capitals (cs : List Char) :
    (capitals cs).map Char.toLower = (cs.filter (· != '_')).map Char.toLower := by
  induction cs using segment_induction with
  | last segment h => rw [capitals_of_notMem h, filter_of_notMem h, map_toLower_modifyHead]
  | cut segment rest h ih =>
    have hunderscore : ('_' :: rest).filter (· != '_') = rest.filter (· != '_') := rfl
    rw [capitals_append h, List.map_append, map_toLower_modifyHead, ih, List.filter_append,
      filter_of_notMem h, hunderscore, List.map_append]

theorem length_capitals (cs : List Char) :
    (capitals cs).length = (cs.filter (· != '_')).length := by
  have hlength := congrArg List.length (map_toLower_capitals cs)
  rwa [List.length_map, List.length_map] at hlength

theorem underscore_notMem_capitals (cs : List Char) : '_' ∉ capitals cs := by
  intro hmem
  have hlower : '_' ∈ (capitals cs).map Char.toLower := List.mem_map.mpr ⟨'_', hmem, rfl⟩
  rw [map_toLower_capitals, List.mem_map] at hlower
  obtain ⟨c, hc, hlower⟩ := hlower
  rw [eq_underscore_of_toLower c hlower, List.mem_filter] at hc
  exact absurd hc.2 (by decide)

theorem modifyHead_capitals (cs : List Char) :
    (capitals cs).modifyHead Char.toUpper = capitals cs := by
  induction cs using segment_induction with
  | last segment h =>
    rw [capitals_of_notMem h]
    cases segment with
    | nil => rfl
    | cons c cs => simp only [List.modifyHead_cons, toUpper_toUpper]
  | cut segment rest h ih =>
    rw [capitals_append h]
    cases segment with
    | nil => exact ih
    | cons c cs =>
      simp only [List.modifyHead_cons, List.cons_append, toUpper_toUpper]

theorem capitals_capitals (cs : List Char) : capitals (capitals cs) = capitals cs := by
  rw [capitals_of_notMem (underscore_notMem_capitals cs), modifyHead_capitals]

end Capitals

section Ascii

theorem isAscii_map_toLower_iff (cs : List Char) :
    Utf8.IsAscii (cs.map Char.toLower) ↔ Utf8.IsAscii cs := by
  simp only [Utf8.IsAscii, List.forall_mem_map, toNat_toLower_lt_iff]

theorem isAscii_capitals_iff (cs : List Char) : Utf8.IsAscii (capitals cs) ↔ Utf8.IsAscii cs := by
  rw [← isAscii_map_toLower_iff, map_toLower_capitals, isAscii_map_toLower_iff]
  constructor
  · intro h c hc
    by_cases hline : c = '_'
    · rw [hline]
      decide
    · exact h c (List.mem_filter.mpr ⟨hc, bne_iff_ne.mpr hline⟩)
  · intro h c hc
    exact h c (List.mem_filter.mp hc).1

def byteChars (cs : List Char) : List Char :=
  (Utf8.encodeChars cs).map fun b => Char.ofNat b.toNat

theorem length_byteChars (cs : List Char) :
    (byteChars cs).length = (Utf8.encodeChars cs).length :=
  List.length_map _

theorem map_toNat_byteChars (cs : List Char) :
    (byteChars cs).map Char.toNat = (Utf8.encodeChars cs).map UInt8.toNat := by
  rw [byteChars, List.map_map]
  exact List.map_congr_left fun b _ => Utf8.toNat_charOfNat b

theorem byteChars_injective : Function.Injective byteChars := by
  intro cs cs' h
  have hbytes := congrArg (List.map Char.toNat) h
  rw [map_toNat_byteChars, map_toNat_byteChars] at hbytes
  apply Utf8.encodeChars_injective
  exact List.map_injective_iff.mpr (fun _ _ => UInt8.toNat_inj.mp) hbytes

theorem byteChars_of_isAscii {cs : List Char} (h : Utf8.IsAscii cs) : byteChars cs = cs := by
  induction cs with
  | nil => rfl
  | cons c cs ih =>
    obtain ⟨hc, hcs⟩ := Utf8.isAscii_cons_iff.mp h
    have hrest := ih hcs
    rw [byteChars] at hrest ⊢
    rw [Utf8.encodeChars_cons, Utf8.encodeChar_ascii hc, List.map_append, hrest, List.map_singleton,
      Utf8.toNat_ofNat (by omega), Char.ofNat_toNat, List.singleton_append]

theorem byteChars_eq_self_iff (cs : List Char) : byteChars cs = cs ↔ Utf8.IsAscii cs := by
  constructor
  · intro h
    rw [← Utf8.length_encodeChars_eq_iff, ← length_byteChars, h]
  · exact byteChars_of_isAscii

end Ascii

section Bytes

theorem upperAscii_of_not_lt (b : UInt8) : ¬ b.toNat < 128 → upperAscii b = b := by
  revert b
  apply forall_byte
  decide +kernel

theorem encodeChar_toUpper_ofNat (b : UInt8) :
    b.toNat < 128 → String.utf8EncodeChar (Char.ofNat b.toNat).toUpper = [upperAscii b] := by
  revert b
  apply forall_byte
  decide +kernel

theorem modifyHead_encodeChar (c : Char) :
    (String.utf8EncodeChar c).modifyHead upperAscii = String.utf8EncodeChar c.toUpper := by
  by_cases hc : c.toNat < 128
  · have hn : (UInt8.ofNat c.toNat).toNat = c.toNat := Utf8.toNat_ofNat (by omega)
    have hupper := encodeChar_toUpper_ofNat (UInt8.ofNat c.toNat) (by rwa [hn])
    rw [hn, Char.ofNat_toNat] at hupper
    rw [hupper, Utf8.encodeChar_ascii hc, List.modifyHead_cons]
  · obtain ⟨b, bytes, hbytes⟩ := List.exists_cons_of_ne_nil (String.utf8EncodeChar_ne_nil (c := c))
    have hb : ¬ b.toNat < 128 := by
      intro hb
      exact hc (Utf8.toNat_lt_of_mem_encodeChar (hbytes ▸ List.mem_cons_self) hb)
    rw [toUpper_eq_self hc, hbytes, List.modifyHead_cons, upperAscii_of_not_lt b hb]

theorem modifyHead_encodeChars (cs : List Char) :
    (Utf8.encodeChars cs).modifyHead upperAscii =
      Utf8.encodeChars (cs.modifyHead Char.toUpper) := by
  cases cs with
  | nil => rfl
  | cons c cs =>
    obtain ⟨b, bytes, hbytes⟩ := List.exists_cons_of_ne_nil (String.utf8EncodeChar_ne_nil (c := c))
    rw [List.modifyHead_cons, Utf8.encodeChars_cons, Utf8.encodeChars_cons, ← modifyHead_encodeChar,
      hbytes]
    rfl

theorem camelBytes_append {bytes : List UInt8} (h : 0x5F ∉ bytes) (raise : Bool)
    (rest : List UInt8) :
    camelBytes raise (bytes ++ rest) =
      (if raise then bytes.modifyHead upperAscii else bytes)
        ++ camelBytes (raise && bytes.isEmpty) rest := by
  induction bytes generalizing raise with
  | nil => cases raise <;> rfl
  | cons b bytes ih =>
    rw [List.mem_cons, not_or] at h
    have hb : (b == 0x5F) = false := beq_false_of_ne (Ne.symm h.1)
    rw [List.cons_append, camelBytes, hb, if_neg Bool.false_ne_true, ih h.2]
    cases raise <;> rfl

theorem camelBytes_segment {segment : List Char} (h : '_' ∉ segment) (rest : List UInt8) :
    camelBytes true (Utf8.encodeChars segment ++ rest) =
      Utf8.encodeChars (segment.modifyHead Char.toUpper)
        ++ camelBytes (Utf8.encodeChars segment).isEmpty rest := by
  have hbytes : 0x5F ∉ Utf8.encodeChars segment :=
    mt (Utf8.mem_encodeChars_iff (by decide : '_'.toNat < 128) segment).mp h
  rw [camelBytes_append hbytes, if_pos rfl, modifyHead_encodeChars, Bool.true_and]

end Bytes

section Camel

theorem camelBytes_encodeChars (cs : List Char) :
    camelBytes true (Utf8.encodeChars cs) = Utf8.encodeChars (capitals cs) := by
  induction cs using segment_induction with
  | last segment h =>
    have hsegment := camelBytes_segment h []
    rwa [List.append_nil, camelBytes, List.append_nil, ← capitals_of_notMem h] at hsegment
  | cut segment rest h ih =>
    -- the underscore raises what follows, whatever stands before it
    have hunderscore : ∀ raise, camelBytes raise (Utf8.encodeChars ('_' :: rest)) =
        camelBytes true (Utf8.encodeChars rest) := fun _ => rfl
    rw [Utf8.encodeChars_append, camelBytes_segment h, hunderscore, ih, capitals_append h,
      Utf8.encodeChars_append]

variable (name : String)

theorem toList_camel : (camel name).toList = byteChars (capitals name.toList) := by
  rw [camel, String.toList_ofList, Utf8.encode_eq, camelBytes_encodeChars, byteChars]

example : camel "_layer__shell_v1_" = "LayerShellV1" := by
  decide +kernel

theorem camel_eq_camel_iff (name name' : String) :
    camel name = camel name' ↔ capitals name.toList = capitals name'.toList := by
  rw [← String.toList_inj, toList_camel, toList_camel, byteChars_injective.eq_iff]

theorem underscore_notMem_camel : '_' ∉ (camel name).toList := by
  intro hmem
  rw [toList_camel, byteChars, List.mem_map] at hmem
  obtain ⟨b, hb, heq⟩ := hmem
  have hnumber := congrArg Char.toNat heq
  rw [Utf8.toNat_charOfNat] at hnumber
  rw [← UInt8.ofNat_toNat (x := b), hnumber, Utf8.mem_encodeChars_iff (by decide)] at hb
  exact underscore_notMem_capitals name.toList hb

theorem camel_camel_eq_iff : camel (camel name) = camel name ↔ Utf8.IsAscii name.toList := by
  rw [camel_eq_camel_iff, ← isAscii_capitals_iff]
  constructor
  · intro h
    have hlength := length_capitals (camel name).toList
    rw [filter_of_notMem (underscore_notMem_camel name), h, toList_camel,
      length_byteChars] at hlength
    exact (Utf8.length_encodeChars_eq_iff _).mp hlength.symm
  · intro h
    rw [toList_camel, byteChars_of_isAscii h, capitals_capitals]

theorem map_toLower_camel_eq_iff :
    (camel name).toList.map Char.toLower = (name.toList.filter (· != '_')).map Char.toLower ↔
      Utf8.IsAscii name.toList := by
  rw [← map_toLower_capitals, toList_camel, ← isAscii_capitals_iff]
  constructor
  · intro h
    have hlength := congrArg List.length h
    rw [List.length_map, List.length_map, length_byteChars] at hlength
    exact (Utf8.length_encodeChars_eq_iff _).mp hlength
  · intro h
    rw [byteChars_of_isAscii h]

/--
A name in camel case consists of its segments between underscores, joined with the first character
of each in upper case, and then taken byte by byte. It has the characters of these segments, is the
name without its underscores apart from the case of letters, and does not change again, exactly if
the name is in ASCII.
-/
theorem camel_keeps_characters_iff :
    (camel name).toList.map Char.toNat =
        (Utf8.encodeChars (capitals name.toList)).map UInt8.toNat
      ∧ ((camel name).toList = capitals name.toList ↔ Utf8.IsAscii name.toList)
      ∧ ((camel name).toList.map Char.toLower =
          (name.toList.filter (· != '_')).map Char.toLower ↔ Utf8.IsAscii name.toList)
      ∧ (camel (camel name) = camel name ↔ Utf8.IsAscii name.toList) := by
  refine ⟨?_, ?_, map_toLower_camel_eq_iff name, camel_camel_eq_iff name⟩
  · rw [toList_camel, map_toNat_byteChars]
  · rw [toList_camel, byteChars_eq_self_iff, isAscii_capitals_iff]

theorem accent_not_kept :
    (camel "é").toList = ['Ã', '©'] ∧ (camel (camel "é")).toList = ['Ã', '\u0083', 'Â', '©']
      ∧ (camel "é").toList ≠ capitals "é".toList
      ∧ (camel "é").toList.map Char.toLower ≠ ("é".toList.filter (· != '_')).map Char.toLower
      ∧ camel (camel "é") ≠ camel "é" := by
  decide +kernel

end Camel
end Zig
end Waybind
