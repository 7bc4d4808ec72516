import Waybind.Proofs.Utf8
import Waybind.Proofs.Zig.Node

/-!
This module contains which names in camel case are bare identifiers. No word with a meaning of its
own is in camel case, so that it comes down to the characters of the name.
-/

namespace Waybind
namespace Zig

/--
Names whose camel case form can be written as it is: they are made of letters, digits and
underscores, and the first character that is no underscore is a letter.
-/
def isBareInCamel (name : String) : Bool :=
  name.toList.all isNameChar && (name.toList.dropWhile (· == '_')).head?.any isNameStart

section Ident

theorem length_le_escape (cs : List Char) : cs.length ≤ (cs.flatMap escapeChar).length := by
  induction cs with
  | nil => exact Nat.le_refl 0
  | cons c cs ih =>
    have hc : 0 < (escapeChar c).length := List.length_pos_iff.mpr (escapeChar_ne_nil c)
    rw [List.flatMap_cons, List.length_append, List.length_cons]
    omega

theorem ident_eq_self_iff (name : String) :
    ident name = name ↔ isPlain name.toList = true ∧ isReserved name = false := by
  rw [← Bool.not_eq_true', ← Bool.and_eq_true]
  unfold ident
  split
  · next h => simp [h]
  · next h =>
    simp only [h, Bool.false_eq_true, iff_false]
    -- the quotes alone make it longer
    intro hquoted
    have hlength := congrArg (fun s => s.toList.length) hquoted
    have hescape := length_le_escape name.toList
    have hquote : "\"".toList.length = 1 := rfl
    simp only [escape, String.toList_append, String.toList_ofList, List.length_append] at hlength
    omega

def beginsReserved (c : Char) : Bool :=
  ('a' ≤ c && c ≤ 'z') || c == '_'

theorem head?_of_isReserved {name : String} (h : isReserved name = true) :
    name.toList.head?.any beginsReserved = true := by
  have hwords : ∀ word ∈ keywords ++ primitives, word.toList.head?.any beginsReserved = true := by
    decide +kernel
  simp only [isReserved, Bool.or_eq_true, beq_iff_eq, List.contains_iff_mem] at h
  rcases h with ((rfl | h) | h) | h
  · rfl
  · exact hwords name (List.mem_append_left _ h)
  · exact hwords name (List.mem_append_right _ h)
  · unfold isIntegerType at h
    split at h
    · next c bits hname =>
      simp only [Bool.and_eq_true, Bool.or_eq_true, beq_iff_eq] at h
      rcases h.1.1 with rfl | rfl
      · simp [hname, beginsReserved]
      · simp [hname, beginsReserved]
    · cases h

end Ident

section Byte

theorem forall_byte {P : UInt8 → Prop} (h : ∀ n : Fin 256, P (UInt8.ofNat n)) (b : UInt8) :
    P b := by
  have hb := h ⟨b.toNat, b.toNat_lt⟩
  rwa [UInt8.ofNat_toNat] at hb

theorem isNameChar_upperAscii (b : UInt8) :
    isNameChar (Char.ofNat (upperAscii b).toNat) = isNameChar (Char.ofNat b.toNat) := by
  revert b
  apply forall_byte
  decide +kernel

theorem isNameStart_upperAscii (b : UInt8) :
    isNameStart (Char.ofNat (upperAscii b).toNat) = isNameStart (Char.ofNat b.toNat) := by
  revert b
  apply forall_byte
  decide +kernel

theorem upperAscii_eq_self (b : UInt8) :
    isNameChar (Char.ofNat (upperAscii b).toNat) = false → upperAscii b = b := by
  revert b
  apply forall_byte
  decide +kernel

theorem beginsReserved_upperAscii (b : UInt8) :
    b ≠ 0x5F → beginsReserved (Char.ofNat (upperAscii b).toNat) = false := by
  revert b
  apply forall_byte
  decide +kernel

end Byte

section Camel

variable (name : String)

theorem all_camelBytes (raise : Bool) (bytes : List UInt8) :
    ((camelBytes raise bytes).all fun b => isNameChar (Char.ofNat b.toNat)) =
      bytes.all fun b => isNameChar (Char.ofNat b.toNat) := by
  induction bytes generalizing raise with
  | nil => rfl
  | cons b bytes ih =>
    rw [camelBytes]
    split
    · next hb =>
      rw [beq_iff_eq] at hb
      rw [ih, List.all_cons, hb]
      rfl
    · rw [List.all_cons, ih, List.all_cons]
      cases raise with
      | false => rfl
      | true => simp only [↓reduceIte, isNameChar_upperAscii]

theorem head?_camelBytes (bytes : List UInt8) :
    (camelBytes true bytes).head? = (bytes.dropWhile (· == 0x5F)).head?.map upperAscii := by
  induction bytes with
  | nil => rfl
  | cons b bytes ih =>
    rw [camelBytes]
    split
    · next hb =>
      rw [ih, List.dropWhile_cons]
      simp only [hb, ↓reduceIte]
    · next hb =>
      rw [List.dropWhile_cons]
      simp only [hb, Bool.false_eq_true, ↓reduceIte, List.head?_cons, Option.map_some]

theorem toNat_lt_of_isNameChar {c : Char} (h : isNameChar c = true) : c.toNat < 128 := by
  have hz : 'z'.toNat = 122 := rfl
  have hZ : 'Z'.toNat = 90 := rfl
  have h9 : '9'.toNat = 57 := rfl
  have hline : '_'.toNat = 95 := rfl
  simp only [isNameChar, isNameStart, isDigit, Bool.or_eq_true, Bool.and_eq_true,
    decide_eq_true_eq, beq_iff_eq, Char.le_def, UInt32.le_iff_toNat_le] at h
  simp only [Char.toNat] at *
  rcases h with ((h | h) | rfl) | h
  · omega
  · omega
  · omega
  · omega

theorem all_encodeChar (c : Char) :
    ((String.utf8EncodeChar c).all fun b => isNameChar (Char.ofNat b.toNat)) = isNameChar c := by
  by_cases hc : c.toNat < 128
  · rw [Utf8.encodeChar_ascii hc, List.all_cons, List.all_nil, Bool.and_true,
      Utf8.toNat_ofNat (by omega), Char.ofNat_toNat]
  · -- neither the character nor any of its bytes is in a name
    have hname : isNameChar c = false := by
      by_contra hname
      exact hc (toNat_lt_of_isNameChar (Bool.not_eq_false _ ▸ hname))
    obtain ⟨b, hb⟩ := List.exists_mem_of_ne_nil _ (String.utf8EncodeChar_ne_nil (c := c))
    rw [hname, List.all_eq_false]
    refine ⟨b, hb, ?_⟩
    intro hbyte
    have hlt := toNat_lt_of_isNameChar hbyte
    rw [Utf8.toNat_charOfNat] at hlt
    exact hc (Utf8.toNat_lt_of_mem_encodeChar hb hlt)

theorem isNameStart_encodeChar {c : Char} {b : UInt8} {bytes : List UInt8}
    (h : String.utf8EncodeChar c = b :: bytes) :
    isNameStart (Char.ofNat b.toNat) = isNameStart c := by
  by_cases hc : c.toNat < 128
  · rw [Utf8.encodeChar_ascii hc, List.cons.injEq] at h
    rw [← h.1, Utf8.toNat_ofNat (by omega), Char.ofNat_toNat]
  · have hwide : ∀ d : Char, ¬ d.toNat < 128 → isNameStart d = false := by
      intro d hd
      by_contra hstart
      refine hd (toNat_lt_of_isNameChar ?_)
      rw [isNameChar, eq_true_of_ne_false hstart, Bool.true_or]
    rw [hwide c hc, hwide]
    intro hlt
    rw [Utf8.toNat_charOfNat] at hlt
    exact hc (Utf8.toNat_lt_of_mem_encodeChar (h ▸ List.mem_cons_self) hlt)

theorem dropWhile_encodeChars (cs : List Char) :
    (Utf8.encodeChars cs).dropWhile (· == 0x5F) = Utf8.encodeChars (cs.dropWhile (· == '_')) := by
  induction cs with
  | nil => rfl
  | cons c cs ih =>
    rw [Utf8.encodeChars_cons]
    by_cases hc : c = '_'
    · subst hc
      exact ih
    · obtain ⟨b, bytes, hbytes⟩ :=
        List.exists_cons_of_ne_nil (String.utf8EncodeChar_ne_nil (c := c))
      have hb : (b == 0x5F) = false := by
        rw [beq_eq_false_iff_ne]
        rintro rfl
        exact hc (Utf8.eq_of_mem_encodeChar (hbytes ▸ List.mem_cons_self) (by decide))
      have hline : (c == '_') = false := beq_false_of_ne hc
      rw [hbytes, List.cons_append, List.dropWhile_cons, List.dropWhile_cons]
      simp only [hb, hline, Bool.false_eq_true, ↓reduceIte, Utf8.encodeChars_cons, hbytes,
        List.cons_append]

theorem all_camel : (camel name).toList.all isNameChar = name.toList.all isNameChar := by
  rw [camel, String.toList_ofList, List.all_map, Utf8.encode_eq]
  refine (all_camelBytes true _).trans ?_
  rw [Utf8.encodeChars, List.all_flatMap]
  congr 1
  funext c
  exact all_encodeChar c

theorem head?_camel :
    (camel name).toList.head? =
      (Utf8.encodeChars (name.toList.dropWhile (· == '_'))).head?.map
        fun b => Char.ofNat (upperAscii b).toNat := by
  rw [camel, String.toList_ofList, List.head?_map, head?_camelBytes, Utf8.encode_eq,
    dropWhile_encodeChars, Option.map_map]
  rfl

theorem beginsReserved_camel : (camel name).toList.head?.any beginsReserved = false := by
  by_contra h
  have hhead := eq_true_of_ne_false h
  rw [head?_camel, Option.any_map] at hhead
  obtain ⟨b, hb, hreserved⟩ := (Option.any_eq_true _ _).mp hhead
  have hline : b ≠ 0x5F := by
    rintro rfl
    rw [← dropWhile_encodeChars] at hb
    have := List.head?_dropWhile_not (· == 0x5F) (Utf8.encodeChars name.toList)
    rw [hb] at this
    cases this
  rw [beginsReserved_upperAscii b hline] at hreserved
  cases hreserved

theorem camel_ne {word : String} (h : word.toList.head?.any beginsReserved = true) :
    camel name ≠ word := by
  rintro rfl
  rw [beginsReserved_camel] at h
  cases h

theorem isReserved_camel : isReserved (camel name) = false := by
  by_contra h
  exact camel_ne name (head?_of_isReserved (eq_true_of_ne_false h)) rfl

theorem isPlain_camel : isPlain (camel name).toList = isBareInCamel name := by
  have hplain : ∀ cs : List Char, isPlain cs = (cs.all isNameChar && cs.head?.any isNameStart) := by
    intro cs
    cases cs with
    | nil => rfl
    | cons c cs => simp [isPlain, Bool.and_comm]
  rw [hplain, isBareInCamel, all_camel, head?_camel]
  congr 1
  cases name.toList.dropWhile (· == '_') with
  | nil => rfl
  | cons c cs =>
    obtain ⟨b, bytes, hbytes⟩ := List.exists_cons_of_ne_nil (String.utf8EncodeChar_ne_nil (c := c))
    rw [Utf8.encodeChars_cons, hbytes]
    simp [isNameStart_upperAscii, isNameStart_encodeChar hbytes]

theorem ident_camel_eq_iff : ident (camel name) = camel name ↔ isBareInCamel name = true := by
  rw [ident_eq_self_iff, isReserved_camel, isPlain_camel]
  simp

theorem mem_camelBytes {raise : Bool} {b : UInt8} {bytes : List UInt8}
    (hb : isNameChar (Char.ofNat b.toNat) = false) (h : b ∈ camelBytes raise bytes) :
    b ∈ bytes := by
  induction bytes generalizing raise with
  | nil => cases h
  | cons b' bytes ih =>
    rw [camelBytes] at h
    split at h
    · exact List.mem_cons_of_mem _ (ih h)
    · rcases List.mem_cons.mp h with h | h
      · cases raise with
        | false => exact h ▸ List.mem_cons_self
        | true =>
          have hraised : b = upperAscii b' := h
          rw [hraised] at hb
          rw [hraised, upperAscii_eq_self b' hb]
          exact List.mem_cons_self
      · exact List.mem_cons_of_mem _ (ih h)

theorem mem_of_mem_camel {c : Char} (hname : isNameChar c = false) (hc : c.toNat < 128)
    (h : c ∈ (camel name).toList) : c ∈ name.toList := by
  rw [camel, String.toList_ofList, List.mem_map] at h
  obtain ⟨b, hb, rfl⟩ := h
  have hbytes := mem_camelBytes hname hb
  rw [Utf8.toNat_charOfNat] at hc
  rw [Utf8.encode_eq, Utf8.encodeChars, List.mem_flatMap] at hbytes
  obtain ⟨c, hmem, hb⟩ := hbytes
  rwa [← Utf8.eq_of_mem_encodeChar hb hc]

end Camel
end Zig
end Waybind
