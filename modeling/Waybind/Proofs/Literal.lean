import Waybind.Proofs.Numeral
import Waybind.Proofs.Utf8.Strict

/-!
This module contains what integer literals are read as. Their sign and radix marker are cut from the
bytes of a text at fixed places, which never parts a character. All values have a magnitude that is
a signed number of 64 bits, and every such number can be written in every notation.
-/

namespace Waybind
namespace Numeral

section Slices

def signOf (cs : List Char) : Int × List Char :=
  match cs with
  | '-' :: cs => (-1, cs)
  | '+' :: cs => (1, cs)
  | cs => (1, cs)

def signBytes (bytes : List UInt8) : Int × List UInt8 :=
  if bytes.take 1 = Utf8.encodeChars ['-'] then (-1, bytes.drop 1)
  else if bytes.take 1 = Utf8.encodeChars ['+'] then (1, bytes.drop 1)
  else (1, bytes)

def radixBytes (bytes : List UInt8) : Nat × List UInt8 :=
  match markers.find? fun marker => bytes.take 2 == Utf8.encodeChars marker.1 with
  | some marker => (marker.2, bytes.drop 2)
  | none => (10, bytes)

theorem literal?_eq (s : String) :
    literal? s = (magnitude? (signOf (Text.trim s.toList)).2).map
      fun n : Nat => (signOf (Text.trim s.toList)).1 * n := by
  unfold literal?
  generalize Text.trim s.toList = cs
  fun_cases signOf cs with
  | case1 cs =>
    simp only [neg_mul, one_mul]
    rfl
  | case2 cs | case3 =>
    simp only [one_mul]
    rfl

theorem exists_of_take_eq {cs part : List Char} {n : Nat}
    (h : (Utf8.encodeChars cs).take n = Utf8.encodeChars part) : ∃ rest, cs = part ++ rest := by
  have hsplit := (List.take_append_drop n (Utf8.encodeChars cs)).symm
  rw [h] at hsplit
  obtain ⟨rest, hcs, -⟩ := Utf8.exists_of_encodeChars_eq_append hsplit
  exact ⟨rest, hcs⟩

theorem signBytes_encodeChars (cs : List Char) :
    signBytes (Utf8.encodeChars cs) = ((signOf cs).1, Utf8.encodeChars (signOf cs).2) := by
  fun_cases signOf cs with
  | case1 cs => rfl
  | case2 cs => rfl
  | case3 _ hminus hplus =>
    rw [signBytes, if_neg, if_neg]
    · intro h
      obtain ⟨rest, hcs⟩ := exists_of_take_eq h
      exact hplus rest hcs
    · intro h
      obtain ⟨rest, hcs⟩ := exists_of_take_eq h
      exact hminus rest hcs

theorem radixBytes_encodeChars (cs : List Char) :
    radixBytes (Utf8.encodeChars cs) = ((radix cs).1, Utf8.encodeChars (radix cs).2) := by
  fun_cases radix cs with
  | case1 | case2 | case3 | case4 | case5 | case6 => rfl
  | case7 _ hx hX ho hO hb hB =>
    unfold radixBytes
    split
    · next marker hfind =>
      have htake := List.find?_some hfind
      have hmem := List.mem_of_find?_eq_some hfind
      rw [beq_iff_eq] at htake
      obtain ⟨rest, hcs⟩ := exists_of_take_eq htake
      simp only [markers, List.mem_cons, List.not_mem_nil, or_false] at hmem
      rcases hmem with rfl | rfl | rfl | rfl | rfl | rfl | rfl
      · exact (hx rest hcs).elim
      · exact (hX rest hcs).elim
      · exact (ho rest hcs).elim
      · exact (hO rest hcs).elim
      · exact (hb rest hcs).elim
      · exact (hB rest hcs).elim
      · -- the empty marker is only found in an empty text
        have hnil : Utf8.encodeChars cs = [] := by simpa using htake
        rw [hnil]
        rfl
    · rfl

theorem exists_digits_eq (s : String) :
    ∃ digits, (radixBytes (signBytes (Utf8.encodeChars (Text.trim s.toList))).2).2 =
        Utf8.encodeChars digits
      ∧ literal? s =
        (number (radixBytes (signBytes (Utf8.encodeChars (Text.trim s.toList))).2).1 maxInt64
          .tooLarge digits).toOption.map
        fun n : Nat => (signBytes (Utf8.encodeChars (Text.trim s.toList))).1 * n := by
  rw [literal?_eq, signBytes_encodeChars, radixBytes_encodeChars]
  exact ⟨_, rfl, rfl⟩

end Slices

section Notations

theorem IsDigit.toUpper {radix : Nat} {c : Char} {d : Nat} (h : IsDigit radix c d) :
    IsDigit radix c.toUpper d := by
  obtain ⟨hd, h⟩ := h
  have hsame (hc : c.toNat < 'a'.toNat) : c.toUpper = c := by
    apply dif_neg
    rintro ⟨hle, -⟩
    exact Nat.not_le_of_lt hc hle
  refine ⟨hd, ?_⟩
  rcases h with ⟨hten, hc⟩ | ⟨hten, hlt, hc | hc⟩
  · rw [hsame (by rw [hc]; simp; omega)]
    exact .inl ⟨hten, hc⟩
  · have hletters : ∀ k < 26,
        (Char.ofNat ('a'.toNat + k)).toUpper.toNat = 'A'.toNat + k := by
      decide
    rw [← Char.ofNat_toNat c, hc]
    exact .inr ⟨hten, hlt, .inr (hletters (d - 10) (by omega))⟩
  · rw [hsame (by rw [hc]; simp; omega)]
    exact .inr ⟨hten, hlt, .inr hc⟩

theorem IsNumeral.map_toUpper {radix : Nat} {cs : List Char} {n : Nat}
    (h : IsNumeral radix cs n) : IsNumeral radix (cs.map Char.toUpper) n := by
  obtain ⟨hne, ds, hds, hn⟩ := h
  refine ⟨by simpa using hne, ds, ?_, hn⟩
  rw [List.forall₂_map_left_iff]
  exact hds.imp fun _ _ => IsDigit.toUpper

def digits (upper : Bool) (radix n : Nat) : List Char :=
  if upper then (Nat.toDigits radix n).map Char.toUpper else Nat.toDigits radix n

theorem isNumeral_digits {radix : Nat} (hpos : 1 < radix) (hradix : radix ≤ 16) (upper : Bool)
    (n : Nat) : IsNumeral radix (digits upper radix n) n := by
  have h := isNumeral_toDigits hpos hradix n
  unfold digits
  split
  · exact h.map_toUpper
  · exact h

theorem literal?_ofList {v : Int} (hv : v.natAbs ≤ maxInt64) {sign : List Char × Int}
    (hsign : sign ∈ signs) (hvalue : v = sign.2 * v.natAbs) {marker : List Char × Nat}
    (hmarker : marker ∈ markers) (upper : Bool) :
    literal? (String.ofList (sign.1 ++ (marker.1 ++ digits upper marker.2 v.natAbs))) = some v := by
  have hradix : ∀ marker ∈ markers, 1 < marker.2 ∧ marker.2 ≤ 16 := by
    simp [markers]
  obtain ⟨hpos, hle⟩ := hradix marker hmarker
  rw [literal?_eq_some_iff]
  refine ⟨[], [], sign, _, v.natAbs, by simp; rfl, by simp, by simp, hsign, ⟨hv, ?_⟩, hvalue⟩
  exact ⟨marker, hmarker, _, rfl, isNumeral_digits hpos hle upper v.natAbs⟩

end Notations

theorem toInt_neg_ofNat {n : Nat} (h : n ≤ maxInt64) : (-Int64.ofNat n).toInt = -n := by
  have hlimit : n < 2 ^ 63 := Nat.lt_of_le_of_lt h (by decide)
  rw [Int64.toInt_neg, Int64.toInt_ofNat_of_lt hlimit]
  exact Int.bmod_eq_of_le (by omega) (by omega)

/--
Literals are read by their grammar with exact values. The values are numbers of 64 bits that are not
the least one, no character is parted when the sign and the marker are cut off, and every number in
this range can be written with each sign that suits it, in every notation and with letters in either
case.
-/
theorem literals_read_exactly :
    (∀ s v, literal? s = some v ↔ ∃ sign ∈ signs, ∃ marker ∈ markers, ∃ cs n,
      Text.trim s.toList = sign.1 ++ (marker.1 ++ cs) ∧ IsNumeral marker.2 cs n
        ∧ n ≤ 2 ^ 63 - 1 ∧ v = sign.2 * n)
    ∧ (∀ s v, literal? s = some v →
      -2 ^ 63 < v ∧ v < 2 ^ 63 ∧ (-Int64.ofNat v.natAbs).toInt = -v.natAbs)
    ∧ (∀ s, ∃ cs,
      let signed := signBytes (Utf8.encodeChars (Text.trim s.toList))
      let marked := radixBytes signed.2
      marked.2 = Utf8.encodeChars cs
        ∧ literal? s = (number marked.1 maxInt64 .tooLarge cs).toOption.map
          fun n : Nat => signed.1 * n)
    ∧ ∀ v : Int, v.natAbs ≤ 2 ^ 63 - 1 → ∀ sign ∈ signs, v = sign.2 * v.natAbs →
      ∀ marker ∈ markers, ∀ upper,
        literal? (String.ofList (sign.1 ++ (marker.1 ++ digits upper marker.2 v.natAbs))) =
          some v := by
  have hmax : 2 ^ 63 - 1 = maxInt64 := by decide
  refine ⟨?_, ?_, exists_digits_eq, ?_⟩
  · intro s v
    rw [literal?_eq_some_iff_trim, hmax]
    constructor
    · rintro ⟨sign, hsign, _, n, htrim, ⟨hn, marker, hmarker, cs, rfl, hcs⟩, hv⟩
      exact ⟨sign, hsign, marker, hmarker, cs, n, htrim, hcs, hn, hv⟩
    · rintro ⟨sign, hsign, marker, hmarker, cs, n, htrim, hcs, hn, hv⟩
      exact ⟨sign, hsign, _, n, htrim, ⟨hn, marker, hmarker, cs, rfl, hcs⟩, hv⟩
  · intro s v h
    have hv := ((literal?_eq_some_iff s v).mp h).natAbs_le
    have hneg := toInt_neg_ofNat hv
    rw [← hmax] at hv
    exact ⟨by omega, by omega, hneg⟩
  · intro v hv sign hsign hvalue marker hmarker upper
    rw [hmax] at hv
    exact literal?_ofList hv hsign hvalue hmarker upper

theorem literals_read_exactly_least :
    ∃ v, literal? "\u3000-0X7fffFFFFffffFFFF\n" = some v ∧ v = -(2 ^ 63 - 1) ∧ -2 ^ 63 < v
      ∧ (-Int64.ofNat v.natAbs).toInt = -v.natAbs
      ∧ literal? (String.ofList (['-'] ++ (['0', 'x'] ++ digits true 16 v.natAbs))) = some v := by
  have hread : literal? "\u3000-0X7fffFFFFffffFFFF\n" = some (-(2 ^ 63 - 1)) := by
    decide +kernel
  obtain ⟨-, hrange, -, hwritten⟩ := literals_read_exactly
  obtain ⟨hleast, -, hneg⟩ := hrange _ _ hread
  refine ⟨_, hread, rfl, hleast, hneg, ?_⟩
  exact hwritten _ (by decide) (['-'], -1) (by decide) (by decide) (['0', 'x'], 16) (by decide) true

end Numeral
end Waybind
