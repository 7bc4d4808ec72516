import Mathlib.Data.List.Basic
import Waybind.Text.Utf8

/-!
This module contains how characters are found in the bytes of a text: decoding gives back what was
encoded, and a byte below 128 stands for nothing but the character with its number. Texts in ASCII
are those with one byte for each character.
-/

namespace Waybind
namespace Utf8

theorem toNat_ofNat {n : Nat} (h : n < 256) : (UInt8.ofNat n).toNat = n := by
  rw [UInt8.toNat_ofNat', Nat.mod_eq_of_lt h]

def encodeChars (cs : List Char) : List UInt8 :=
  cs.flatMap String.utf8EncodeChar

theorem encode_eq (s : String) : encode s = encodeChars s.toList := by
  rfl

@[simp]
theorem encodeChars_nil : encodeChars [] = [] := by
  rfl

theorem encodeChars_cons (c : Char) (cs : List Char) :
    encodeChars (c :: cs) = String.utf8EncodeChar c ++ encodeChars cs := by
  rfl

theorem encodeChars_append (cs cs' : List Char) :
    encodeChars (cs ++ cs') = encodeChars cs ++ encodeChars cs' :=
  List.flatMap_append

section Decode

theorem lead_eq (pos : Nat) (b : UInt8) :
    lead pos b =
      if b.toNat < 0x80 then .whole (Char.ofNat b.toNat)
      else if b.toNat < 0xC2 then .never
      else if b.toNat < 0xE0 then .more ⟨pos, 1, 1, b.toNat - 0xC0, 0x80, 0xBF⟩
      else if b.toNat = 0xE0 then .more ⟨pos, 1, 2, 0, 0xA0, 0xBF⟩
      else if b.toNat = 0xED then .more ⟨pos, 1, 2, 0xD, 0x80, 0x9F⟩
      else if b.toNat < 0xF0 then .more ⟨pos, 1, 2, b.toNat - 0xE0, 0x80, 0xBF⟩
      else if b.toNat = 0xF0 then .more ⟨pos, 1, 3, 0, 0x90, 0xBF⟩
      else if b.toNat = 0xF4 then .more ⟨pos, 1, 3, 4, 0x80, 0x8F⟩
      else if b.toNat < 0xF4 then .more ⟨pos, 1, 3, b.toNat - 0xF0, 0x80, 0xBF⟩
      else .never := by
  simp only [lead, UInt8.lt_iff_toNat_lt, beq_iff_eq, ← UInt8.toNat_inj, UInt8.reduceToNat]

theorem step_lead {items : List Item} {pos : Nat} {b : UInt8} {pending : Pending}
    (h : lead pos b = .more pending) : step ⟨items, none⟩ pos b = ⟨items, some pending⟩ := by
  simp only [step, startAt, h]

section Tail

variable {items : List Item} {pos start seen code n : Nat} {low high : UInt8}
  (hlow : low.toNat ≤ n % 64 + 128) (hhigh : n % 64 + 128 ≤ high.toNat)

include hlow hhigh

theorem step_more (missing : Nat) :
    step ⟨items, some ⟨start, seen, missing + 2, code, low, high⟩⟩ pos
        (UInt8.ofNat (n % 64 + 128)) =
      ⟨items, some ⟨start, seen + 1, missing + 1, code * 64 + n % 64, 0x80, 0xBF⟩⟩ := by
  have hn : (UInt8.ofNat (n % 64 + 128)).toNat = n % 64 + 128 := toNat_ofNat (by omega)
  simp only [step, UInt8.le_iff_toNat_le, hn, hlow, hhigh, decide_true, Bool.and_self, ↓reduceIte,
    Nat.add_sub_cancel]
  rw [if_neg (by omega)]
  rfl

theorem step_last :
    step ⟨items, some ⟨start, seen, 1, code, low, high⟩⟩ pos (UInt8.ofNat (n % 64 + 128)) =
      ⟨.scalar (Char.ofNat (code * 64 + n % 64)) :: items, none⟩ := by
  have hn : (UInt8.ofNat (n % 64 + 128)).toNat = n % 64 + 128 := toNat_ofNat (by omega)
  simp only [step, UInt8.le_iff_toNat_le, hn, hlow, hhigh, decide_true, Bool.and_self, ↓reduceIte,
    Nat.add_sub_cancel, Nat.le_refl]

end Tail

theorem lead_two (pos : Nat) {v : Nat} (hlow : 0x80 ≤ v) (hhigh : v ≤ 0x7FF) :
    lead pos (UInt8.ofNat (v / 64 % 32 + 192)) = .more ⟨pos, 1, 1, v / 64, 0x80, 0xBF⟩ := by
  have hn : (UInt8.ofNat (v / 64 % 32 + 192)).toNat = v / 64 + 192 := by
    rw [toNat_ofNat (by omega)]
    omega
  rw [lead_eq, hn, if_neg (by omega), if_neg (by omega), if_pos (by omega), Nat.add_sub_cancel]

theorem exists_lead_three (pos : Nat) {v : Nat} (hlow : 0x800 ≤ v) (hhigh : v ≤ 0xFFFF)
    (hvalid : v < 0xD800 ∨ 0xDFFF < v) :
    ∃ low high : UInt8,
      lead pos (UInt8.ofNat (v / 4096 % 16 + 224)) = .more ⟨pos, 1, 2, v / 4096, low, high⟩
        ∧ low.toNat ≤ v / 64 % 64 + 128 ∧ v / 64 % 64 + 128 ≤ high.toNat := by
  have hn : (UInt8.ofNat (v / 4096 % 16 + 224)).toNat = v / 4096 + 224 := by
    rw [toNat_ofNat (by omega)]
    omega
  rw [lead_eq, hn, if_neg (by omega), if_neg (by omega), if_neg (by omega)]
  by_cases hfirst : v / 4096 = 0
  · refine ⟨0xA0, 0xBF, by simp [hfirst], ?_, ?_⟩ <;> simp only [UInt8.reduceToNat] <;> omega
  · by_cases hthirteen : v / 4096 = 0xD
    · refine ⟨0x80, 0x9F, by simp [hthirteen], ?_, ?_⟩ <;> simp only [UInt8.reduceToNat] <;> omega
    · refine ⟨0x80, 0xBF, ?_, ?_, ?_⟩
      · rw [if_neg (by omega), if_neg (by omega), if_pos (by omega), Nat.add_sub_cancel]
      · simp only [UInt8.reduceToNat]
        omega
      · simp only [UInt8.reduceToNat]
        omega

theorem exists_lead_four (pos : Nat) {v : Nat} (hlow : 0x10000 ≤ v) (hhigh : v ≤ 0x10FFFF) :
    ∃ low high : UInt8,
      lead pos (UInt8.ofNat (v / 262144 % 8 + 240)) = .more ⟨pos, 1, 3, v / 262144, low, high⟩
        ∧ low.toNat ≤ v / 4096 % 64 + 128 ∧ v / 4096 % 64 + 128 ≤ high.toNat := by
  have hn : (UInt8.ofNat (v / 262144 % 8 + 240)).toNat = v / 262144 + 240 := by
    rw [toNat_ofNat (by omega)]
    omega
  rw [lead_eq, hn, if_neg (by omega), if_neg (by omega), if_neg (by omega), if_neg (by omega),
    if_neg (by omega), if_neg (by omega)]
  by_cases hfirst : v / 262144 = 0
  · refine ⟨0x90, 0xBF, by simp [hfirst], ?_, ?_⟩ <;> simp only [UInt8.reduceToNat] <;> omega
  · by_cases hlast : v / 262144 = 4
    · refine ⟨0x80, 0x8F, by simp [hlast], ?_, ?_⟩ <;> simp only [UInt8.reduceToNat] <;> omega
    · refine ⟨0x80, 0xBF, ?_, ?_, ?_⟩
      · rw [if_neg (by omega), if_neg (by omega), if_pos (by omega), Nat.add_sub_cancel]
      · simp only [UInt8.reduceToNat]
        omega
      · simp only [UInt8.reduceToNat]
        omega

theorem go_encodeChar (c : Char) (rest : List UInt8) (pos : Nat) (done : List Item) :
    items.go (String.utf8EncodeChar c ++ rest) pos ⟨done, none⟩ =
      items.go rest (pos + (String.utf8EncodeChar c).length) ⟨.scalar c :: done, none⟩ := by
  have hvalid : c.val.toNat < 0xD800 ∨ 0xDFFF < c.val.toNat ∧ c.val.toNat < 0x110000 := c.valid
  have hc : Char.ofNat c.val.toNat = c := Char.ofNat_toNat c
  generalize hv : c.val.toNat = v at hvalid hc
  have hcode : ∀ n, n = v → Char.ofNat n = c := by
    rintro _ rfl
    exact hc
  have htail : ∀ n, (0x80 : UInt8).toNat ≤ n % 64 + 128 ∧ n % 64 + 128 ≤ (0xBF : UInt8).toNat := by
    intro n
    simp only [UInt8.reduceToNat]
    omega
  unfold String.utf8EncodeChar
  simp only [hv]
  split_ifs with hone htwo hthree
  · have hn : (UInt8.ofNat v).toNat = v := toNat_ofNat (by omega)
    have hlead : lead pos (UInt8.ofNat v) = .whole c := by
      rw [lead_eq, hn, if_pos (by omega), hc]
    simp only [List.cons_append, List.nil_append, List.length_singleton, items.go, step, startAt,
      hlead]
  · simp only [List.cons_append, List.nil_append, List.length_cons, List.length_nil, items.go]
    rw [step_lead (lead_two pos (by omega) htwo), step_last (htail v).1 (htail v).2,
      hcode _ (by omega)]
  · simp only [List.cons_append, List.nil_append, List.length_cons, List.length_nil, items.go]
    obtain ⟨low, high, hlead, hlow, hhigh⟩ := exists_lead_three pos (v := v) (by omega) hthree
      (by omega)
    rw [step_lead hlead, step_more hlow hhigh 0, step_last (htail v).1 (htail v).2,
      hcode _ (by omega)]
  · simp only [List.cons_append, List.nil_append, List.length_cons, List.length_nil, items.go]
    obtain ⟨low, high, hlead, hlow, hhigh⟩ := exists_lead_four pos (v := v) (by omega) (by omega)
    rw [step_lead hlead, step_more hlow hhigh 1, step_more (htail (v / 64)).1 (htail (v / 64)).2 0,
      step_last (htail v).1 (htail v).2, hcode _ (by omega)]

theorem go_encodeChars (cs : List Char) (pos : Nat) (done : List Item) :
    items.go (encodeChars cs) pos ⟨done, none⟩ = done.reverse ++ cs.map .scalar := by
  induction cs generalizing pos done with
  | nil => rw [encodeChars_nil, List.map_nil, List.append_nil, items.go]
  | cons c cs ih =>
    rw [encodeChars_cons, go_encodeChar, ih, List.map_cons, List.reverse_cons, List.append_assoc,
      List.singleton_append]

theorem decodeChars_go (cs done : List Char) :
    decodeChars.go (cs.map .scalar) done = .ok (done.reverse ++ cs) := by
  induction cs generalizing done with
  | nil => rw [List.map_nil, decodeChars.go, List.append_nil]
  | cons c cs ih =>
    rw [List.map_cons, decodeChars.go, ih, List.reverse_cons, List.append_assoc,
      List.singleton_append]

theorem decodeChars_encodeChars (cs : List Char) : decodeChars (encodeChars cs) = .ok cs := by
  rw [decodeChars, items, go_encodeChars, List.reverse_nil, List.nil_append, decodeChars_go]
  rfl

theorem decode_encodeChars (cs : List Char) : decode (encodeChars cs) = .ok (String.ofList cs) := by
  rw [decode, decodeChars_encodeChars]
  rfl

theorem encodeChars_injective : Function.Injective encodeChars := by
  intro cs cs' h
  have hdecode := congrArg decodeChars h
  rwa [decodeChars_encodeChars, decodeChars_encodeChars, Except.ok.injEq] at hdecode

theorem encode_injective : Function.Injective encode :=
  fun _ _ h => String.toList_inj.mp (encodeChars_injective h)

end Decode

section Ascii

theorem eq_of_mem_encodeChar {c : Char} {b : UInt8} (hmem : b ∈ String.utf8EncodeChar c)
    (hb : b.toNat < 128) : c = Char.ofNat b.toNat := by
  have hvalid : c.val.toNat < 0xD800 ∨ 0xDFFF < c.val.toNat ∧ c.val.toNat < 0x110000 := c.valid
  have hc : Char.ofNat c.val.toNat = c := Char.ofNat_toNat c
  have hlarge : ∀ n, 128 ≤ n → n < 256 → b ≠ UInt8.ofNat n := by
    rintro n hlow hhigh rfl
    rw [toNat_ofNat hhigh] at hb
    omega
  unfold String.utf8EncodeChar at hmem
  simp only at hmem
  split_ifs at hmem with hone htwo hthree
  · rw [List.mem_singleton] at hmem
    rw [hmem, toNat_ofNat (by omega), hc]
  all_goals
    exfalso
    simp only [List.mem_cons, List.not_mem_nil, or_false] at hmem
  · rcases hmem with hmem | hmem
    · exact hlarge _ (by omega) (by omega) hmem
    · exact hlarge _ (by omega) (by omega) hmem
  · rcases hmem with hmem | hmem | hmem
    · exact hlarge _ (by omega) (by omega) hmem
    · exact hlarge _ (by omega) (by omega) hmem
    · exact hlarge _ (by omega) (by omega) hmem
  · rcases hmem with hmem | hmem | hmem | hmem
    · exact hlarge _ (by omega) (by omega) hmem
    · exact hlarge _ (by omega) (by omega) hmem
    · exact hlarge _ (by omega) (by omega) hmem
    · exact hlarge _ (by omega) (by omega) hmem

theorem encodeChar_ascii {c : Char} (hc : c.toNat < 128) :
    String.utf8EncodeChar c = [UInt8.ofNat c.toNat] := by
  have hone : c.val.toNat ≤ 127 := Nat.le_of_lt_succ hc
  unfold String.utf8EncodeChar
  simp only [hone, ↓reduceIte]
  rfl

theorem toNat_charOfNat (b : UInt8) : (Char.ofNat b.toNat).toNat = b.toNat := by
  have hvalid : b.toNat.isValidChar := .inl (Nat.lt_trans b.toNat_lt (by decide))
  rw [Char.ofNat, dif_pos hvalid]
  rfl

theorem encodeChar_ofNat {b : UInt8} (hb : b.toNat < 128) :
    String.utf8EncodeChar (Char.ofNat b.toNat) = [b] := by
  rw [encodeChar_ascii (by rwa [toNat_charOfNat]), toNat_charOfNat, UInt8.ofNat_toNat]

theorem toNat_lt_of_mem_encodeChar {c : Char} {b : UInt8} (hmem : b ∈ String.utf8EncodeChar c)
    (hb : b.toNat < 128) : c.toNat < 128 := by
  rwa [eq_of_mem_encodeChar hmem hb, toNat_charOfNat]

theorem mem_encodeChars_iff {c : Char} (hc : c.toNat < 128) (cs : List Char) :
    UInt8.ofNat c.toNat ∈ encodeChars cs ↔ c ∈ cs := by
  have hb : (UInt8.ofNat c.toNat).toNat = c.toNat := toNat_ofNat (by omega)
  rw [encodeChars, List.mem_flatMap]
  constructor
  · rintro ⟨d, hd, hmem⟩
    rw [eq_of_mem_encodeChar hmem (by rwa [hb]), hb, Char.ofNat_toNat] at hd
    exact hd
  · intro hmem
    refine ⟨c, hmem, ?_⟩
    rw [encodeChar_ascii hc]
    exact List.mem_singleton_self _

theorem exists_of_encodeChars_eq_append_cons {cs : List Char} {b : UInt8} (hb : b.toNat < 128)
    {before after : List UInt8} (h : encodeChars cs = before ++ b :: after) :
    ∃ cs₁ cs₂, cs = cs₁ ++ Char.ofNat b.toNat :: cs₂
      ∧ encodeChars cs₁ = before ∧ encodeChars cs₂ = after := by
  induction cs generalizing before with
  | nil =>
    rw [encodeChars_nil] at h
    cases before with
    | nil => cases h
    | cons _ _ => cases h
  | cons c cs ih =>
    rw [encodeChars_cons, List.append_eq_append_iff] at h
    rcases h with ⟨before', rfl, h⟩ | ⟨bytes, hbytes, h⟩
    · obtain ⟨cs₁, cs₂, rfl, rfl, rfl⟩ := ih h
      exact ⟨c :: cs₁, cs₂, rfl, encodeChars_cons c cs₁, rfl⟩
    · cases bytes with
      | nil =>
        have hrest : encodeChars cs = [] ++ b :: after := h.symm
        obtain ⟨cs₁, cs₂, rfl, hcs₁, rfl⟩ := ih hrest
        refine ⟨c :: cs₁, cs₂, rfl, ?_, rfl⟩
        rw [encodeChars_cons, hcs₁, hbytes, List.append_nil, List.append_nil]
      | cons b' bytes =>
        -- the byte is one of the first character, and so is all of it
        obtain ⟨rfl, rfl⟩ := List.cons.inj h
        have hmem : b ∈ String.utf8EncodeChar c := by
          rw [hbytes]
          exact List.mem_append_right _ List.mem_cons_self
        have hc := eq_of_mem_encodeChar hmem hb
        rw [hc, encodeChar_ofNat hb, eq_comm, List.append_eq_singleton_iff] at hbytes
        rcases hbytes with ⟨rfl, hsingle⟩ | ⟨-, hnil⟩
        · obtain ⟨-, rfl⟩ := List.cons.inj hsingle
          exact ⟨[], cs, congrArg (· :: cs) hc, encodeChars_nil, rfl⟩
        · cases hnil

theorem exists_of_encodeChars_eq_cons {cs : List Char} {b : UInt8} (hb : b.toNat < 128)
    {after : List UInt8} (h : encodeChars cs = b :: after) :
    ∃ cs', cs = Char.ofNat b.toNat :: cs' ∧ encodeChars cs' = after := by
  have hcut : encodeChars cs = [] ++ b :: after := h
  obtain ⟨cs₁, cs₂, rfl, hnil, rfl⟩ := exists_of_encodeChars_eq_append_cons hb hcut
  rw [← encodeChars_nil] at hnil
  obtain rfl := encodeChars_injective hnil
  exact ⟨cs₂, rfl, rfl⟩

def IsAscii (cs : List Char) : Prop :=
  ∀ c ∈ cs, c.toNat < 128

theorem isAscii_cons_iff {c : Char} {cs : List Char} :
    IsAscii (c :: cs) ↔ c.toNat < 128 ∧ IsAscii cs :=
  List.forall_mem_cons

theorem length_le_encodeChars (cs : List Char) : cs.length ≤ (encodeChars cs).length := by
  induction cs with
  | nil => exact Nat.le_refl 0
  | cons c cs ih =>
    have hc := c.utf8Size_pos
    rw [encodeChars_cons, List.length_append, String.length_utf8EncodeChar, List.length_cons]
    omega

theorem length_encodeChars_eq_iff (cs : List Char) :
    (encodeChars cs).length = cs.length ↔ IsAscii cs := by
  induction cs with
  | nil => exact iff_of_true rfl (by simp [IsAscii])
  | cons c cs ih =>
    have hone : c.utf8Size = 1 ↔ c.toNat < 128 := by
      rw [Char.utf8Size_eq_one_iff, UInt32.le_iff_toNat_le]
      exact Nat.lt_succ_iff.symm
    have hc := c.utf8Size_pos
    have hcs := length_le_encodeChars cs
    rw [isAscii_cons_iff, ← ih, ← hone, encodeChars_cons, List.length_append,
      String.length_utf8EncodeChar, List.length_cons]
    omega

end Ascii
end Utf8
end Waybind
