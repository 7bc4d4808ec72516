import Mathlib.Data.List.Forall2
import Mathlib.Data.Nat.Digits.Defs
import Waybind.Proofs.Except
import Waybind.Proofs.Text
import Waybind.Text.Numeral

/-!
This module contains the grammar of numerals and integer literals, and shows that reading accepts
exactly this grammar, with the value that the digits denote in their radix.
-/

namespace Waybind
namespace Numeral

/--
`c` is a digit of the value `d`, ASCII only, letters in either case.
-/
def IsDigit (radix : Nat) (c : Char) (d : Nat) : Prop :=
  d < radix ∧
    (d < 10 ∧ c.toNat = '0'.toNat + d
      ∨ 10 ≤ d ∧ d < 36 ∧ (c.toNat = 'a'.toNat + (d - 10) ∨ c.toNat = 'A'.toNat + (d - 10)))

/--
`cs` is one or more digits, the most significant one first, that denote `n`.
-/
def IsNumeral (radix : Nat) (cs : List Char) (n : Nat) : Prop :=
  cs ≠ [] ∧ ∃ ds, List.Forall₂ (IsDigit radix) cs ds ∧ n = Nat.ofDigits radix ds.reverse

def signs : List (List Char × Int) :=
  [([], 1), (['+'], 1), (['-'], -1)]

def IsUnsigned (limit : Nat) (s : String) (n : Nat) : Prop :=
  n ≤ limit ∧ ∃ sign ∈ [[], ['+']], ∃ cs, s.toList = sign ++ cs ∧ IsNumeral 10 cs n

def IsSigned (limit : Nat) (s : String) (v : Int) : Prop :=
  -(limit + 1 : Int) ≤ v ∧ v ≤ limit ∧
    ∃ sign ∈ signs, ∃ cs n, s.toList = sign.1 ++ cs ∧ IsNumeral 10 cs n ∧ v = sign.2 * n

def markers : List (List Char × Nat) := [
  (['0', 'x'], 16), (['0', 'X'], 16), (['0', 'o'], 8), (['0', 'O'], 8), (['0', 'b'], 2),
  (['0', 'B'], 2), ([], 10)]

def IsMagnitude (cs : List Char) (n : Nat) : Prop :=
  n ≤ maxInt64 ∧ ∃ marker ∈ markers, ∃ ds, cs = marker.1 ++ ds ∧ IsNumeral marker.2 ds n

def IsLiteral (s : String) (v : Int) : Prop :=
  ∃ before after sign cs n, s.toList = before ++ (sign.1 ++ cs) ++ after
    ∧ (∀ c ∈ before, Text.isBlank c) ∧ (∀ c ∈ after, Text.isBlank c)
    ∧ sign ∈ signs ∧ IsMagnitude cs n ∧ v = sign.2 * n

theorem digit?_eq_some_iff (radix : Nat) (c : Char) (d : Nat) :
    digit? radix c = some d ↔ IsDigit radix c d := by
  unfold digit? IsDigit
  rw [Option.filter_eq_some_iff]
  simp only [Bool.and_eq_true, decide_eq_true_eq, Char.le_def, UInt32.le_iff_toNat_le]
  change _ ↔ d < radix ∧ (d < 10 ∧ c.val.toNat = 48 + d
    ∨ 10 ≤ d ∧ d < 36 ∧ (c.val.toNat = 97 + (d - 10) ∨ c.val.toNat = 65 + (d - 10)))
  simp only [Char.reduceVal, UInt32.reduceToNat, Char.toNat]
  split_ifs <;> simp only [Option.some.injEq, false_and, false_iff] <;> omega

theorem foldl_digits_mono {radix : Nat} (ds : List Nat) (h : ∀ d ∈ ds, d < radix) (value : Nat) :
    value ≤ ds.foldl (fun n d => n * radix + d) value := by
  induction ds generalizing value with
  | nil => simp
  | cons d ds ih =>
    have hd : d < radix := h d (by simp)
    have := ih (fun d hd => h d (by simp [hd])) (value * radix + d)
    rw [List.foldl_cons]
    nlinarith

theorem lt_of_forall₂_isDigit {radix : Nat} {cs : List Char} {ds : List Nat}
    (h : List.Forall₂ (IsDigit radix) cs ds) : ∀ d ∈ ds, d < radix := by
  induction h with
  | nil => simp
  | cons hd _ ih => simpa using ⟨hd.1, ih⟩

theorem continueNumber_eq_ok_iff (radix limit : Nat) (overflow : Fault) (cs : List Char)
    (value n : Nat) (hvalue : value ≤ limit) :
    continueNumber radix limit overflow cs value = .ok n ↔
      n ≤ limit ∧ ∃ ds, List.Forall₂ (IsDigit radix) cs ds
        ∧ n = ds.foldl (fun n d => n * radix + d) value := by
  induction cs generalizing value with
  | nil =>
    simp only [continueNumber, List.forall₂_nil_left_iff, exists_eq_left, List.foldl_nil,
      Except.ok.injEq]
    omega
  | cons c cs ih =>
    rw [continueNumber]
    simp only [List.forall₂_cons_left_iff, ← digit?_eq_some_iff]
    cases hc : digit? radix c with
    | none => simp
    | some d =>
      have hmono : ∀ ds, List.Forall₂ (IsDigit radix) cs ds →
          value * radix + d ≤ ds.foldl (fun n d => n * radix + d) (value * radix + d) := by
        intro ds hds
        apply foldl_digits_mono
        exact lt_of_forall₂_isDigit hds
      -- further digits never make the value smaller, so it stays over a limit it is over
      by_cases hlimit : value * radix + d ≤ limit
      · simp only [hlimit, ↓reduceIte]
        rw [ih _ hlimit]
        simp only [digit?_eq_some_iff] at hc ⊢
        constructor
        · rintro ⟨hn, ds, hds, rfl⟩
          exact ⟨hn, d :: ds, ⟨d, ds, rfl, hds, rfl⟩, rfl⟩
        · rintro ⟨hn, _, ⟨d', ds, hd', hds, rfl⟩, rfl⟩
          cases hd'
          exact ⟨hn, ds, hds, rfl⟩
      · simp only [hlimit, ↓reduceIte, reduceCtorEq, false_iff]
        rintro ⟨hn, _, ⟨d', ds, hd', hds, rfl⟩, rfl⟩
        cases hd'
        exact hlimit (Nat.le_trans (hmono ds hds) hn)

theorem number_eq_ok_iff (radix limit : Nat) (overflow : Fault) (cs : List Char) (n : Nat) :
    number radix limit overflow cs = .ok n ↔ IsNumeral radix cs n ∧ n ≤ limit := by
  have hvalue : ∀ ds : List Nat,
      Nat.ofDigits radix ds.reverse = ds.foldl (fun n d => n * radix + d) 0 := by
    intro ds
    rw [Nat.ofDigits_eq_foldr, List.foldr_reverse]
    congr
    funext n d
    rw [Nat.mul_comm, Nat.add_comm, Nat.cast_id]
  unfold IsNumeral
  cases cs with
  | nil => simp [number]
  | cons c cs =>
    simp only [number, continueNumber_eq_ok_iff _ _ _ _ _ _ (Nat.zero_le limit), hvalue]
    grind

theorem afterSign_eq_ok_iff (limit : Nat) (overflow : Fault) (cs : List Char) (n : Nat) :
    afterSign limit overflow cs = .ok n ↔ IsNumeral 10 cs n ∧ n ≤ limit := by
  rw [← number_eq_ok_iff 10 limit overflow cs n]
  cases cs with
  | nil => simp [afterSign, number]
  | cons c cs => rw [afterSign]; simp

theorem IsNumeral.isDigit_of_mem {radix : Nat} {cs : List Char} {n : Nat}
    (h : IsNumeral radix cs n) : ∀ c ∈ cs, ∃ d, IsDigit radix c d := by
  obtain ⟨-, ds, hds, -⟩ := h
  induction hds with
  | nil => simp
  | cons hd _ ih => simpa using ⟨⟨_, hd⟩, ih⟩

theorem IsDigit.toNat_cases {radix d : Nat} {c : Char} (h : IsDigit radix c d) :
    48 ≤ c.toNat ∧ c.toNat ≤ 57 ∨ 65 ≤ c.toNat ∧ c.toNat ≤ 90
      ∨ 97 ≤ c.toNat ∧ c.toNat ≤ 122 := by
  have h0 : '0'.toNat = 48 := rfl
  have hA : 'A'.toNat = 65 := rfl
  have ha : 'a'.toNat = 97 := rfl
  obtain ⟨-, h⟩ := h
  omega

theorem not_isNumeral_of_sign {radix : Nat} {cs : List Char} {n : Nat} {c : Char}
    (hc : c = '+' ∨ c = '-') : ¬ IsNumeral radix (c :: cs) n := by
  intro h
  obtain ⟨d, hd⟩ := h.isDigit_of_mem c (by simp)
  unfold IsDigit at hd
  rcases hc with rfl | rfl <;> simp at hd <;> omega

theorem unsigned_eq_ok_iff (limit : Nat) (s : String) (n : Nat) :
    unsigned limit s = .ok n ↔ IsUnsigned limit s n := by
  unfold unsigned IsUnsigned
  simp only [List.mem_cons, List.not_mem_nil, or_false, exists_eq_or_imp, exists_eq_left,
    List.nil_append, List.cons_append]
  split
  · next cs hs =>
    -- no sign is a digit, so a text that begins with one is a numeral after it or none at all
    have hplus : ¬ IsNumeral 10 ('+' :: cs) n := not_isNumeral_of_sign (.inl rfl)
    rw [afterSign_eq_ok_iff, hs]
    grind
  · next hs =>
    rw [number_eq_ok_iff]
    grind

theorem signed_eq_ok_iff (limit : Nat) (s : String) (v : Int) :
    signed limit s = .ok v ↔ IsSigned limit s v := by
  unfold signed IsSigned signs
  simp only [List.mem_cons, List.not_mem_nil, or_false, exists_eq_or_imp, exists_eq_left,
    List.nil_append, List.cons_append, one_mul, neg_mul]
  split
  · next cs hs =>
    have hplus : ∀ n, ¬ IsNumeral 10 ('+' :: cs) n := fun _ => not_isNumeral_of_sign (.inl rfl)
    simp only [Except.map_eq_ok_iff, afterSign_eq_ok_iff, hs]
    grind
  · next cs hs =>
    have hminus : ∀ n, ¬ IsNumeral 10 ('-' :: cs) n := fun _ => not_isNumeral_of_sign (.inr rfl)
    simp only [Except.map_eq_ok_iff, afterSign_eq_ok_iff, hs]
    grind
  · next hplus hminus =>
    simp only [Except.map_eq_ok_iff, number_eq_ok_iff]
    grind

theorem not_isNumeral_of_marker {cs : List Char} {n : Nat} {c : Char}
    (hc : c ∈ ['x', 'X', 'o', 'O', 'b', 'B']) : ¬ IsNumeral 10 ('0' :: c :: cs) n := by
  intro h
  obtain ⟨d, hd, hvalue⟩ := h.isDigit_of_mem c (by simp)
  simp only [List.mem_cons, List.not_mem_nil, or_false] at hc
  rcases hc with rfl | rfl | rfl | rfl | rfl | rfl <;> simp at hvalue <;> omega

theorem magnitude?_eq_some_iff (cs : List Char) (n : Nat) :
    magnitude? cs = some n ↔ IsMagnitude cs n := by
  unfold magnitude? IsMagnitude markers
  simp only [Except.toOption_eq_some_iff, number_eq_ok_iff, List.mem_cons, List.not_mem_nil,
    or_false, exists_eq_or_imp, exists_eq_left, List.nil_append, List.cons_append]
  -- nor is a radix marker a decimal numeral, which decides between the radices
  have hmarker := @not_isNumeral_of_marker
  simp only [List.mem_cons, List.not_mem_nil, or_false] at hmarker
  fun_cases radix cs <;> grind

theorem IsDigit.isBlank_eq_false {radix : Nat} {c : Char} {d : Nat} (h : IsDigit radix c d) :
    Text.isBlank c = false := by
  unfold IsDigit at h
  unfold Text.isBlank
  simp at h ⊢
  omega

theorem IsMagnitude.isBlank_eq_false {cs : List Char} {n : Nat} (h : IsMagnitude cs n) :
    cs ≠ [] ∧ ∀ c ∈ cs, Text.isBlank c = false := by
  obtain ⟨-, marker, hmarker, ds, rfl, hds⟩ := h
  have hblank : ∀ marker ∈ markers, ∀ c ∈ marker.1, Text.isBlank c = false := by
    simp [markers, Text.isBlank]
  constructor
  · simp [hds.1]
  · intro c hc
    rw [List.mem_append] at hc
    cases hc with
    | inl hc => exact hblank marker hmarker c hc
    | inr hc =>
      obtain ⟨d, hd⟩ := hds.isDigit_of_mem c hc
      exact hd.isBlank_eq_false

theorem not_isMagnitude_of_sign {cs : List Char} {n : Nat} {c : Char} (hc : c = '+' ∨ c = '-') :
    ¬ IsMagnitude (c :: cs) n := by
  rintro ⟨-, marker, hmarker, ds, hcs, hds⟩
  have hfirst : ∀ marker ∈ markers, marker.1 = [] ∨ marker.1.head? = some '0' := by decide
  cases hfirst marker hmarker with
  | inl hempty =>
    rw [hempty, List.nil_append] at hcs
    exact not_isNumeral_of_sign hc (hcs ▸ hds)
  | inr hzero =>
    have hhead : (c :: cs).head? = some '0' := by
      rw [hcs, List.head?_append, hzero]
      rfl
    rcases hc with rfl | rfl <;> simp at hhead

theorem literal?_eq_some_iff_trim (s : String) (v : Int) :
    literal? s = some v ↔ ∃ sign ∈ signs, ∃ cs n, Text.trim s.toList = sign.1 ++ cs
      ∧ IsMagnitude cs n ∧ v = sign.2 * n := by
  unfold literal? signs
  simp only [List.mem_cons, List.not_mem_nil, or_false, exists_eq_or_imp, exists_eq_left,
    List.nil_append, List.cons_append, one_mul, neg_mul]
  split
  · next cs hs =>
    have hminus : ∀ n, ¬ IsMagnitude ('-' :: cs) n := fun _ => not_isMagnitude_of_sign (.inr rfl)
    simp only [Option.map_eq_some_iff, magnitude?_eq_some_iff, hs]
    grind
  · next cs hs =>
    have hplus : ∀ n, ¬ IsMagnitude ('+' :: cs) n := fun _ => not_isMagnitude_of_sign (.inl rfl)
    simp only [Option.map_eq_some_iff, magnitude?_eq_some_iff, hs]
    grind
  · next hminus hplus =>
    simp only [Option.map_eq_some_iff, magnitude?_eq_some_iff]
    grind

theorem literal?_eq_some_iff (s : String) (v : Int) : literal? s = some v ↔ IsLiteral s v := by
  rw [literal?_eq_some_iff_trim]
  constructor
  · rintro ⟨sign, hsign, cs, n, htrim, hcs, rfl⟩
    obtain ⟨before, after, hs, hbefore, hafter⟩ := Text.exists_eq_append_trim s.toList
    rw [htrim] at hs
    exact ⟨before, after, sign, cs, n, hs, hbefore, hafter, hsign, hcs, rfl⟩
  · rintro ⟨before, after, sign, cs, n, hs, hbefore, hafter, hsign, hcs, rfl⟩
    refine ⟨sign, hsign, cs, n, ?_, hcs, rfl⟩
    have hblank : ∀ sign ∈ signs, ∀ c ∈ sign.1, Text.isBlank c = false := by
      simp [signs, Text.isBlank]
    rw [hs, Text.trim_append hbefore hafter]
    · intro c hc
      rw [List.mem_append] at hc
      cases hc with
      | inl hc => exact hblank sign hsign c hc
      | inr hc => exact hcs.isBlank_eq_false.2 c hc
    · simp [hcs.isBlank_eq_false.1]

theorem IsLiteral.natAbs_le {s : String} {v : Int} (h : IsLiteral s v) : v.natAbs ≤ maxInt64 := by
  obtain ⟨_, _, sign, _, n, -, -, -, hsign, ⟨hn, -⟩, rfl⟩ := h
  have hunit : ∀ sign ∈ signs, sign.2.natAbs = 1 := by decide
  rw [Int.natAbs_mul, hunit sign hsign, Int.natAbs_natCast, Nat.one_mul]
  exact hn

theorem isDigit_digitChar {radix d : Nat} (hradix : radix ≤ 16) (hd : d < radix) :
    IsDigit radix (Nat.digitChar d) d := by
  have hall : ∀ d < 16, d < 10 ∧ (Nat.digitChar d).toNat = '0'.toNat + d
      ∨ 10 ≤ d ∧ (Nat.digitChar d).toNat = 'a'.toNat + (d - 10) := by
    decide
  refine ⟨hd, ?_⟩
  rcases hall d (by omega) with h | ⟨hle, h⟩
  · exact .inl h
  · exact .inr ⟨hle, by omega, .inl h⟩

theorem isNumeral_singleton {radix : Nat} {c : Char} {d : Nat} (h : IsDigit radix c d) :
    IsNumeral radix [c] d :=
  ⟨by simp, [d], .cons h .nil, by simp⟩

theorem IsNumeral.concat {radix : Nat} {cs : List Char} {n : Nat} (h : IsNumeral radix cs n)
    {c : Char} {d : Nat} (hd : IsDigit radix c d) : IsNumeral radix (cs ++ [c]) (radix * n + d) := by
  obtain ⟨-, ds, hds, rfl⟩ := h
  refine ⟨by simp, ds ++ [d], List.rel_append hds (.cons hd .nil), ?_⟩
  rw [List.reverse_append, List.reverse_singleton, List.singleton_append, Nat.ofDigits_cons,
    Nat.add_comm]

theorem isNumeral_toDigits {radix : Nat} (hpos : 1 < radix) (hradix : radix ≤ 16) (n : Nat) :
    IsNumeral radix (Nat.toDigits radix n) n := by
  induction n using Nat.strongRecOn with
  | ind n ih =>
    rw [Nat.toDigits_eq_if hpos]
    split
    · next hlt => exact isNumeral_singleton (isDigit_digitChar hradix hlt)
    · next hge =>
      have hdiv : n / radix < n := Nat.div_lt_self (by omega) hpos
      have hmod : n % radix < radix := Nat.mod_lt n (by omega)
      have hconcat := (ih (n / radix) hdiv).concat (isDigit_digitChar hradix hmod)
      rwa [Nat.div_add_mod] at hconcat

end Numeral
end Waybind
