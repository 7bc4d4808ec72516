import Mathlib.Algebra.Ring.Int.Defs
import Mathlib.Data.List.Induction
import Mathlib.Data.List.Nodup
import Mathlib.Data.List.TakeWhile
import Waybind.Protocol.Basic

/-!
This module contains what the parts of protocols are made of: declared names that are cut at their
first underscore, and enumerations whose flags stand for powers of two.
-/

namespace Waybind

theorem splitName?_eq_some_iff (declared family name : String) :
    splitName? declared = some (family, name) ↔
      declared = family ++ "_" ++ name ∧ '_' ∉ family.toList := by
  have hlist : declared = family ++ "_" ++ name ↔
      declared.toList = family.toList ++ '_' :: name.toList := by
    rw [← String.toList_inj]
    simp
  rw [hlist]
  unfold splitName?
  constructor
  · intro h
    split at h
    · contradiction
    · next c rest hrest =>
      have hc : c = '_' := by
        have := List.head?_dropWhile_not (· != '_') declared.toList
        simpa [hrest] using this
      have hcut := List.takeWhile_append_dropWhile (p := (· != '_')) (l := declared.toList)
      rw [hrest, hc] at hcut
      simp only [Option.some.injEq, Prod.mk.injEq] at h
      obtain ⟨rfl, rfl⟩ := h
      refine ⟨by simpa using hcut.symm, ?_⟩
      intro hmem
      simp only [String.toList_ofList] at hmem
      simpa using List.mem_takeWhile_imp hmem
  · rintro ⟨hdeclared, hfamily⟩
    have hne : ∀ c ∈ family.toList, (c != '_') = true := by
      intro c hc
      rw [bne_iff_ne]
      rintro rfl
      exact hfamily hc
    rw [hdeclared, List.dropWhile_append_of_pos hne, List.takeWhile_append_of_pos hne]
    simp

theorem Entry.singleBit?_eq_some_iff (entry : Entry) (bit : Nat) :
    entry.singleBit? = some bit ↔ entry.value = 2 ^ bit := by
  unfold Entry.singleBit?
  simp only [Nat.one_shiftLeft, Option.ite_none_right_eq_some, Option.some.injEq]
  constructor
  · rintro ⟨hvalue, rfl⟩
    have hpos : 0 < entry.value.toNat := by
      rw [hvalue]
      exact Nat.two_pow_pos _
    have hcast : entry.value = (entry.value.toNat : Int) := by omega
    rw [hcast, Int.toNat_natCast]
    exact_mod_cast hvalue
  · intro hvalue
    have hnat : entry.value.toNat = 2 ^ bit := by
      rw [hvalue]
      exact_mod_cast Int.toNat_natCast (2 ^ bit)
    rw [hnat, Nat.log2_two_pow]
    simp

theorem Entry.singleBit?_eq_some_iff_lowest (entry : Entry) (bit : Nat) :
    entry.singleBit? = some bit ↔
      0 < entry.value ∧ entry.value.toNat &&& (entry.value.toNat - 1) = 0
        ∧ entry.value.toNat.testBit bit = true
        ∧ ∀ lower < bit, entry.value.toNat.testBit lower = false := by
  rw [singleBit?_eq_some_iff]
  constructor
  · intro hvalue
    have hnat : entry.value.toNat = 2 ^ bit := by
      rw [hvalue]
      exact_mod_cast Int.toNat_natCast (2 ^ bit)
    have hpos : 0 < 2 ^ bit := Nat.two_pow_pos bit
    rw [hnat]
    refine ⟨by omega, ?_, Nat.testBit_two_pow_self, ?_⟩
    · exact (Nat.and_sub_one_eq_zero_iff_isPowerOfTwo (by omega)).mpr ⟨bit, rfl⟩
    · intro lower hlower
      exact Nat.testBit_two_pow_of_ne (by omega)
  · rintro ⟨hpos, hand, hbit, -⟩
    obtain ⟨power, hpower⟩ := (Nat.and_sub_one_eq_zero_iff_isPowerOfTwo (by omega)).mp hand
    rw [hpower, Nat.testBit_two_pow, decide_eq_true_iff] at hbit
    have hcast : entry.value = (entry.value.toNat : Int) := by omega
    rw [hcast, hpower, hbit]
    exact_mod_cast rfl

namespace Entry

/--
The first one of some entries that has a bit for its value.
-/
def FirstOf (entries : List Entry) (bit : Nat) (entry : Entry) : Prop :=
  entry.value = 2 ^ bit ∧ ∃ before after, entries = before ++ entry :: after
    ∧ ∀ other ∈ before, other.value ≠ 2 ^ bit

theorem firstOf_concat_iff (entries : List Entry) (last : Entry) (bit : Nat) (entry : Entry) :
    FirstOf (entries ++ [last]) bit entry ↔
      FirstOf entries bit entry
        ∨ entry = last ∧ last.value = 2 ^ bit ∧ ∀ other ∈ entries, other.value ≠ 2 ^ bit := by
  constructor
  · rintro ⟨hvalue, before, after, hentries, hbefore⟩
    rcases List.eq_nil_or_concat after with rfl | ⟨after, other, rfl⟩
    · obtain ⟨rfl, hlast⟩ := List.append_inj' hentries rfl
      cases hlast
      exact .inr ⟨rfl, hvalue, hbefore⟩
    · rw [List.concat_eq_append, ← List.cons_append, ← List.append_assoc] at hentries
      obtain ⟨rfl, -⟩ := List.append_inj' hentries rfl
      exact .inl ⟨hvalue, before, after, rfl, hbefore⟩
  · rintro (⟨hvalue, before, after, rfl, hbefore⟩ | ⟨rfl, hvalue, hentries⟩)
    · exact ⟨hvalue, before, after ++ [last], by simp, hbefore⟩
    · exact ⟨hvalue, entries, [], rfl, hentries⟩

theorem exists_firstOf_iff (entries : List Entry) (bit : Nat) :
    (∃ entry, FirstOf entries bit entry) ↔ ∃ entry ∈ entries, entry.value = 2 ^ bit := by
  constructor
  · rintro ⟨entry, hvalue, before, after, rfl, -⟩
    exact ⟨entry, by simp, hvalue⟩
  · induction entries using List.reverseRecOn with
    | nil => simp
    | append_singleton entries last ih =>
      rintro ⟨entry, hentry, hvalue⟩
      simp only [firstOf_concat_iff]
      by_cases hearlier : ∃ other ∈ entries, other.value = 2 ^ bit
      · obtain ⟨first, hfirst⟩ := ih hearlier
        exact ⟨first, .inl hfirst⟩
      · simp only [not_exists, not_and] at hearlier
        rw [List.mem_append, List.mem_singleton] at hentry
        obtain rfl := hentry.resolve_left fun hmem => hearlier entry hmem hvalue
        exact ⟨entry, .inr ⟨rfl, hvalue, hearlier⟩⟩

end Entry

namespace Enumeration

theorem mem_bits_addFlag (bit : Nat) (entry : Entry) (flags : List (Nat × Entry)) (b : Nat) :
    b ∈ (addFlag bit entry flags).map Prod.fst ↔ b = bit ∨ b ∈ flags.map Prod.fst := by
  fun_induction addFlag bit entry flags with
  | case1 => simp
  | case2 flag flags hlt => simp
  | case3 flag flags hlt heq => grind
  | case4 flag flags hlt hne ih =>
    rw [List.map_cons, List.mem_cons, ih, List.map_cons, List.mem_cons]
    exact or_left_comm

theorem pairwise_bits_addFlag (bit : Nat) (entry : Entry) {flags : List (Nat × Entry)}
    (h : (flags.map Prod.fst).Pairwise (· < ·)) :
    ((addFlag bit entry flags).map Prod.fst).Pairwise (· < ·) := by
  fun_induction addFlag bit entry flags with
  | case1 => simp
  | case2 flag flags hlt =>
    rw [List.map_cons, List.pairwise_cons] at h
    simp only [List.map_cons, List.pairwise_cons, List.mem_cons]
    refine ⟨?_, h⟩
    rintro b (rfl | hb)
    · exact hlt
    · exact Nat.lt_trans hlt (h.1 b hb)
  | case3 => exact h
  | case4 flag flags hlt hne ih =>
    rw [List.map_cons, List.pairwise_cons] at h
    rw [List.map_cons, List.pairwise_cons]
    refine ⟨?_, ih h.2⟩
    intro b hb
    rcases (mem_bits_addFlag bit entry flags b).mp hb with rfl | hb
    · omega
    · exact h.1 b hb

theorem mem_addFlag_iff (bit : Nat) (entry : Entry) {flags : List (Nat × Entry)}
    (h : (flags.map Prod.fst).Pairwise (· < ·)) (flag : Nat × Entry) :
    flag ∈ addFlag bit entry flags ↔
      flag ∈ flags ∨ flag = (bit, entry) ∧ bit ∉ flags.map Prod.fst := by
  fun_induction addFlag bit entry flags with
  | case1 => simp
  | case2 first flags hlt =>
    -- the bits are in ascending order, so that none behind the first one is this one
    have hfree : bit ∉ (first :: flags).map Prod.fst := by
      rw [List.map_cons, List.pairwise_cons] at h
      rw [List.map_cons, List.mem_cons, not_or]
      refine ⟨Nat.ne_of_lt hlt, fun hmem => ?_⟩
      exact Nat.lt_asymm hlt (h.1 bit hmem)
    rw [List.mem_cons, or_comm, and_iff_left hfree]
  | case3 first flags hlt heq => simp [heq]
  | case4 first flags hlt hne ih =>
    rw [List.map_cons, List.pairwise_cons] at h
    rw [List.mem_cons, ih h.2, List.map_cons, List.mem_cons, List.mem_cons, or_assoc, not_or,
      and_iff_right hne]

theorem mem_bits_iff_of_firstOf {flags : List (Nat × Entry)} {entries : List Entry}
    (h : ∀ bit entry, (bit, entry) ∈ flags ↔ Entry.FirstOf entries bit entry) (bit : Nat) :
    bit ∈ flags.map Prod.fst ↔ ∃ entry ∈ entries, entry.value = 2 ^ bit := by
  rw [← Entry.exists_firstOf_iff]
  simp [h]

theorem flags_sorted_first (enum : Enumeration) :
    (enum.flags.map Prod.fst).Pairwise (· < ·)
      ∧ ∀ bit entry, (bit, entry) ∈ enum.flags ↔ Entry.FirstOf enum.entries.values bit entry := by
  unfold flags
  induction enum.entries.values using List.reverseRecOn with
  | nil => simp [Entry.FirstOf]
  | append_singleton entries last ih =>
    obtain ⟨hsorted, hmem⟩ := ih
    have hbits := mem_bits_iff_of_firstOf hmem
    rw [List.foldl_append, List.foldl_cons, List.foldl_nil]
    simp only [Entry.firstOf_concat_iff, ← hmem, ← Entry.singleBit?_eq_some_iff last]
    split
    · next bit hbit =>
      refine ⟨pairwise_bits_addFlag bit last hsorted, ?_⟩
      intro b entry
      rw [mem_addFlag_iff bit last hsorted, hbits, hbit]
      grind
    · next hbit => simpa [hbit] using hsorted

theorem pairwise_bits_flags (enum : Enumeration) :
    (enum.flags.map Prod.fst).Pairwise (· < ·) :=
  enum.flags_sorted_first.1

theorem mem_flags_iff (enum : Enumeration) (bit : Nat) (entry : Entry) :
    (bit, entry) ∈ enum.flags ↔ Entry.FirstOf enum.entries.values bit entry :=
  enum.flags_sorted_first.2 bit entry

theorem mem_bits_flags (enum : Enumeration) (b : Nat) :
    b ∈ enum.flags.map Prod.fst ↔ ∃ entry ∈ enum.entries.values, entry.value = 2 ^ b :=
  mem_bits_iff_of_firstOf enum.mem_flags_iff b

theorem value_of_mem_flags {enum : Enumeration} {bit : Nat} {entry : Entry}
    (h : (bit, entry) ∈ enum.flags) : entry ∈ enum.entries.values ∧ entry.value = 2 ^ bit := by
  obtain ⟨hvalue, before, after, hentries, -⟩ := (enum.mem_flags_iff bit entry).mp h
  refine ⟨?_, hvalue⟩
  simp [hentries]

def pushFlag (flags : List (Nat × Entry)) (entry : Entry) : List (Nat × Entry) :=
  match entry.singleBit? with
  | some bit => if bit ∈ flags.map Prod.fst then flags else flags ++ [(bit, entry)]
  | none => flags

theorem foldl_pushFlag_first (entries : List Entry) :
    ((entries.foldl pushFlag []).map Prod.fst).Nodup
      ∧ ∀ bit entry, (bit, entry) ∈ entries.foldl pushFlag [] ↔
        Entry.FirstOf entries bit entry := by
  induction entries using List.reverseRecOn with
  | nil => simp [Entry.FirstOf]
  | append_singleton entries last ih =>
    obtain ⟨hnodup, hmem⟩ := ih
    have hbits := mem_bits_iff_of_firstOf hmem
    rw [List.foldl_append, List.foldl_cons, List.foldl_nil, pushFlag]
    simp only [Entry.firstOf_concat_iff, ← hmem, ← Entry.singleBit?_eq_some_iff last]
    split
    · next bit hbit =>
      rw [hbit]
      split
      · next htaken =>
        rw [hbits] at htaken
        exact ⟨hnodup, by grind⟩
      · next hfree =>
        refine ⟨?_, ?_⟩
        · rw [List.map_append, List.map_singleton, ← List.concat_eq_append, List.nodup_concat]
          exact ⟨hfree, hnodup⟩
        · rw [hbits] at hfree
          grind
    · next hbit => simpa [hbit] using hnodup

theorem flags_eq_mergeSort (enum : Enumeration) :
    enum.flags = (enum.entries.values.foldl pushFlag []).mergeSort
      fun flag other => flag.1 ≤ other.1 := by
  obtain ⟨hnodup, hmem⟩ := foldl_pushFlag_first enum.entries.values
  generalize enum.entries.values.foldl pushFlag [] = pushed at hnodup hmem
  have hflags : enum.flags.Pairwise fun flag other => flag.1 < other.1 :=
    List.pairwise_map.mp enum.pairwise_bits_flags
  have hperm : (pushed.mergeSort fun flag other => flag.1 ≤ other.1).Perm pushed :=
    List.mergeSort_perm pushed _
  have hle : (pushed.mergeSort fun flag other => flag.1 ≤ other.1).Pairwise
      fun flag other => flag.1 ≤ other.1 := by
    refine (List.pairwise_mergeSort ?_ ?_ pushed).imp of_decide_eq_true
    · intro flag other third
      simp only [decide_eq_true_eq]
      exact Nat.le_trans
    · intro flag other
      simp only [Bool.or_eq_true, decide_eq_true_eq]
      exact Nat.le_total _ _
  have hne : (pushed.mergeSort fun flag other => flag.1 ≤ other.1).Pairwise
      fun flag other => flag.1 ≠ other.1 :=
    List.pairwise_map.mp ((hperm.map Prod.fst).nodup_iff.mpr hnodup)
  have hlt := hle.imp₂ (fun _ _ => Nat.lt_of_le_of_ne) hne
  have hsame : enum.flags.Perm pushed := by
    have hflagsNodup : enum.flags.Nodup := hflags.imp fun hlt heq => by simp [heq] at hlt
    rw [List.perm_ext_iff_of_nodup hflagsNodup (hnodup.of_map _)]
    rintro ⟨bit, entry⟩
    rw [mem_flags_iff, hmem]
  -- the same flags in strictly ascending order of bits
  apply (hsame.trans hperm.symm).eq_of_pairwise _ hflags hlt
  intro flag other _ _ hlt hgt
  omega

theorem isSigned_iff (enum : Enumeration) :
    enum.isSigned = true ↔
      ∀ entry ∈ enum.entries.values, -2 ^ 31 ≤ entry.value ∧ entry.value < 2 ^ 31 := by
  unfold isSigned
  simp only [List.all_eq_true, Bool.and_eq_true, decide_eq_true_eq]
  refine forall₂_congr fun entry _ => ?_
  omega

theorem isUnsigned_iff (enum : Enumeration) :
    enum.isUnsigned = true ↔
      ∀ entry ∈ enum.entries.values, 0 ≤ entry.value ∧ entry.value < 2 ^ 32 := by
  unfold isUnsigned
  simp only [List.all_eq_true, Bool.and_eq_true, decide_eq_true_eq]
  refine forall₂_congr fun entry _ => ?_
  omega

end Enumeration
end Waybind
