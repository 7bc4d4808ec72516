import Waybind.Proofs.Zig.Quoted

/-!
This module contains what names are as identifiers: either bare, or between quotes in a form that
denotes the name. So different names are different identifiers.
-/

namespace Waybind
namespace Zig

section Bare

def IsDecimal (c : Char) : Prop :=
  '0' ≤ c ∧ c ≤ '9'

def IsLetter (c : Char) : Prop :=
  'A' ≤ c ∧ c ≤ 'Z' ∨ 'a' ≤ c ∧ c ≤ 'z' ∨ c = '_'

structure Bare (name : String) : Prop where
  form : ∃ c rest, name.toList = c :: rest ∧ IsLetter c ∧ ∀ d ∈ rest, IsLetter d ∨ IsDecimal d
  ne_underscore : name ≠ "_"
  not_keyword : name ∉ keywords
  not_primitive : name ∉ primitives
  not_integer : ¬ ∃ c bits, name.toList = c :: bits ∧ (c = 'i' ∨ c = 'u') ∧ bits ≠ []
    ∧ ∀ d ∈ bits, IsDecimal d

theorem isDigit_iff (c : Char) : isDigit c = true ↔ IsDecimal c := by
  simp only [isDigit, IsDecimal, Bool.and_eq_true, decide_eq_true_eq]

theorem isNameStart_iff (c : Char) : isNameStart c = true ↔ IsLetter c := by
  simp only [isNameStart, IsLetter, Bool.or_eq_true, Bool.and_eq_true, decide_eq_true_eq,
    beq_iff_eq]
  rw [or_left_comm, or_assoc]

theorem isNameChar_iff (c : Char) : isNameChar c = true ↔ IsLetter c ∨ IsDecimal c := by
  rw [isNameChar, Bool.or_eq_true, isNameStart_iff, isDigit_iff]

theorem isPlain_iff (cs : List Char) : isPlain cs = true ↔
    ∃ c rest, cs = c :: rest ∧ IsLetter c ∧ ∀ d ∈ rest, IsLetter d ∨ IsDecimal d := by
  cases cs with
  | nil => simp [isPlain]
  | cons c rest =>
    simp only [isPlain, List.all_cons, Bool.and_eq_true, List.all_eq_true, isNameChar_iff,
      isNameStart_iff, List.cons.injEq]
    constructor
    · rintro ⟨hc, -, hrest⟩
      exact ⟨c, rest, ⟨rfl, rfl⟩, hc, hrest⟩
    · rintro ⟨_, _, ⟨rfl, rfl⟩, hc, hrest⟩
      exact ⟨hc, .inl hc, hrest⟩

theorem isIntegerType_iff (cs : List Char) : isIntegerType cs = true ↔
    ∃ c bits, cs = c :: bits ∧ (c = 'i' ∨ c = 'u') ∧ bits ≠ [] ∧ ∀ d ∈ bits, IsDecimal d := by
  cases cs with
  | nil => simp [isIntegerType]
  | cons c bits =>
    simp only [isIntegerType, Bool.and_eq_true, Bool.or_eq_true, beq_iff_eq, Bool.not_eq_true',
      List.isEmpty_eq_false_iff, List.all_eq_true, isDigit_iff, List.cons.injEq]
    constructor
    · rintro ⟨⟨hc, hne⟩, hbits⟩
      exact ⟨c, bits, ⟨rfl, rfl⟩, hc, hne, hbits⟩
    · rintro ⟨_, _, ⟨rfl, rfl⟩, hc, hne, hbits⟩
      exact ⟨⟨hc, hne⟩, hbits⟩

theorem bare_iff (name : String) :
    Bare name ↔ (isPlain name.toList && !isReserved name) = true := by
  rw [Bool.and_eq_true, Bool.not_eq_true', isPlain_iff, ← Bool.not_eq_true, isReserved]
  simp only [Bool.or_eq_true, beq_iff_eq, List.contains_eq_mem, decide_eq_true_eq, not_or,
    isIntegerType_iff]
  constructor
  · rintro ⟨hform, hunderscore, hkeyword, hprimitive, hinteger⟩
    exact ⟨hform, ⟨⟨hunderscore, hkeyword⟩, hprimitive⟩, hinteger⟩
  · rintro ⟨hform, ⟨⟨hunderscore, hkeyword⟩, hprimitive⟩, hinteger⟩
    exact ⟨hform, hunderscore, hkeyword, hprimitive, hinteger⟩

theorem ident_of_bare {name : String} (h : Bare name) : ident name = name := by
  rw [ident, if_pos ((bare_iff name).mp h)]

theorem ident_of_not_bare {name : String} (h : ¬ Bare name) :
    ident name = "@\"" ++ escape name ++ "\"" := by
  rw [ident, if_neg (mt (bare_iff name).mpr h)]

end Bare

theorem quoted_ne_plain {name : String} (hplain : isPlain name.toList = true) (quoted : String) :
    "@\"" ++ quoted ++ "\"" ≠ name := by
  rintro rfl
  simp [isPlain, isNameStart] at hplain

theorem ident_injective : Function.Injective ident := by
  intro name name' h
  unfold ident at h
  split at h <;> split at h
  · exact h
  · next hplain _ =>
    rw [Bool.and_eq_true] at hplain
    exact absurd h.symm (quoted_ne_plain hplain.1 _)
  · next hplain =>
    rw [Bool.and_eq_true] at hplain
    exact absurd h (quoted_ne_plain hplain.1 _)
  · rw [String.append_left_inj, String.append_right_inj] at h
    exact escape_injective h

/--
An identifier is a bare name itself, or else a text between quotes of printable ASCII, in which
quotes and backslashes stand only in escapes and which is read as exactly the name. So different
names are different identifiers.
-/
theorem ident_faithful :
    (∀ name, Bare name ∧ ident name = name
      ∨ ¬ Bare name ∧ ∃ body : String, ident name = "@\"" ++ body ++ "\""
        ∧ (∀ c ∈ body.toList, ' ' ≤ c ∧ c ≤ '~') ∧ Denotes body.toList name.toList
        ∧ ∀ rest, quoted? (body.toList ++ '"' :: rest) = some (name.toList, rest))
    ∧ Function.Injective ident := by
  refine ⟨fun name => ?_, ident_injective⟩
  by_cases hbare : Bare name
  · exact .inl ⟨hbare, ident_of_bare hbare⟩
  · have hdenotes := denotes_escape name
    refine .inr ⟨hbare, escape name, ident_of_not_bare hbare, ?_, hdenotes,
      quoted?_of_denotes hdenotes⟩
    intro c hc
    exact printable_of_mem_escape hc

end Zig
end Waybind
