import Waybind.Proofs.Zig.Identifier
import Waybind.Proofs.Zig.Node

/-!
This module contains a reader for the identifier that a text declares. It passes over comments, and
takes the identifier behind `pub const` up to its end.
-/

namespace Waybind
namespace Zig

def skipComments (text : List Char) : List Char :=
  go false text
where
  go (inside : Bool) (text : List Char) : List Char :=
    match text with
    | [] => []
    | c :: text =>
      if inside then
        go (c != '\n') text
      else if Text.isBlank c then
        go false text
      else if c == '/' && text.head? == some '/' then
        go true text
      else
        c :: text

def upToQuote (escaped : Bool) (text : List Char) : List Char :=
  match text with
  | [] => []
  | c :: text =>
    if escaped then
      c :: upToQuote false text
    else if c == '"' then
      [c]
    else
      c :: upToQuote (c == '\\') text

def leadingIdent (text : List Char) : List Char :=
  if ['@', '"'].isPrefixOf text then
    text.take 2 ++ upToQuote false (text.drop 2)
  else
    text.takeWhile isNameChar

def declared? (text : String) : Option String :=
  ((skipComments text.toList).dropPrefix? "pub const ".toList).map
    fun rest => String.ofList (leadingIdent rest)

section Comment

theorem skipComments_of_isBlank {c : Char} (hc : Text.isBlank c = true) (rest : List Char) :
    skipComments (c :: rest) = skipComments rest := by
  rw [skipComments, skipComments.go]
  simp only [hc, Bool.false_eq_true, ↓reduceIte]
  rfl

theorem skipComments_inside {line : List Char} (h : '\n' ∉ line) (rest : List Char) :
    skipComments.go true (line ++ '\n' :: rest) = skipComments rest := by
  induction line with
  | nil => rfl
  | cons c line ih =>
    rw [List.mem_cons, not_or] at h
    have hc : (c != '\n') = true := bne_iff_ne.mpr (Ne.symm h.1)
    rw [List.cons_append, skipComments.go, hc]
    exact ih h.2

theorem skipComments_comment {line : List Char} (h : '\n' ∉ line) (rest : List Char) :
    skipComments ('/' :: '/' :: line ++ '\n' :: rest) = skipComments rest := by
  have hstart : skipComments ('/' :: '/' :: line ++ '\n' :: rest) =
      skipComments.go true (line ++ '\n' :: rest) := by
    rfl
  rw [hstart, skipComments_inside h]

theorem passesComments_skipComments : PassesComments skipComments :=
  ⟨skipComments_of_isBlank rfl, skipComments_comment⟩

theorem skipComments_doc (doc : Option String) (rest : List Char) :
    skipComments ((comment doc "///").toList ++ rest) = skipComments rest :=
  passesComments_skipComments.comment doc rfl (by decide : '\n' ∉ ['/']) rest

end Comment

section Ident

variable (rest : List Char)

theorem upToQuote_plain {text : List Char} (h : ∀ c ∈ text, c ≠ '"' ∧ c ≠ '\\') :
    upToQuote false (text ++ rest) = text ++ upToQuote false rest := by
  induction text with
  | nil => rfl
  | cons c text ih =>
    obtain ⟨⟨hquote, hslash⟩, htext⟩ := List.forall_mem_cons.mp h
    have hquote : (c == '"') = false := beq_false_of_ne hquote
    have hslash : (c == '\\') = false := beq_false_of_ne hslash
    rw [List.cons_append, upToQuote]
    simp only [hquote, hslash, Bool.false_eq_true, ↓reduceIte, ih htext, List.cons_append]

theorem upToQuote_escaped (c : Char) :
    upToQuote false ('\\' :: c :: rest) = '\\' :: c :: upToQuote false rest := by
  rfl

theorem upToQuote_escapeChar (c : Char) :
    upToQuote false (escapeChar c ++ rest) = escapeChar c ++ upToQuote false rest := by
  have hnumeral : Numeral.IsNumeral 16 (Nat.toDigits 16 c.toNat) c.toNat :=
    Numeral.isNumeral_toDigits (by decide) (by decide) c.toNat
  unfold escapeChar
  simp only [beq_iff_eq, Bool.or_eq_true, Bool.and_eq_true, decide_eq_true_eq]
  split_ifs with htab hreturn hline hquote hprintable
  · exact upToQuote_escaped rest 't'
  · exact upToQuote_escaped rest 'r'
  · exact upToQuote_escaped rest 'n'
  · exact upToQuote_escaped rest c
  · refine upToQuote_plain rest (List.forall_mem_singleton.mpr ?_)
    grind
  · have hcode : ∀ d ∈ '\x7b' :: Nat.toDigits 16 c.toNat ++ ['\x7d'], d ≠ '"' ∧ d ≠ '\\' := by
      intro d hd
      simp only [List.cons_append, List.mem_cons, List.mem_append, List.not_mem_nil, or_false] at hd
      rcases hd with rfl | hd | rfl
      · decide
      · obtain ⟨_, _, hdigit⟩ := hnumeral.isDigit_of_mem d hd
        constructor
        · rintro rfl
          simp at hdigit
          omega
        · rintro rfl
          simp at hdigit
          omega
      · decide
    have hsplit : ['\\', 'u', '\x7b'] ++ Nat.toDigits 16 c.toNat ++ ['\x7d'] =
        '\\' :: 'u' :: ('\x7b' :: Nat.toDigits 16 c.toNat ++ ['\x7d']) := by
      simp
    rw [hsplit, List.cons_append, List.cons_append, upToQuote_escaped, upToQuote_plain rest hcode]
    rfl

theorem upToQuote_escape (cs : List Char) :
    upToQuote false (cs.flatMap escapeChar ++ '"' :: rest) = cs.flatMap escapeChar ++ ['"'] := by
  induction cs with
  | nil => rfl
  | cons c cs ih =>
    rw [List.flatMap_cons, List.append_assoc, upToQuote_escapeChar, ih, List.append_assoc]

theorem leadingIdent_quoted (body : List Char) :
    leadingIdent ('@' :: '"' :: body) = '@' :: '"' :: upToQuote false body := by
  rfl

theorem leadingIdent_ident (name : String) {c : Char} (hc : isNameChar c = false) :
    leadingIdent ((ident name).toList ++ c :: rest) = (ident name).toList := by
  unfold ident
  split
  · next hplain =>
    rw [Bool.and_eq_true] at hplain
    obtain ⟨d, ds, hname⟩ : ∃ d ds, name.toList = d :: ds := by
      cases hname : name.toList with
      | nil => simp [hname, isPlain] at hplain
      | cons d ds => exact ⟨d, ds, rfl⟩
    rw [hname, isPlain, Bool.and_eq_true] at hplain
    have hquoted : (['@', '"'].isPrefixOf (d :: ds ++ c :: rest)) = false := by
      have hat : ('@' == d) = false := by
        rw [beq_eq_false_iff_ne]
        rintro rfl
        simp [isNameStart] at hplain
      rw [List.cons_append, List.isPrefixOf, hat, Bool.false_and]
    have hall : ∀ e ∈ d :: ds, isNameChar e = true := List.all_eq_true.mp hplain.1.2
    rw [hname, leadingIdent, hquoted, if_neg Bool.false_ne_true, List.takeWhile_append_of_pos hall,
      List.takeWhile_cons_of_neg (by simp [hc]), List.append_nil]
  · have hquoted : ("@\"" ++ escape name ++ "\"").toList =
        '@' :: '"' :: (name.toList.flatMap escapeChar ++ ['"']) := by
      simp [escape]
    rw [hquoted, List.cons_append, List.cons_append, leadingIdent_quoted, List.append_assoc,
      List.singleton_append, upToQuote_escape]

end Ident

theorem dropPrefix?_append (start rest : List Char) :
    (start ++ rest).dropPrefix? start = some rest :=
  List.dropPrefix?_eq_some_iff.mpr ⟨start, rfl, beq_self_eq_true start⟩

theorem dropPrefix?_skipComments (doc : Option String) (rest : List Char) :
    (skipComments ((comment doc "///").toList ++ ("pub const ".toList ++ rest))).dropPrefix?
      "pub const ".toList = some rest := by
  rw [skipComments_doc]
  exact dropPrefix?_append "pub const ".toList rest

theorem declared?_eq_some (doc : Option String) (name : String) {value : String}
    (hvalue : value.toList.head? = some ' ') :
    declared? (comment doc "///" ++ "pub const " ++ ident name ++ value) = some (ident name) := by
  obtain ⟨rest, hrest⟩ := List.head?_eq_some_iff.mp hvalue
  have htext : (comment doc "///" ++ "pub const " ++ ident name ++ value).toList =
      (comment doc "///").toList
        ++ ("pub const ".toList ++ ((ident name).toList ++ ' ' :: rest)) := by
    simp only [String.toList_append, List.append_assoc, hrest]
  rw [declared?, htext, dropPrefix?_skipComments, Option.map_some,
    leadingIdent_ident _ _ (by decide), String.ofList_toList]

end Zig
end Waybind
