import Waybind.Proofs.Numeral
import Waybind.Proofs.Utf8.Strict
import Waybind.Zig.Identifier

/-!
This module contains texts between quotes: how their characters may be written, and a reader that
accepts exactly this. Main statements: an escaped text is read back, and a text that stands between
quotes as it is is read back exactly if each of its characters stands for itself.
-/

namespace Waybind
namespace Zig

/--
Characters that stand for themselves between quotes: no quote or backslash, no control character of
ASCII and no line break.
-/
def isLiteralChar (c : Char) : Bool :=
  ' ' ≤ c && !(['"', '\\', '\x7f', '\u0085', '\u2028', '\u2029'].contains c)

def marks : List (Char × Char) := [
  ('n', '\n'), ('r', '\r'), ('t', '\t'), ('\\', '\\'), ('\'', '\''), ('"', '"')]

inductive Spells : List Char → Char → Prop where
  | plain {c : Char} (hc : isLiteralChar c = true) : Spells [c] c
  | mark {mark c : Char} (hc : (mark, c) ∈ marks) : Spells ['\\', mark] c
  | codePoint {digits : List Char} {c : Char} (hc : Numeral.IsNumeral 16 digits c.toNat) :
    Spells ('\\' :: 'u' :: '\x7b' :: (digits ++ ['\x7d'])) c

inductive Denotes : List Char → List Char → Prop where
  | nil : Denotes [] []
  | cons {piece body text : List Char} {c : Char} (hc : Spells piece c) (h : Denotes body text) :
    Denotes (piece ++ body) (c :: text)

section Reading

def codePoint? (text : List Char) : Option (Char × List Char) :=
  match text.dropWhile (· != '\x7d') with
  | [] => none
  | _ :: rest =>
    match Numeral.number 16 0x10FFFF .tooLarge (text.takeWhile (· != '\x7d')) with
    | .error _ => none
    | .ok code => if code.isValidChar then some (Char.ofNat code, rest) else none

def escaped? (text : List Char) : Option (Char × List Char) :=
  match text with
  | [] => none
  | mark :: rest =>
    match marks.lookup mark with
    | some c => some (c, rest)
    | none => if mark = 'u' ∧ rest.head? = some '\x7b' then codePoint? rest.tail else none

/--
The first character of a text between quotes, and what stands behind it.
-/
def char? (text : List Char) : Option (Char × List Char) :=
  match text with
  | [] => none
  | c :: rest =>
    if isLiteralChar c then some (c, rest) else if c = '\\' then escaped? rest else none

theorem notMem_of_isNumeral {digits : List Char} {n : Nat} (h : Numeral.IsNumeral 16 digits n) :
    '\x7d' ∉ digits ∧ '"' ∉ digits := by
  have hmem {c : Char} (hc : c ∈ digits) := (h.isDigit_of_mem c hc).elim fun _ hd => hd.toNat_cases
  exact ⟨fun hc => absurd (hmem hc) (by decide), fun hc => absurd (hmem hc) (by decide)⟩

theorem codePoint?_eq_some_iff {text rest : List Char} {c : Char} :
    codePoint? text = some (c, rest) ↔ ∃ digits, text = digits ++ '\x7d' :: rest
      ∧ Numeral.IsNumeral 16 digits c.toNat := by
  constructor
  · intro h
    unfold codePoint? at h
    split at h
    · cases h
    · next brace after hdrop =>
      obtain ⟨htext, hbrace⟩ := Text.eq_append_of_dropWhile_eq hdrop
      rw [bne_eq_false_iff_eq] at hbrace
      split at h
      · cases h
      · next code hcode =>
        split at h
        · next hvalid =>
          cases h
          obtain ⟨hnumeral, -⟩ := (Numeral.number_eq_ok_iff _ _ _ _ _).mp hcode
          rw [hbrace] at htext
          refine ⟨_, htext, ?_⟩
          rwa [Char.toNat, Utf8.toNat_val_ofNat hvalid]
        · cases h
  · rintro ⟨digits, rfl, hnumeral⟩
    have hbrace : ∀ d ∈ digits, (d != '\x7d') = true := by
      intro d hd
      exact bne_iff_ne.mpr fun heq => (notMem_of_isNumeral hnumeral).1 (heq ▸ hd)
    have hvalid : c.toNat.isValidChar := c.valid
    have hmax : c.toNat ≤ 0x10FFFF := by
      unfold Nat.isValidChar at hvalid
      omega
    have hnumber := (Numeral.number_eq_ok_iff 16 0x10FFFF .tooLarge _ _).mpr ⟨hnumeral, hmax⟩
    have htake : (digits ++ '\x7d' :: rest).takeWhile (· != '\x7d') = digits := by
      rw [List.takeWhile_append_of_pos hbrace]
      simp
    have hdrop : (digits ++ '\x7d' :: rest).dropWhile (· != '\x7d') = '\x7d' :: rest := by
      rw [List.dropWhile_append_of_pos hbrace]
      simp
    simp only [codePoint?, htake, hdrop, hnumber, if_pos hvalid, Char.ofNat_toNat]

theorem lookup_marks_eq_some_iff {mark c : Char} :
    marks.lookup mark = some c ↔ (mark, c) ∈ marks := by
  constructor
  · intro h
    obtain ⟨before, after, hmarks, -⟩ := List.lookup_eq_some_iff.mp h
    rw [hmarks]
    exact List.mem_append_right before List.mem_cons_self
  · simp only [marks, List.mem_cons, Prod.mk.injEq, List.not_mem_nil, or_false]
    rintro (⟨rfl, rfl⟩ | ⟨rfl, rfl⟩ | ⟨rfl, rfl⟩ | ⟨rfl, rfl⟩ | ⟨rfl, rfl⟩ | ⟨rfl, rfl⟩)
    all_goals rfl

theorem escaped?_eq_some_iff {text rest : List Char} {c : Char} :
    escaped? text = some (c, rest) ↔ ∃ piece, text = piece ++ rest ∧ Spells ('\\' :: piece) c := by
  constructor
  · intro h
    unfold escaped? at h
    split at h
    · cases h
    · next mark after =>
      split at h
      · next hmark =>
        cases h
        exact ⟨[mark], rfl, .mark (lookup_marks_eq_some_iff.mp hmark)⟩
      · split at h
        · next hcode =>
          obtain ⟨rfl, hbrace⟩ := hcode
          obtain ⟨digits, hdigits, hnumeral⟩ := codePoint?_eq_some_iff.mp h
          obtain ⟨tail, rfl⟩ := List.head?_eq_some_iff.mp hbrace
          rw [List.tail_cons] at hdigits
          exact ⟨'u' :: '\x7b' :: (digits ++ ['\x7d']), by simp [hdigits], .codePoint hnumeral⟩
        · cases h
  · rintro ⟨piece, rfl, hpiece⟩
    generalize hwritten : '\\' :: piece = written at hpiece
    cases hpiece with
    | plain hc =>
      obtain ⟨rfl, -⟩ := List.cons.inj hwritten
      cases hc
    | mark hc =>
      cases hwritten
      simp only [escaped?, List.cons_append, List.nil_append, lookup_marks_eq_some_iff.mpr hc]
    | @codePoint digits _ hc =>
      cases hwritten
      have hmark : marks.lookup 'u' = none := rfl
      have hcode : codePoint? (digits ++ '\x7d' :: rest) = some (c, rest) :=
        codePoint?_eq_some_iff.mpr ⟨digits, rfl, hc⟩
      simpa [escaped?, hmark] using hcode

theorem char?_eq_some_iff {text rest : List Char} {c : Char} :
    char? text = some (c, rest) ↔ ∃ piece, text = piece ++ rest ∧ Spells piece c := by
  constructor
  · intro h
    unfold char? at h
    split at h
    · cases h
    · split at h
      · next hc =>
        cases h
        exact ⟨[c], rfl, .plain hc⟩
      · split at h
        · next hbackslash =>
          obtain ⟨piece, rfl, hpiece⟩ := escaped?_eq_some_iff.mp h
          exact ⟨'\\' :: piece, by rw [hbackslash, List.cons_append], hpiece⟩
        · cases h
  · rintro ⟨piece, rfl, hpiece⟩
    cases hpiece with
    | plain hc => simp only [List.cons_append, List.nil_append, char?, hc, ↓reduceIte]
    | mark hc => exact escaped?_eq_some_iff.mpr ⟨_, rfl, .mark hc⟩
    | codePoint hc => exact escaped?_eq_some_iff.mpr ⟨_, rfl, .codePoint hc⟩

theorem Spells.ne_nil {piece : List Char} {c : Char} (h : Spells piece c) : piece ≠ [] := by
  cases h with
  | plain | mark | codePoint => exact List.cons_ne_nil _ _

theorem length_of_char? {text rest : List Char} {c : Char} (h : char? text = some (c, rest)) :
    rest.length < text.length := by
  obtain ⟨piece, rfl, hpiece⟩ := char?_eq_some_iff.mp h
  have hpos := List.length_pos_iff.mpr hpiece.ne_nil
  rw [List.length_append]
  omega

def quoted? (text : List Char) : Option (List Char × List Char) :=
  if text.head? = some '"' then
    some ([], text.tail)
  else
    match h : char? text with
    | none => none
    | some (c, rest) =>
      have := length_of_char? h
      (quoted? rest).map (Prod.map (c :: ·) id)
termination_by text.length

def literal? (text : List Char) : Option (List Char × List Char) :=
  if text.head? = some '"' then quoted? text.tail else none

theorem Spells.head_ne {piece : List Char} {c : Char} (h : Spells piece c) (rest : List Char) :
    (piece ++ rest).head? ≠ some '"' := by
  cases h with
  | @plain c hc =>
    rintro ⟨⟩
    cases hc
  | mark | codePoint =>
    rintro ⟨⟩

theorem quoted?_of_char? {text rest : List Char} {c : Char} (hquote : text.head? ≠ some '"')
    (h : char? text = some (c, rest)) :
    quoted? text = (quoted? rest).map (Prod.map (c :: ·) id) := by
  rw [quoted?, if_neg hquote]
  split
  · next hnone =>
    rw [h] at hnone
    cases hnone
  · next hsome =>
    rw [h] at hsome
    cases hsome
    rfl

theorem quoted?_of_denotes {body value : List Char} (h : Denotes body value) (rest : List Char) :
    quoted? (body ++ '"' :: rest) = some (value, rest) := by
  induction h with
  | nil =>
    rw [quoted?]
    rfl
  | @cons piece body text c hc _ ih =>
    have hchar : char? (piece ++ (body ++ '"' :: rest)) = some (c, body ++ '"' :: rest) :=
      char?_eq_some_iff.mpr ⟨piece, rfl, hc⟩
    rw [List.append_assoc, quoted?_of_char? (hc.head_ne _) hchar, ih]
    rfl

theorem quoted?_eq_some_iff {text value rest : List Char} :
    quoted? text = some (value, rest) ↔ ∃ body, text = body ++ '"' :: rest ∧ Denotes body value := by
  constructor
  · intro h
    induction hn : text.length using Nat.strong_induction_on generalizing text value with
    | _ n ih =>
      by_cases hquote : text.head? = some '"'
      · obtain ⟨tail, rfl⟩ := List.head?_eq_some_iff.mp hquote
        rw [quoted?] at h
        cases h
        exact ⟨[], rfl, .nil⟩
      · rw [quoted?, if_neg hquote] at h
        split at h
        · cases h
        · next c after hchar =>
          obtain ⟨⟨value', rest'⟩, hread, hpair⟩ := Option.map_eq_some_iff.mp h
          cases hpair
          have hlt := length_of_char? hchar
          rw [hn] at hlt
          obtain ⟨body, rfl, hbody⟩ := ih _ hlt hread rfl
          obtain ⟨piece, rfl, hpiece⟩ := char?_eq_some_iff.mp hchar
          exact ⟨piece ++ body, (List.append_assoc _ _ _).symm, .cons hpiece hbody⟩
  · rintro ⟨body, rfl, hbody⟩
    exact quoted?_of_denotes hbody rest

theorem Denotes.unique {body value value' : List Char} (h : Denotes body value)
    (h' : Denotes body value') : value = value' := by
  have hread := quoted?_of_denotes h []
  rw [quoted?_of_denotes h' []] at hread
  cases hread
  rfl

end Reading

section Escape

theorem isLiteralChar_of_printable {c : Char} (hle : c ≤ '~') (hge : ' ' ≤ c)
    (hc : c ≠ '"' ∧ c ≠ '\\') : isLiteralChar c = true := by
  have hbeyond : c ∉ ['\x7f', '\u0085', '\u2028', '\u2029'] := by
    simp only [List.mem_cons, List.not_mem_nil, or_false]
    rintro (rfl | rfl | rfl | rfl)
    all_goals exact absurd hle (by decide)
  rw [isLiteralChar, List.contains_cons, List.contains_cons, beq_false_of_ne hc.1,
    beq_false_of_ne hc.2, Bool.false_or, Bool.false_or, List.contains_eq_mem]
  simp only [hge, hbeyond, decide_true, decide_false, Bool.not_false, Bool.and_self]

theorem spells_escapeChar (c : Char) : Spells (escapeChar c) c := by
  unfold escapeChar
  simp only [beq_iff_eq, Bool.or_eq_true, Bool.and_eq_true, decide_eq_true_eq]
  split_ifs with htab hreturn hline hquote hprintable
  · rw [htab]
    exact .mark (by decide)
  · rw [hreturn]
    exact .mark (by decide)
  · rw [hline]
    exact .mark (by decide)
  · rcases hquote with (rfl | rfl) | rfl
    all_goals exact .mark (by decide)
  · refine .plain (isLiteralChar_of_printable hprintable.2 hprintable.1 ?_)
    exact ⟨fun h => hquote (.inl (.inr h)), fun h => hquote (.inr h)⟩
  · exact .codePoint (Numeral.isNumeral_toDigits (by decide) (by decide) c.toNat)

theorem mem_escapeChar {c d : Char} (h : d ∈ escapeChar c) :
    d ∈ ['\\', 't', 'r', 'n', '\'', '"', 'u', '\x7b', '\x7d'] ∨ ' ' ≤ d ∧ d ≤ '~'
      ∨ d ∈ Nat.toDigits 16 c.toNat := by
  unfold escapeChar at h
  grind

theorem printable_of_mem_escape {s : String} {d : Char} (h : d ∈ (escape s).toList) :
    ' ' ≤ d ∧ d ≤ '~' := by
  rw [escape, String.toList_ofList, List.mem_flatMap] at h
  obtain ⟨c, -, h⟩ := h
  rcases mem_escapeChar h with hfixed | hprintable | hdigit
  · have hall : ∀ d ∈ ['\\', 't', 'r', 'n', '\'', '"', 'u', '\x7b', '\x7d'],
        decide (' ' ≤ d ∧ d ≤ '~') = true := List.all_eq_true.mp (by decide)
    exact of_decide_eq_true (hall d hfixed)
  · exact hprintable
  · have hnumeral := Numeral.isNumeral_toDigits (by decide : 1 < 16) (Nat.le_refl 16) c.toNat
    obtain ⟨_, hdigit⟩ := hnumeral.isDigit_of_mem d hdigit
    have hcases := hdigit.toNat_cases
    have hspace : ' '.toNat = 32 := rfl
    have htilde : '~'.toNat = 126 := rfl
    exact ⟨show ' '.toNat ≤ d.toNat by omega, show d.toNat ≤ '~'.toNat by omega⟩

theorem denotes_escape (s : String) : Denotes (escape s).toList s.toList := by
  rw [escape, String.toList_ofList]
  induction s.toList with
  | nil => exact .nil
  | cons c cs ih => exact .cons (spells_escapeChar c) ih

theorem escape_injective : Function.Injective escape := by
  intro s s' h
  have hs := denotes_escape s
  rw [h] at hs
  exact String.toList_inj.mp (hs.unique (denotes_escape s'))

end Escape

section Verbatim

theorem Spells.eq_or_exists {piece : List Char} {c : Char} (h : Spells piece c) :
    piece = [c] ∧ isLiteralChar c = true ∨ ∃ tail, tail ≠ [] ∧ piece = '\\' :: tail := by
  cases h with
  | plain hc => exact .inl ⟨rfl, hc⟩
  | mark | codePoint => exact .inr ⟨_, List.cons_ne_nil _ _, rfl⟩

theorem Spells.quote_notMem {piece : List Char} {c : Char} (h : Spells piece c) (hc : c ≠ '"') :
    '"' ∉ piece := by
  cases h with
  | plain hliteral =>
    rw [List.mem_singleton]
    exact Ne.symm hc
  | mark hmark =>
    simp only [marks, List.mem_cons, Prod.mk.injEq, List.not_mem_nil, or_false] at hmark
    rcases hmark with ⟨rfl, -⟩ | ⟨rfl, -⟩ | ⟨rfl, -⟩ | ⟨rfl, -⟩ | ⟨rfl, -⟩ | ⟨-, rfl⟩
    all_goals simp at hc ⊢
  | codePoint hnumeral => simp [(notMem_of_isNumeral hnumeral).2]

theorem exists_of_append_eq {piece body text rest rest' : List Char} (hpiece : '"' ∉ piece)
    (h : piece ++ body ++ '"' :: rest = text ++ '"' :: rest') :
    ∃ text', text = piece ++ text' ∧ body ++ '"' :: rest = text' ++ '"' :: rest' := by
  rw [List.append_assoc] at h
  rcases List.append_eq_append_iff.mp h with ⟨text', htext, hbody⟩ | ⟨more, hmore, hrest⟩
  · exact ⟨text', htext, hbody⟩
  · cases more with
    | nil => exact ⟨[], by simpa using hmore.symm, by simpa using hrest.symm⟩
    | cons c more =>
      obtain ⟨rfl, -⟩ := List.cons.inj hrest
      exact absurd (by simp [hmore]) hpiece

/--
No text is denoted by what stands behind a part of it, up to a quote. Each piece that is read adds
at least as much to what is still to be denoted as it takes away.
-/
theorem not_denotes_append {ahead body text rest rest' : List Char} (hne : ahead ≠ [])
    (hahead : '"' ∉ ahead) (heq : body ++ '"' :: rest = text ++ '"' :: rest') :
    ¬ Denotes body (ahead ++ text) := by
  intro h
  generalize hvalue : ahead ++ text = value at h
  induction h generalizing ahead text with
  | nil => exact hne (List.append_eq_nil_iff.mp hvalue).1
  | @cons piece body value c hc _ ih =>
    obtain ⟨d, ahead, rfl⟩ := List.exists_cons_of_ne_nil hne
    obtain ⟨rfl, htail⟩ : d = c ∧ ahead ++ text = value := by simpa using hvalue
    rw [List.mem_cons, not_or] at hahead
    have hquote := hc.quote_notMem (Ne.symm hahead.1)
    obtain ⟨text, rfl, hbehind⟩ := exists_of_append_eq hquote heq
    refine @ih (ahead ++ piece) text ?_ ?_ hbehind ?_
    · exact fun hnil => hc.ne_nil (List.append_eq_nil_iff.mp hnil).2
    · rw [List.mem_append, not_or]
      exact ⟨hahead.2, hquote⟩
    · rw [List.append_assoc, htail]

theorem Denotes.eq_of_append_eq {body text rest rest' : List Char} (h : Denotes body text)
    (heq : body ++ '"' :: rest = text ++ '"' :: rest') :
    (∀ c ∈ text, isLiteralChar c = true) ∧ rest = rest' := by
  induction h with
  | nil =>
    cases heq
    exact ⟨List.forall_mem_nil _, rfl⟩
  | @cons piece body text c hc hbody ih =>
    rcases hc.eq_or_exists with ⟨rfl, hliteral⟩ | ⟨tail, hne, rfl⟩
    · rw [List.append_assoc, List.cons_append, List.cons_append] at heq
      obtain ⟨hplain, hrest⟩ := ih (List.cons.inj heq).2
      exact ⟨List.forall_mem_cons.mpr ⟨hliteral, hplain⟩, hrest⟩
    · -- the first escape stands for the backslash that it begins with
      have hbackslash : c = '\\' := (List.cons.inj heq).1.symm
      have hquote := hc.quote_notMem (by rw [hbackslash]; decide)
      obtain ⟨text', htext, hbehind⟩ := exists_of_append_eq hquote heq
      obtain ⟨-, rfl⟩ := List.cons.inj htext
      rw [List.mem_cons, not_or] at hquote
      exact absurd hbody (not_denotes_append hne hquote.2 hbehind)

theorem denotes_self {text : List Char} (h : ∀ c ∈ text, isLiteralChar c = true) :
    Denotes text text := by
  induction text with
  | nil => exact .nil
  | cons c text ih =>
    obtain ⟨hc, htext⟩ := List.forall_mem_cons.mp h
    exact .cons (.plain hc) (ih htext)

theorem quoted?_verbatim_iff {text rest rest' : List Char} :
    quoted? (text ++ '"' :: rest) = some (text, rest') ↔
      (∀ c ∈ text, isLiteralChar c = true) ∧ rest' = rest := by
  rw [quoted?_eq_some_iff]
  constructor
  · rintro ⟨body, heq, hbody⟩
    exact hbody.eq_of_append_eq heq.symm
  · rintro ⟨htext, rfl⟩
    exact ⟨text, rfl, denotes_self htext⟩

end Verbatim
end Zig
end Waybind
