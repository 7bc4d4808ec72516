import Waybind.Proofs.Xml.Attribute

/-!
This module contains how written markup is cut into pieces. Whatever follows it, each comment,
instruction, section of character data, reference and tag is taken from the beginning of the input
as one piece. In particular nothing in it is taken for its end.
-/

namespace Waybind
namespace Xml
namespace Token

section UntilClose

variable {closes : List UInt8 → Bool} {bytes seen : List UInt8}

theorem untilClose_append
    (h : ∀ before after, bytes = before ++ '>'.toUInt8 :: after →
      closes (before.reverse ++ seen) = false) (rest : List UInt8) :
    untilClose closes seen (bytes ++ rest) = untilClose closes (bytes.reverse ++ seen) rest := by
  induction bytes generalizing seen with
  | nil => rfl
  | cons b bytes ih =>
    have hopen : (b == '>'.toUInt8 && closes seen) = false := by
      rw [Bool.and_eq_false_iff, beq_eq_false_iff_ne]
      by_cases hb : b = '>'.toUInt8
      · exact .inr (h [] bytes (by rw [hb]; rfl))
      · exact .inl hb
    rw [List.cons_append, untilClose, hopen, if_neg Bool.false_ne_true, ih, List.reverse_cons,
      List.append_assoc, List.singleton_append]
    intro before after hbytes
    have hcloses := h (b :: before) after (by rw [hbytes]; rfl)
    rwa [List.reverse_cons, List.append_assoc, List.singleton_append] at hcloses

theorem untilClose_append_of_notMem (h : '>'.toUInt8 ∉ bytes) (rest : List UInt8) :
    untilClose closes seen (bytes ++ rest) = untilClose closes (bytes.reverse ++ seen) rest := by
  apply untilClose_append
  intro before after hbytes
  refine absurd ?_ h
  rw [hbytes]
  exact List.mem_append_right _ List.mem_cons_self

theorem untilClose_of_closes (h : closes seen = true) (rest : List UInt8) :
    untilClose closes seen ('>'.toUInt8 :: rest) = some (seen.reverse, rest) := by
  rw [untilClose, h]
  rfl

theorem untilClose_eq {start content final : List UInt8} (hstart : '>'.toUInt8 ∉ start)
    (hfinal : '>'.toUInt8 ∉ final)
    (hopen : ∀ before after, content = before ++ '>'.toUInt8 :: after →
      closes (before.reverse ++ start.reverse) = false)
    (hclose : closes (final.reverse ++ (content.reverse ++ start.reverse)) = true)
    (rest : List UInt8) :
    untilClose closes [] (start ++ (content ++ (final ++ '>'.toUInt8 :: rest))) =
      some (start ++ (content ++ final), rest) := by
  have hend : untilClose closes (final.reverse ++ (content.reverse ++ start.reverse))
      ('>'.toUInt8 :: rest) = some (start ++ (content ++ final), rest) := by
    rw [untilClose_of_closes hclose]
    simp only [List.reverse_append, List.reverse_reverse, List.append_assoc]
  rw [untilClose_append_of_notMem hstart, List.append_nil, untilClose_append hopen,
    untilClose_append_of_notMem hfinal, hend]

theorem eq_append_pair_of_reverse_eq {before seen : List UInt8} {b b' : UInt8}
    (h : before.reverse = b :: b' :: seen) : before = seen.reverse ++ [b', b] := by
  rw [← List.reverse_reverse before, h, List.reverse_cons, List.reverse_cons, List.append_assoc]
  rfl

end UntilClose

open Written (Comment Instruction Name Quote Reference Space Tag)

section Pieces

theorem isPrefixOf_append (start rest : List UInt8) : start.isPrefixOf (start ++ rest) = true :=
  List.isPrefixOf_iff_prefix.mpr (List.prefix_append start rest)

theorem closesComment_eq_false (note : Comment) {before after : List UInt8}
    (h : note.content = before ++ '>'.toUInt8 :: after) :
    closesComment (before.reverse ++ (Utf8.encode "!--").reverse) = false := by
  rw [Bool.eq_false_iff]
  intro hcloses
  -- the dashes of the beginning are too few, so that those before the `>` are in the content
  obtain ⟨seen, hbefore⟩ : ∃ seen, before.reverse = '-'.toUInt8 :: '-'.toUInt8 :: seen := by
    rcases hbefore : before.reverse with _ | ⟨b, _ | ⟨b', seen⟩⟩
    · rw [hbefore] at hcloses
      cases hcloses
    · rw [hbefore] at hcloses
      cases hcloses
    · rw [hbefore] at hcloses
      unfold closesComment at hcloses
      split at hcloses
      · next heq =>
        obtain ⟨hb, htail⟩ := List.cons.inj heq
        obtain ⟨hb', -⟩ := List.cons.inj htail
        rw [Bool.and_eq_true, beq_iff_eq, beq_iff_eq] at hcloses
        exact ⟨seen, by rw [hb, hb', hcloses.1, hcloses.2]⟩
      · cases hcloses
  apply note.open_end
  rw [h, eq_append_pair_of_reverse_eq hbefore]
  exact ⟨seen.reverse, after, by simp; rfl⟩

theorem next_comment (note : Comment) (rest : List UInt8) :
    next (note.bytes ++ rest) = .ok (some (.skipped, rest)) := by
  have hbytes : note.bytes ++ rest = '<'.toUInt8 ::
      (Utf8.encode "!--" ++ (note.content ++ (Utf8.encode "--" ++ '>'.toUInt8 :: rest))) := by
    rw [Comment.bytes, List.append_assoc, List.append_assoc]
    rfl
  have huntil : untilClose closesComment []
      (Utf8.encode "!--" ++ (note.content ++ (Utf8.encode "--" ++ '>'.toUInt8 :: rest))) =
        some (Utf8.encode "!--" ++ (note.content ++ Utf8.encode "--"), rest) := by
    refine untilClose_eq (by decide) (by decide) ?_ ?_ rest
    · intro before after
      exact closesComment_eq_false note
    · rcases note.content.reverse with _ | ⟨_, _ | ⟨_, _ | ⟨_, _⟩⟩⟩
      all_goals rfl
  rw [hbytes]
  change some <$> comment _ = _
  rw [comment, huntil]
  simp only [isPrefixOf_append, ↓reduceIte]
  rfl

theorem closesInstruction_eq_false (instr : Instruction) {before after : List UInt8}
    (h : instr.content = before ++ '>'.toUInt8 :: after) :
    closesInstruction (before.reverse ++ (Utf8.encode "?").reverse) = false := by
  rw [Bool.eq_false_iff]
  intro hcloses
  cases hbefore : before.reverse with
  | nil =>
    rw [List.reverse_eq_nil_iff] at hbefore
    rw [hbefore] at h
    exact instr.head '>'.toUInt8 (by rw [h]; rfl) rfl
  | cons b seen =>
    rw [hbefore] at hcloses
    have hb : b = '?'.toUInt8 := beq_iff_eq.mp hcloses
    have heq : before = seen.reverse ++ ['?'.toUInt8] := by
      rw [← List.reverse_reverse before, hbefore, List.reverse_cons, hb]
    apply instr.open_end
    rw [h, heq]
    exact ⟨seen.reverse, after, by simp; rfl⟩

theorem next_instruction (instr : Instruction) (rest : List UInt8) :
    next (instr.bytes ++ rest) = .ok (some (.skipped, rest)) := by
  have hbytes : instr.bytes ++ rest = '<'.toUInt8 ::
      (Utf8.encode "?" ++ (instr.content ++ (Utf8.encode "?" ++ '>'.toUInt8 :: rest))) := by
    rw [Instruction.bytes, List.append_assoc, List.append_assoc]
    rfl
  have huntil : untilClose closesInstruction []
      (Utf8.encode "?" ++ (instr.content ++ (Utf8.encode "?" ++ '>'.toUInt8 :: rest))) =
        some (Utf8.encode "?" ++ (instr.content ++ Utf8.encode "?"), rest) := by
    refine untilClose_eq (by decide) (by decide) ?_ rfl rest
    intro before after
    exact closesInstruction_eq_false instr
  rw [hbytes]
  change some <$> instruction _ = _
  rw [instruction, huntil]
  have hlength : 2 ≤ (Utf8.encode "?" ++ (instr.content ++ Utf8.encode "?")).length := by
    have hone : (Utf8.encode "?").length = 1 := rfl
    rw [List.length_append, List.length_append, hone]
    omega
  simp only [hlength, ↓reduceIte]
  rfl

theorem closesCData_eq_false {text : List Char} (hopen : ¬ "]]>".toList <:+: text)
    {before after : List UInt8} (h : Utf8.encodeChars text = before ++ '>'.toUInt8 :: after) :
    closesCData (before.reverse ++ (Utf8.encode "![CDATA[").reverse) = false := by
  rw [Bool.eq_false_iff]
  intro hcloses
  rcases hbefore : before.reverse with _ | ⟨b, _ | ⟨b', seen⟩⟩
  · rw [hbefore] at hcloses
    cases hcloses
  · rw [hbefore] at hcloses
    exact absurd (Bool.and_eq_true _ _ ▸ hcloses : _ ∧ _).2 (by decide)
  · rw [hbefore] at hcloses
    have hboth : (b == ']'.toUInt8 && b' == ']'.toUInt8) = true := hcloses
    rw [Bool.and_eq_true, beq_iff_eq, beq_iff_eq] at hboth
    rw [eq_append_pair_of_reverse_eq hbefore, hboth.1, hboth.2, List.append_assoc] at h
    -- the brackets are characters of the text, as their bytes are
    obtain ⟨text₁, text₂, rfl, -, htext₂⟩ :=
      Utf8.exists_of_encodeChars_eq_append_cons (by decide) h
    obtain ⟨text₃, rfl, htext₃⟩ := Utf8.exists_of_encodeChars_eq_cons (by decide) htext₂
    obtain ⟨text₄, rfl, -⟩ := Utf8.exists_of_encodeChars_eq_cons (by decide) htext₃
    exact hopen ⟨text₁, text₄, by rw [List.append_assoc]; rfl⟩

theorem next_cdata {text : List Char} (hopen : ¬ "]]>".toList <:+: text) (rest : List UInt8) :
    next (Utf8.encode "<![CDATA[" ++ Utf8.encodeChars text ++ Utf8.encode "]]>" ++ rest) =
      .ok (some (.cdata (Utf8.encodeChars text), rest)) := by
  have hbytes : Utf8.encode "<![CDATA[" ++ Utf8.encodeChars text ++ Utf8.encode "]]>" ++ rest =
      '<'.toUInt8 :: (Utf8.encode "![CDATA[" ++ (Utf8.encodeChars text ++
        (Utf8.encode "]]" ++ '>'.toUInt8 :: rest))) := by
    rw [List.append_assoc, List.append_assoc]
    rfl
  have huntil : untilClose closesCData [] (Utf8.encode "![CDATA[" ++ (Utf8.encodeChars text ++
      (Utf8.encode "]]" ++ '>'.toUInt8 :: rest))) =
        some (Utf8.encode "![CDATA[" ++ (Utf8.encodeChars text ++ Utf8.encode "]]"), rest) := by
    refine untilClose_eq (by decide) (by decide) ?_ rfl rest
    intro before after
    exact closesCData_eq_false hopen
  have hcontent : ((Utf8.encode "![CDATA[" ++
      (Utf8.encodeChars text ++ Utf8.encode "]]")).drop 8).dropLast.dropLast =
        Utf8.encodeChars text := by
    have hlength : (Utf8.encode "![CDATA[").length = 8 := rfl
    have hend : Utf8.encode "]]" = [']'.toUInt8] ++ [']'.toUInt8] := rfl
    rw [← hlength, List.drop_left, hend, ← List.append_assoc, List.dropLast_concat,
      List.dropLast_concat]
  rw [hbytes]
  change some <$> cdataSection _ = _
  rw [cdataSection, huntil]
  simp only [isPrefixOf_append, ↓reduceIte, hcontent]
  rfl

end Pieces

section References

theorem next_reference (ref : Reference) (rest : List UInt8) :
    next (Utf8.encodeChars ref.chars ++ rest) =
      .ok (some (.reference (Utf8.encodeChars ref.name), rest)) := by
  have hbytes : Utf8.encodeChars ref.chars ++ rest =
      '&'.toUInt8 :: (Utf8.encodeChars ref.name ++ ';'.toUInt8 :: rest) := by
    rw [Reference.chars, List.cons_append, Utf8.encodeChars_cons, Utf8.encodeChars_append,
      List.append_assoc, List.append_assoc]
    rfl
  have hname : ∀ b ∈ Utf8.encodeChars ref.name, isReferenceByte b = true := by
    intro b hb
    have hne : ∀ c ∈ [';', '&', '<'], b ≠ c.toUInt8 := by
      have hcodes : ∀ c ∈ [';', '&', '<'], c.toNat < 128 ∧ ¬ (c.toNat = 35
          ∨ 48 ≤ c.toNat ∧ c.toNat ≤ 57 ∨ 65 ≤ c.toNat ∧ c.toNat ≤ 90
          ∨ 97 ≤ c.toNat ∧ c.toNat ≤ 122) := by
        simp
      rintro c hc rfl
      have hmem := (Utf8.mem_encodeChars_iff (hcodes c hc).1 _).mp hb
      exact (hcodes c hc).2 (Reference.toNat_of_mem_name hmem)
    simp only [List.forall_mem_cons] at hne
    simp only [isReferenceByte, Bool.and_eq_true, bne_iff_ne]
    exact ⟨⟨hne.1, hne.2.1⟩, hne.2.2.1⟩
  have hend : ∀ b ∈ (';'.toUInt8 :: rest).head?, isReferenceByte b = false := by
    rintro _ ⟨⟩
    rfl
  obtain ⟨htake, hdrop⟩ := span_append hname hend
  rw [hbytes]
  change some <$> textReference _ = _
  rw [textReference, hdrop, htake]
  rfl

end References

section Tags

theorem ne_of_isSpace {b c : UInt8} (hb : isSpace b = true) (hc : isSpace c = false) : b ≠ c := by
  rintro rfl
  rw [hb] at hc
  cases hc

/--
Bytes inside of a tag that do not end it. No quote is open before or after them.
-/
def Passed (bytes : List UInt8) : Prop :=
  ∀ seen rest,
    untilTagEnd none seen (bytes ++ rest) = untilTagEnd none (bytes.reverse ++ seen) rest

namespace Passed

variable {bytes bytes' : List UInt8}

theorem nil : Passed [] :=
  fun _ _ => rfl

theorem append (h : Passed bytes) (h' : Passed bytes') : Passed (bytes ++ bytes') := by
  intro seen rest
  rw [List.append_assoc, h, h', List.reverse_append, List.append_assoc]

theorem flatMap {α : Type} {xs : List α} {f : α → List UInt8} (h : ∀ x ∈ xs, Passed (f x)) :
    Passed (xs.flatMap f) := by
  induction xs with
  | nil => exact nil
  | cons x xs ih =>
    rw [List.forall_mem_cons] at h
    rw [List.flatMap_cons]
    exact h.1.append (ih h.2)

theorem of_plain (h : ∀ b ∈ bytes, b ≠ '>'.toUInt8 ∧ b ≠ '"'.toUInt8 ∧ b ≠ '\''.toUInt8) :
    Passed bytes := by
  induction bytes with
  | nil => exact nil
  | cons b bytes ih =>
    intro seen rest
    rw [List.forall_mem_cons] at h
    obtain ⟨⟨hend, hdouble, hsingle⟩, hbytes⟩ := h
    rw [List.cons_append, untilTagEnd, if_neg, if_neg, ih hbytes, List.reverse_cons,
      List.append_assoc, List.singleton_append]
    · rw [Bool.or_eq_true, beq_iff_eq, beq_iff_eq, not_or]
      exact ⟨hdouble, hsingle⟩
    · rwa [beq_iff_eq]

theorem untilTagEnd_some {q : UInt8} {value : List UInt8} (h : q ∉ value)
    (seen rest : List UInt8) :
    untilTagEnd (some q) seen (value ++ q :: rest) =
      untilTagEnd none (q :: (value.reverse ++ seen)) rest := by
  induction value generalizing seen with
  | nil =>
    rw [List.nil_append, untilTagEnd, if_pos (beq_self_eq_true q)]
    rfl
  | cons b value ih =>
    rw [List.mem_cons, not_or] at h
    rw [List.cons_append, untilTagEnd, if_neg, ih h.2, List.reverse_cons, List.append_assoc,
      List.singleton_append]
    rw [beq_iff_eq]
    exact Ne.symm h.1

theorem quoted (quote : Quote) {value : List UInt8} (h : quote.char.toUInt8 ∉ value) :
    Passed (quote.char.toUInt8 :: (value ++ [quote.char.toUInt8])) := by
  have hopen : (quote.char.toUInt8 == '>'.toUInt8) = false := by
    cases quote with
    | single | double => decide
  intro seen rest
  rw [List.cons_append, List.append_assoc, untilTagEnd, hopen, if_neg Bool.false_ne_true,
    if_pos quote.isQuote, List.singleton_append, untilTagEnd_some h]
  simp only [List.reverse_cons, List.reverse_append, List.append_assoc]
  rfl

theorem name_bytes (name : Name) : Passed name.bytes := by
  have hne {c : Char} (hc : c ∈ Written.delimiters) {b : UInt8} (hb : b ∈ name.bytes) :
      b ≠ c.toUInt8 := by
    rintro rfl
    exact name.delimiter_notMem_bytes hc hb
  apply of_plain
  intro b hb
  exact ⟨hne (by decide) hb, hne (by decide) hb, hne (by decide) hb⟩

theorem space_bytes (space : Space) : Passed space.bytes := by
  apply of_plain
  intro b hb
  have hspace := space.isSpace b hb
  exact ⟨ne_of_isSpace hspace rfl, ne_of_isSpace hspace rfl, ne_of_isSpace hspace rfl⟩

theorem attribute_bytes (attr : Written.Attribute) : Passed attr.bytes := by
  have hequals : Passed ['='.toUInt8] := of_plain (List.forall_mem_singleton.mpr (by decide))
  apply (space_bytes attr.before).append
  apply (name_bytes attr.name).append
  apply (space_bytes attr.beforeEquals).append
  apply hequals.append
  apply (space_bytes attr.afterEquals).append
  exact quoted attr.quote attr.quote_notMem_valueBytes

theorem tag_bytes (tag : Tag) : Passed tag.bytes := by
  apply (name_bytes tag.name).append
  apply append _ (space_bytes tag.after)
  exact flatMap fun attr _ => attribute_bytes attr

theorem untilTagEnd_eq (h : Passed bytes) (rest : List UInt8) :
    untilTagEnd none [] (bytes ++ '>'.toUInt8 :: rest) = some (bytes, rest) := by
  rw [h, List.append_nil, untilTagEnd, if_pos (beq_self_eq_true _), List.reverse_reverse]

end Passed

theorem markup_name (name : Name) (rest : List UInt8) :
    markup (name.bytes ++ rest) = startTag (name.bytes ++ rest) := by
  obtain ⟨b, bytes, hbytes⟩ := List.exists_cons_of_ne_nil name.bytes_ne_nil
  have hfirst : ∀ c ∈ ['!', '?'], b ≠ c.toUInt8 := by
    have hcodes : ∀ c ∈ ['!', '?'],
        c.toUInt8.toNat < 128 ∧ Char.ofNat c.toUInt8.toNat = c := by
      rw [List.forall_mem_cons, List.forall_mem_singleton]
      decide
    rintro c hc rfl
    obtain ⟨cs, hchars, -⟩ := Utf8.exists_of_encodeChars_eq_cons (hcodes c hc).1 hbytes
    have hhead := name.head c (by rw [hchars, (hcodes c hc).2]; rfl)
    simp only [List.mem_cons, List.not_mem_nil, or_false] at hc
    rcases hc with rfl | rfl
    · exact hhead.1 rfl
    · exact hhead.2 rfl
  have hslash : b ≠ '/'.toUInt8 := by
    rintro rfl
    refine name.delimiter_notMem_bytes (by decide : '/' ∈ Written.delimiters) ?_
    rw [hbytes]
    exact List.mem_cons_self
  simp only [List.forall_mem_cons] at hfirst
  rw [hbytes, List.cons_append, markup, if_neg, if_neg, if_neg]
  · rwa [beq_iff_eq]
  · rw [beq_iff_eq]
    exact hfirst.2.1
  · rw [beq_iff_eq]
    exact hfirst.1

theorem getLast?_tag_bytes (tag : Tag) : tag.bytes.getLast? ≠ some '/'.toUInt8 := by
  have happend {bytes bytes' : List UInt8} (h : bytes.getLast? ≠ some '/'.toUInt8)
      (h' : bytes'.getLast? ≠ some '/'.toUInt8) :
      (bytes ++ bytes').getLast? ≠ some '/'.toUInt8 := by
    rw [List.getLast?_append]
    cases hlast : bytes'.getLast? with
    | none => exact h
    | some b =>
      rw [hlast] at h'
      exact h'
  have hname : tag.name.bytes.getLast? ≠ some '/'.toUInt8 := fun hlast =>
    tag.name.delimiter_notMem_bytes (by decide : '/' ∈ Written.delimiters)
      (List.mem_of_getLast? hlast)
  have hattributes (attrs : List Written.Attribute) :
      (attrs.flatMap Written.Attribute.bytes).getLast? ≠ some '/'.toUInt8 := by
    induction attrs with
    | nil => exact nofun
    | cons attr attrs ih =>
      have hlast : attr.bytes.getLast? = some attr.quote.char.toUInt8 := by
        simp [Written.Attribute.bytes, List.getLast?_cons]
      refine happend ?_ ih
      rw [hlast]
      cases attr.quote with
      | single | double => decide
  have hafter : tag.after.bytes.getLast? ≠ some '/'.toUInt8 := fun hlast =>
    ne_of_isSpace (tag.after.isSpace _ (List.mem_of_getLast? hlast)) rfl rfl
  exact happend hname (happend (hattributes tag.attributes) hafter)

theorem next_tag (tag : Tag) (rest : List UInt8) :
    next (Utf8.encode "<" ++ tag.bytes ++ Utf8.encode ">" ++ rest) =
      .ok (some (.opening tag.bytes false, rest)) := by
  have hstart : startTag (tag.bytes ++ '>'.toUInt8 :: rest) =
      .ok (.opening tag.bytes false, rest) := by
    rw [startTag, (Passed.tag_bytes tag).untilTagEnd_eq]
    simp only [beq_iff_eq, getLast?_tag_bytes, ↓reduceIte]
  rw [List.append_assoc, List.append_assoc]
  change some <$> markup (tag.bytes ++ '>'.toUInt8 :: rest) = _
  rw [Tag.bytes, List.append_assoc, markup_name, ← List.append_assoc]
  exact congrArg (some <$> ·) hstart

theorem next_emptyTag (tag : Tag) (rest : List UInt8) :
    next (Utf8.encode "<" ++ tag.bytes ++ Utf8.encode "/>" ++ rest) =
      .ok (some (.opening tag.bytes true, rest)) := by
  have hpassed : Passed (tag.bytes ++ ['/'.toUInt8]) :=
    (Passed.tag_bytes tag).append (.of_plain (List.forall_mem_singleton.mpr (by decide)))
  have hstart : startTag (tag.bytes ++ ['/'.toUInt8] ++ '>'.toUInt8 :: rest) =
      .ok (.opening tag.bytes true, rest) := by
    rw [startTag, hpassed.untilTagEnd_eq]
    simp only [List.getLast?_concat, beq_self_eq_true, List.dropLast_concat, ↓reduceIte]
  have hbytes : Utf8.encode "<" ++ tag.bytes ++ Utf8.encode "/>" ++ rest =
      '<'.toUInt8 :: (tag.bytes ++ ['/'.toUInt8] ++ '>'.toUInt8 :: rest) := by
    rw [List.append_assoc, List.append_assoc, List.append_assoc]
    rfl
  rw [hbytes]
  change some <$> markup _ = _
  rw [Tag.bytes, List.append_assoc, List.append_assoc, markup_name, ← List.append_assoc,
    ← List.append_assoc]
  exact congrArg (some <$> ·) hstart

theorem closingName_append (name : Name) (gap : Space) :
    closingName (name.bytes ++ gap.bytes) = name.bytes := by
  have hgap : ∀ b ∈ gap.bytes.reverse, isSpace b = true := by
    intro b hb
    exact gap.isSpace b (List.mem_reverse.mp hb)
  have hname : ∀ b ∈ name.bytes.reverse.head?, isSpace b = false := by
    intro b hb
    exact name.isSpace_eq_false b (List.mem_reverse.mp (List.mem_of_mem_head? hb))
  rw [closingName, List.reverse_append, (span_append hgap hname).2]
  split
  · next heq => exact absurd (List.reverse_eq_nil_iff.mp heq) name.bytes_ne_nil
  · exact List.reverse_reverse _

theorem next_endTag (name : Name) (gap : Space) (rest : List UInt8) :
    next (Utf8.encode "</" ++ name.bytes ++ gap.bytes ++ Utf8.encode ">" ++ rest) =
      .ok (some (.closing name.bytes, rest)) := by
  have hpassed : Passed (name.bytes ++ gap.bytes) :=
    (Passed.name_bytes name).append (Passed.space_bytes gap)
  have hbytes : Utf8.encode "</" ++ name.bytes ++ gap.bytes ++ Utf8.encode ">" ++ rest =
      '<'.toUInt8 :: '/'.toUInt8 :: (name.bytes ++ gap.bytes ++ '>'.toUInt8 :: rest) := by
    simp only [List.append_assoc]
    rfl
  rw [hbytes]
  change some <$> endTag _ = _
  rw [endTag, hpassed.untilTagEnd_eq]
  simp only [closingName_append]
  rfl

end Tags
end Token
end Xml
end Waybind
