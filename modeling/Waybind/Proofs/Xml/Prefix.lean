import Waybind.Proofs.Xml.Document

/-!
This module contains that a document is decided by the bytes up to the end of its root. No piece
but text depends on what follows it, and text at the end of the input is not enough for a tree.
-/

namespace Waybind
namespace Xml
namespace Token

section Scanners

def Stable (scan : List UInt8 → Option (List UInt8 × List UInt8)) : Prop :=
  ∀ {input content rest : List UInt8}, scan input = some (content, rest) →
    ∀ more, scan (input ++ more) = some (content, rest ++ more)

theorem stable_untilClose (closes : List UInt8 → Bool) (seen : List UInt8) :
    Stable (untilClose closes seen) := by
  intro input content rest h more
  induction input generalizing seen with
  | nil => cases h
  | cons b input ih =>
    rw [List.cons_append]
    rw [untilClose] at h ⊢
    split at h
    · next hclose =>
      cases h
      rw [if_pos hclose]
    · next hopen =>
      rw [if_neg hopen]
      exact ih _ h

theorem stable_untilTagEnd (quote : Option UInt8) (seen : List UInt8) :
    Stable (untilTagEnd quote seen) := by
  intro input content rest h more
  induction input generalizing quote seen with
  | nil => cases h
  | cons b input ih =>
    rw [List.cons_append]
    cases quote with
    | some q =>
      rw [untilTagEnd] at h ⊢
      exact ih _ _ h
    | none =>
      rw [untilTagEnd] at h ⊢
      split at h
      · next hend =>
        cases h
        rw [if_pos hend]
      · next hinside =>
        rw [if_neg hinside]
        split at h
        · next hquote =>
          rw [if_pos hquote]
          exact ih _ _ h
        · next hplain =>
          rw [if_neg hplain]
          exact ih _ _ h

theorem stable_untilBalanced (depth : Nat) (seen : List UInt8) :
    Stable (untilBalanced depth seen) := by
  intro input content rest h more
  induction input generalizing depth seen with
  | nil => cases h
  | cons b input ih =>
    rw [List.cons_append]
    rw [untilBalanced.eq_def] at h ⊢
    simp only at h ⊢
    split at h
    · next hclose =>
      rw [if_pos hclose]
      cases depth with
      | zero =>
        cases h
        rfl
      | succ depth => exact ih _ _ h
    · next hother =>
      rw [if_neg hother]
      split at h
      · next hopen =>
        rw [if_pos hopen]
        exact ih _ _ h
      · next hplain =>
        rw [if_neg hplain]
        exact ih _ _ h

end Scanners

section Pieces

def Settled (read : List UInt8 → Except Error (Token × List UInt8)) : Prop :=
  ∀ {input rest : List UInt8} {token : Token}, read input = .ok (token, rest) →
    ∀ more, read (input ++ more) = .ok (token, rest ++ more)

theorem settled_of_untilClose (closes : List UInt8 → Bool) (starts : List UInt8 → Prop)
    [DecidablePred starts] (piece : List UInt8 → Token) (fault : Error)
    {read : List UInt8 → Except Error (Token × List UInt8)}
    (hread : ∀ input, read input = (untilClose closes [] input).elim (.error fault) fun found =>
      if starts found.1 then .ok (piece found.1, found.2) else .error fault) : Settled read := by
  intro input rest token h more
  rw [hread] at h ⊢
  cases hscan : untilClose closes [] input with
  | none =>
    rw [hscan] at h
    cases h
  | some found =>
    rw [hscan, Option.elim_some] at h
    rw [stable_untilClose _ _ hscan, Option.elim_some]
    split at h
    · next hstart =>
      cases h
      exact if_pos hstart
    · cases h

theorem settled_cdataSection : Settled cdataSection := by
  apply settled_of_untilClose closesCData ((Utf8.encode "![CDATA[").isPrefixOf ·)
    (fun content => .cdata (content.drop 8).dropLast.dropLast) (.markup .unclosedCData)
  intro input
  rw [cdataSection]
  cases untilClose closesCData [] input with
  | none | some => rfl

theorem settled_comment : Settled comment := by
  apply settled_of_untilClose closesComment ((Utf8.encode "!--").isPrefixOf ·)
    (fun _ => .skipped) (.markup .unclosedComment)
  intro input
  rw [comment]
  cases untilClose closesComment [] input with
  | none | some => rfl

theorem settled_instruction : Settled instruction := by
  apply settled_of_untilClose closesInstruction (2 ≤ ·.length) (fun _ => .skipped)
    (.markup .unclosedInstruction)
  intro input
  rw [instruction]
  cases untilClose closesInstruction [] input with
  | none | some => rfl

theorem settled_doctype : Settled doctype := by
  intro input rest token h more
  unfold doctype at h ⊢
  split at h
  · next content _ hscan =>
    rw [stable_untilBalanced _ _ hscan]
    split at h
    · next hstart =>
      split at h
      · cases h
      · next hname =>
        cases h
        simp only [hstart, hname, ↓reduceIte]
        rfl
    · cases h
  · cases h

theorem settled_bang : Settled bang := by
  intro input rest token h more
  unfold bang at h ⊢
  split at h
  · next first b after =>
    simp only [List.cons_append]
    split at h
    · next hb =>
      rw [if_pos hb]
      exact settled_cdataSection h more
    · next hb =>
      rw [if_neg hb]
      split at h
      · next hdash =>
        rw [if_pos hdash]
        exact settled_comment h more
      · next hdash =>
        rw [if_neg hdash]
        split at h
        · next hletter =>
          rw [if_pos hletter]
          exact settled_doctype h more
        · cases h
  · cases h

theorem settled_endTag : Settled endTag := by
  intro input rest token h more
  unfold endTag at h ⊢
  split at h
  · next hscan =>
    cases h
    rw [stable_untilTagEnd _ _ hscan]
  · cases h

theorem settled_startTag : Settled startTag := by
  intro input rest token h more
  unfold startTag at h ⊢
  split at h
  · next hscan =>
    rw [stable_untilTagEnd _ _ hscan]
    split at h
    · next hslash =>
      cases h
      exact if_pos hslash
    · next hslash =>
      cases h
      exact if_neg hslash
  · cases h

theorem settled_markup : Settled markup := by
  intro input rest token h more
  cases input with
  | nil => cases h
  | cons b input =>
    rw [markup] at h
    rw [List.cons_append, markup]
    split at h
    · next hbang =>
      rw [if_pos hbang]
      exact settled_bang h more
    · next hbang =>
      rw [if_neg hbang]
      split at h
      · next hquestion =>
        rw [if_pos hquestion]
        exact settled_instruction h more
      · next hquestion =>
        rw [if_neg hquestion]
        split at h
        · next hslash =>
          rw [if_pos hslash]
          exact settled_endTag h more
        · next hslash =>
          rw [if_neg hslash]
          exact settled_startTag h more

theorem settled_textReference : Settled textReference := by
  intro input rest token h more
  unfold textReference at h
  split at h
  · cases h
  · next b after hdrop =>
    have hname : ∀ c ∈ input.takeWhile isReferenceByte, isReferenceByte c = true :=
      fun c hc => List.mem_takeWhile_imp hc
    have hend : isReferenceByte b = false := by
      have hhead := List.head?_dropWhile_not isReferenceByte input
      rw [hdrop] at hhead
      simpa using hhead
    have hinput : input ++ more = input.takeWhile isReferenceByte ++ b :: (after ++ more) := by
      rw [← List.cons_append, ← hdrop, ← List.append_assoc, List.takeWhile_append_dropWhile]
    have hhead : ∀ c ∈ (b :: (after ++ more)).head?, isReferenceByte c = false := by
      rintro _ ⟨⟩
      exact hend
    have hspan := span_append hname hhead
    split at h
    · next hsemicolon =>
      cases h
      rw [textReference, hinput, hspan.1, hspan.2]
      exact if_pos hsemicolon
    · cases h

theorem next_append {input rest : List UInt8} {token : Token}
    (h : next input = .ok (some (token, rest))) :
    (∃ bytes, token = .text bytes ∧ input = bytes ++ rest ∧ ∀ b ∈ bytes, isTextByte b = true)
      ∨ ∀ more, next (input ++ more) = .ok (some (token, rest ++ more)) := by
  cases input with
  | nil => cases h
  | cons b input =>
    rw [next] at h
    split at h
    · next hmarkup =>
      obtain ⟨_, hread, ⟨⟩⟩ := (Except.map_eq_ok_iff _ _ _).mp h
      right
      intro more
      rw [List.cons_append, next, if_pos hmarkup, settled_markup hread]
      rfl
    · next hmarkup =>
      split at h
      · next hreference =>
        obtain ⟨_, hread, ⟨⟩⟩ := (Except.map_eq_ok_iff _ _ _).mp h
        right
        intro more
        rw [List.cons_append, next, if_neg hmarkup, if_pos hreference, settled_textReference hread]
        rfl
      · next hreference =>
        -- more text may follow, so that this token is not settled
        cases h
        left
        refine ⟨_, rfl, ?_, ?_⟩
        · rw [List.cons_append, List.takeWhile_append_dropWhile]
        · rw [List.forall_mem_cons]
          refine ⟨?_, fun c hc => List.mem_takeWhile_imp hc⟩
          rw [beq_iff_eq] at hmarkup hreference
          rw [isTextByte, Bool.and_eq_true, bne_iff_ne, bne_iff_ne]
          exact ⟨hmarkup, hreference⟩

end Pieces
end Token

namespace Progress

theorem read_append {progress : Progress} {input : List UInt8} {root : Element}
    (h : read progress input = .ok root) (more : List UInt8) :
    read progress (input ++ more) = .ok root := by
  fun_induction read progress input with
  | case1 => rwa [read_finished]
  | case2 => cases h
  | case3 input progress hunfinished =>
    -- the input may end only after the root
    cases progress with
    | prolog | inside => cases h
    | finished root => exact absurd rfl (hunfinished root)
  | case4 => cases h
  | case5 input progress _ token rest hnext _ progress' hstep ih =>
    rw [← ih h]
    rcases Token.next_append hnext with ⟨bytes, rfl, rfl, hbytes⟩ | hmore
    · -- a text may be continued by what follows, but it does not matter where it is cut
      have haddText : progress.addText bytes = progress' := by
        cases progress with
        | prolog | inside | finished => exact Except.ok.inj hstep
      rw [List.append_assoc, read_text hbytes, haddText]
    · exact read_of_next (hmore more) hstep

end Progress

theorem parse_stable_under_extension (document : List UInt8) :
    (∀ root, parse document = .ok root → ∀ more, parse (document ++ more) = .ok root)
      ∧ ∀ start, start <+: document → (∃ error, parse start = .error error)
        ∨ ∃ root, parse start = .ok root ∧ parse document = .ok root := by
  have happend {start : List UInt8} {root : Element} (h : parse start = .ok root)
      (more : List UInt8) : parse (start ++ more) = .ok root := by
    rw [Progress.parse_eq_read] at h ⊢
    exact Progress.read_append h more
  refine ⟨fun root h => happend h, ?_⟩
  rintro start ⟨more, rfl⟩
  cases h : parse start with
  | error error => exact .inl ⟨error, rfl⟩
  | ok root => exact .inr ⟨root, rfl, happend h more⟩

theorem parse_stable_note :
    ∃ root, root.text = "x" ∧ parse (Utf8.encode "<a>x</a>") = .ok root
      ∧ parse (Utf8.encode "<a>x</a>" ++ Utf8.encode "&<b") = .ok root
      ∧ ∃ error, parse (Utf8.encode "<a>x") = .error error := by
  have htext : (parse (Utf8.encode "<a>x</a>")).toOption.map (·.text) = some "x" := by
    decide +kernel
  have hcut : (parse (Utf8.encode "<a>x")).toOption.isNone = true := by decide +kernel
  obtain ⟨root, hroot, htext⟩ := Option.map_eq_some_iff.mp htext
  rw [Except.toOption_eq_some_iff] at hroot
  obtain ⟨hmore, hprefix⟩ := parse_stable_under_extension (Utf8.encode "<a>x</a>")
  refine ⟨root, htext, hroot, hmore root hroot _, ?_⟩
  rcases hprefix (Utf8.encode "<a>x") (by decide) with herror | ⟨root', hroot', -⟩
  · exact herror
  · rw [hroot'] at hcut
    cases hcut

end Xml
end Waybind
