import Mathlib.Data.List.Chain
import Waybind.Proofs.Text
import Waybind.Zig.Node

/-!
This module contains what the code of a text is: what is left when its comments are deleted, and
then all white space. Pieces of text of which the code is known wherever they stand can be put
together.
-/

namespace Waybind
namespace Zig

/--
A text without its comments, each of which goes from `//` up to the end of its line.
-/
def withoutComments (text : List Char) : List Char :=
  go false text
where
  go (inside : Bool) (text : List Char) : List Char :=
    match text with
    | [] => []
    | c :: text =>
      if inside then
        if c == '\n' then c :: go false text else go true text
      else if c == '/' && text.head? == some '/' then
        go true text
      else
        c :: go false text

def withoutBlanks (text : List Char) : List Char :=
  text.filter (!Text.isBlank ·)

def code (text : List Char) : List Char :=
  withoutBlanks (withoutComments text)

/--
Whatever follows a text, its code is all of `bare` but for the white space.
-/
def HasCode (text bare : String) : Prop :=
  ∀ rest, code (text.toList ++ rest) = withoutBlanks bare.toList ++ code rest

def Commentless (text : String) : Prop :=
  text.toList.IsChain fun c d => c = '/' → d ≠ '/'

structure Closed (text : String) : Prop where
  commentless : Commentless text
  last : text.toList.getLast? ≠ some '/'

def Slashless (text : String) : Prop :=
  '/' ∉ text.toList

instance (text : String) : Decidable (Slashless text) :=
  inferInstanceAs (Decidable ('/' ∉ text.toList))

namespace HasCode

variable {text text' bare bare' : String}

theorem empty : HasCode "" "" := by
  intro rest
  rfl

theorem append (h : HasCode text bare) (h' : HasCode text' bare') :
    HasCode (text ++ text') (bare ++ bare') := by
  intro rest
  rw [String.toList_append, String.toList_append, List.append_assoc, h, h', withoutBlanks,
    withoutBlanks, withoutBlanks, List.filter_append, List.append_assoc]

theorem join {α : Type} {f g : α → String} {xs : List α} (h : ∀ x ∈ xs, HasCode (f x) (g x)) :
    HasCode (String.join (xs.map f)) (String.join (xs.map g)) := by
  induction xs with
  | nil => exact empty
  | cons x xs ih =>
    obtain ⟨hx, hxs⟩ := List.forall_mem_cons.mp h
    rw [List.map_cons, List.map_cons, String.join_cons, String.join_cons]
    exact hx.append (ih hxs)

end HasCode

section Slashless

theorem Slashless.append {text text' : String} (h : Slashless text) (h' : Slashless text') :
    Slashless (text ++ text') := by
  rw [Slashless, String.toList_append, List.mem_append, not_or]
  exact ⟨h, h'⟩

theorem slashless_join {texts : List String} (h : ∀ text ∈ texts, Slashless text) :
    Slashless (String.join texts) := by
  induction texts with
  | nil => exact List.not_mem_nil
  | cons text texts ih =>
    obtain ⟨htext, htexts⟩ := List.forall_mem_cons.mp h
    rw [String.join_cons]
    exact htext.append (ih htexts)

theorem isChain_of_notMem {text : List Char} (h : '/' ∉ text) :
    text.IsChain fun c d => c = '/' → d ≠ '/' := by
  induction text with
  | nil => exact .nil
  | cons c text ih =>
    rw [List.mem_cons, not_or] at h
    refine List.isChain_cons.mpr ⟨?_, ih h.2⟩
    intro _ _ hc
    exact absurd hc.symm h.1

theorem Slashless.closed {text : String} (h : Slashless text) : Closed text :=
  ⟨isChain_of_notMem h, fun hlast => h (List.mem_of_getLast? hlast)⟩

end Slashless

section Closed

theorem Closed.insert {before text after : String} (hbefore : Closed before)
    (htext : Commentless text) (hafter : Slashless after) (hne : after ≠ "") :
    Closed (before ++ text ++ after) := by
  have hclosed := hafter.closed
  have hne : after.toList ≠ [] := fun hnil => hne (String.toList_eq_nil_iff.mp hnil)
  refine ⟨?_, ?_⟩
  · rw [Commentless, String.toList_append, String.toList_append]
    refine List.isChain_append.mpr ⟨?_, hclosed.commentless, ?_⟩
    · refine List.isChain_append.mpr ⟨hbefore.commentless, htext, ?_⟩
      rintro c hc _ _ rfl
      exact absurd hc hbefore.last
    · rintro _ _ c hc _ rfl
      exact hafter (List.mem_of_mem_head? hc)
  · rw [String.toList_append, List.getLast?_append_of_ne_nil _ hne]
    exact hclosed.last

theorem Closed.start {text after : String} (htext : Commentless text) (hafter : Slashless after)
    (hne : after ≠ "") : Closed (text ++ after) := by
  have hempty : Closed "" := Slashless.closed (by decide)
  have h := hempty.insert htext hafter hne
  rwa [String.empty_append] at h

theorem withoutComments_append {text : String} (h : Closed text) (rest : List Char) :
    withoutComments (text.toList ++ rest) = text.toList ++ withoutComments rest := by
  obtain ⟨hchain, hlast⟩ := h
  unfold Commentless at hchain
  unfold withoutComments
  generalize text.toList = text at hchain hlast
  induction text with
  | nil => rfl
  | cons c text ih =>
    obtain ⟨hhead, hchain⟩ := List.isChain_cons.mp hchain
    -- at the last character it is `rest` that could go on with a slash, hence `hlast`
    have hcode : (c == '/' && (text ++ rest).head? == some '/') = false := by
      by_cases hc : c = '/'
      · subst hc
        cases text with
        | nil => exact absurd rfl hlast
        | cons d text =>
          have hd : d ≠ '/' := hhead d rfl rfl
          simp [hd]
      · simp [hc]
    have hlast : text.getLast? ≠ some '/' := by
      cases text with
      | nil => simp
      | cons d text => rwa [List.getLast?_cons_cons] at hlast
    rw [List.cons_append, withoutComments.go, hcode, ih hchain hlast]
    rfl

theorem Closed.hasCode {text : String} (h : Closed text) : HasCode text text := by
  intro rest
  rw [code, withoutComments_append h, withoutBlanks, List.filter_append]
  rfl

theorem Slashless.hasCode {text : String} (h : Slashless text) : HasCode text text :=
  h.closed.hasCode

theorem HasCode.append_slashless {text text' bare : String} (h : HasCode text bare)
    (h' : Slashless text') : HasCode (text ++ text') (bare ++ text') :=
  h.append h'.hasCode

end Closed

section Comment

theorem go_inside {line : List Char} (h : '\n' ∉ line) (rest : List Char) :
    withoutComments.go true (line ++ '\n' :: rest) = '\n' :: withoutComments rest := by
  induction line with
  | nil => rfl
  | cons c line ih =>
    rw [List.mem_cons, not_or] at h
    have hc : (c == '\n') = false := beq_false_of_ne (Ne.symm h.1)
    rw [List.cons_append, withoutComments.go, hc]
    exact ih h.2

theorem code_comment {line : List Char} (h : '\n' ∉ line) (rest : List Char) :
    code ('/' :: '/' :: line ++ '\n' :: rest) = code rest := by
  have hstart : withoutComments ('/' :: '/' :: line ++ '\n' :: rest) =
      withoutComments.go true (line ++ '\n' :: rest) := by
    rfl
  rw [code, hstart, go_inside h]
  rfl

theorem code_cons_of_isBlank {c : Char} (hc : Text.isBlank c = true) (rest : List Char) :
    code (c :: rest) = code rest := by
  have hslash : (c == '/') = false := by
    rw [beq_eq_false_iff_ne]
    rintro rfl
    simp [Text.isBlank] at hc
  have hkeep : withoutComments (c :: rest) = c :: withoutComments rest := by
    rw [withoutComments, withoutComments.go, hslash]
    rfl
  rw [code, hkeep, withoutBlanks, List.filter_cons, hc]
  rfl

theorem exists_commentLine_eq {marker : String} {mark : List Char}
    (hmarker : marker.toList = '/' :: '/' :: mark) (hmark : '\n' ∉ mark) {line : List Char}
    (hline : '\n' ∉ line) :
    ∃ body, '\n' ∉ body ∧ (commentLine marker line).toList = '\n' :: '/' :: '/' :: body := by
  unfold commentLine
  split
  · exact ⟨mark, hmark, by simp [hmarker]⟩
  · refine ⟨mark ++ ' ' :: Text.trim line, ?_, by simp [hmarker]⟩
    rw [List.mem_append, List.mem_cons, not_or, not_or]
    exact ⟨hmark, by decide, fun hmem => hline (Text.mem_of_mem_trim hmem)⟩

structure PassesComments {α : Type} (read : List Char → α) : Prop where
  lineFeed (rest : List Char) : read ('\n' :: rest) = read rest
  line {line : List Char} (h : '\n' ∉ line) (rest : List Char) :
    read ('/' :: '/' :: line ++ '\n' :: rest) = read rest

theorem passesComments_code : PassesComments code :=
  ⟨code_cons_of_isBlank rfl, code_comment⟩

theorem PassesComments.commentLines {α : Type} {read : List Char → α} (hread : PassesComments read)
    {marker : String} {mark : List Char} (hmarker : marker.toList = '/' :: '/' :: mark)
    (hmark : '\n' ∉ mark) {lines : List (List Char)} (hlines : ∀ line ∈ lines, '\n' ∉ line)
    (rest : List Char) :
    read ((String.join (lines.map (commentLine marker))).toList ++ '\n' :: rest) = read rest
      ∧ ∃ tail, (String.join (lines.map (commentLine marker))).toList ++ '\n' :: rest =
        '\n' :: tail := by
  induction lines with
  | nil => exact ⟨hread.lineFeed rest, rest, rfl⟩
  | cons line lines ih =>
    obtain ⟨hline, hlines⟩ := List.forall_mem_cons.mp hlines
    obtain ⟨hrest, tail, htail⟩ := ih hlines
    obtain ⟨body, hbody, hbegin⟩ := exists_commentLine_eq hmarker hmark hline
    rw [List.map_cons, String.join_cons, String.toList_append, List.append_assoc, htail, hbegin]
    refine ⟨?_, _, rfl⟩
    rw [htail] at hrest
    rw [List.cons_append, hread.lineFeed, hread.line hbody, ← hrest, hread.lineFeed]

theorem PassesComments.comment {α : Type} {read : List Char → α} (hread : PassesComments read)
    (text : Option String) {marker : String} {mark : List Char}
    (hmarker : marker.toList = '/' :: '/' :: mark) (hmark : '\n' ∉ mark) (rest : List Char) :
    read ((comment text marker).toList ++ rest) = read rest := by
  unfold Zig.comment
  split
  · rfl
  · rw [String.toList_append, List.append_assoc]
    refine (hread.commentLines hmarker hmark ?_ rest).1
    intro line hline
    exact Text.lineFeed_notMem_of_mem_lines hline

theorem hasCode_comment (text : Option String) {marker : String} {mark : List Char}
    (hmarker : marker.toList = '/' :: '/' :: mark) (hmark : '\n' ∉ mark) :
    HasCode (comment text marker) "" := by
  intro rest
  exact passesComments_code.comment text hmarker hmark rest

theorem hasCode_renderComment (comment : Option String) :
    HasCode (Field.renderComment comment) "" := by
  unfold Field.renderComment
  split
  · exact .empty
  · intro rest
    have hline : '\n' ∉ ' ' :: (Text.singleLine (comment.getD "")).toList := by
      rw [List.mem_cons, not_or]
      exact ⟨by decide, Text.lineFeed_notMem_singleLine _⟩
    have htext : (" // " ++ Text.singleLine (comment.getD "") ++ "\n").toList ++ rest =
        ' ' :: ('/' :: '/' :: (' ' :: (Text.singleLine (comment.getD "")).toList)
          ++ '\n' :: rest) := by
      simp
    rw [htext, code_cons_of_isBlank rfl, code_comment hline]
    rfl

end Comment
end Zig
end Waybind
