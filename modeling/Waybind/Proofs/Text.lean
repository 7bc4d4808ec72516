import Mathlib.Data.List.TakeWhile
import Waybind.Text.Blank

/-!
This module contains what trimming does: it takes white space away at both ends, and nothing else.
The pieces that a text is cut into hold none of the characters that it is cut at.
-/

namespace Waybind
namespace Text

theorem eq_append_of_dropWhile_eq {α : Type} {p : α → Bool} {xs ys : List α} {y : α}
    (h : xs.dropWhile p = y :: ys) : xs = xs.takeWhile p ++ y :: ys ∧ p y = false := by
  have hne : xs.dropWhile p ≠ [] := by
    rw [h]
    exact List.cons_ne_nil _ _
  have hy := List.head_dropWhile_not p hne
  simp only [h, List.head_cons] at hy
  exact ⟨by rw [← h, List.takeWhile_append_dropWhile], hy⟩

theorem exists_eq_append_trim (cs : List Char) :
    ∃ before after, cs = before ++ trim cs ++ after
      ∧ (∀ c ∈ before, isBlank c) ∧ (∀ c ∈ after, isBlank c) := by
  unfold trim
  generalize hrest : cs.dropWhile isBlank = rest
  refine ⟨cs.takeWhile isBlank, (rest.reverse.takeWhile isBlank).reverse, ?_, ?_, ?_⟩
  · rw [List.append_assoc, ← List.reverse_append, List.takeWhile_append_dropWhile,
      List.reverse_reverse, ← hrest, List.takeWhile_append_dropWhile]
  · intro c hc
    exact List.mem_takeWhile_imp hc
  · intro c hc
    rw [List.mem_reverse] at hc
    exact List.mem_takeWhile_imp hc

theorem dropWhile_isBlank_append {before body : List Char} (hbefore : ∀ c ∈ before, isBlank c)
    (hbody : ∀ c ∈ body, isBlank c = false) (hne : body ≠ []) (rest : List Char) :
    (before ++ (body ++ rest)).dropWhile isBlank = body ++ rest := by
  obtain ⟨c, body, rfl⟩ := List.exists_cons_of_ne_nil hne
  rw [List.dropWhile_append_of_pos hbefore, List.cons_append, List.dropWhile_cons_of_neg]
  simp [hbody c (by simp)]

theorem trim_append {before body after : List Char} (hbefore : ∀ c ∈ before, isBlank c)
    (hafter : ∀ c ∈ after, isBlank c) (hbody : ∀ c ∈ body, isBlank c = false) (hne : body ≠ []) :
    trim (before ++ body ++ after) = body := by
  unfold trim
  rw [List.append_assoc, dropWhile_isBlank_append hbefore hbody hne, List.reverse_append]
  have hback : (after.reverse ++ (body.reverse ++ [])).dropWhile isBlank = body.reverse ++ [] := by
    apply dropWhile_isBlank_append
    · simpa using hafter
    · simpa using hbody
    · simpa using hne
  rw [List.append_nil] at hback
  rw [hback, List.reverse_reverse]

theorem mem_of_mem_trim {c : Char} {cs : List Char} (h : c ∈ trim cs) : c ∈ cs := by
  obtain ⟨before, after, hcs, -, -⟩ := exists_eq_append_trim cs
  rw [hcs]
  exact List.mem_append_left _ (List.mem_append_right _ h)

theorem cut_eq_false_of_mem_go {cut : Char → Bool} {cs current : List Char}
    {done : List (List Char)} (hcurrent : ∀ c ∈ current, cut c = false)
    (hdone : ∀ piece ∈ done, ∀ c ∈ piece, cut c = false) :
    ∀ piece ∈ pieces.go cut cs current done, ∀ c ∈ piece, cut c = false := by
  induction cs generalizing current done with
  | nil =>
    intro piece hpiece c hc
    rw [pieces.go, List.mem_reverse, List.mem_cons] at hpiece
    rcases hpiece with rfl | hpiece
    · exact hcurrent c (List.mem_reverse.mp hc)
    · exact hdone piece hpiece c hc
  | cons c cs ih =>
    rw [pieces.go_cons]
    split
    · apply ih
      · simp
      · rw [List.forall_mem_cons]
        exact ⟨by simpa using hcurrent, hdone⟩
    · next hc =>
      apply ih
      · rw [List.forall_mem_cons]
        exact ⟨by simpa using hc, hcurrent⟩
      · exact hdone

theorem cut_eq_false_of_mem_pieces {cut : Char → Bool} {cs piece : List Char}
    (hpiece : piece ∈ pieces cut cs) : ∀ c ∈ piece, cut c = false :=
  cut_eq_false_of_mem_go (by simp) (by simp) piece hpiece

theorem go_append_cons {cut : Char → Bool} {c : Char} (hc : cut c = true)
    (cs cs' current : List Char) (done : List (List Char)) :
    pieces.go cut (cs ++ c :: cs') current done =
      pieces.go cut cs current done ++ pieces cut cs' := by
  induction cs generalizing current done with
  | nil =>
    rw [List.nil_append, pieces.go_cons, if_pos hc, pieces.go_done]
    rfl
  | cons d cs ih =>
    rw [List.cons_append, pieces.go_cons, pieces.go_cons]
    split
    · exact ih [] _
    · exact ih _ done

theorem pieces_append {cut : Char → Bool} {c : Char} (hc : cut c = true) (cs cs' : List Char) :
    pieces cut (cs ++ c :: cs') = pieces cut cs ++ pieces cut cs' :=
  go_append_cons hc cs cs' [] []

theorem go_eq_singleton {cut : Char → Bool} {cs : List Char} (h : ∀ c ∈ cs, cut c = false)
    (current : List Char) : pieces.go cut cs current [] = [current.reverse ++ cs] := by
  induction cs generalizing current with
  | nil => rw [pieces.go, List.append_nil, List.reverse_singleton]
  | cons c cs ih =>
    obtain ⟨hc, hcs⟩ := List.forall_mem_cons.mp h
    rw [pieces.go_cons, hc, if_neg Bool.false_ne_true, ih hcs, List.reverse_cons,
      List.append_assoc, List.singleton_append]

theorem pieces_of_cut_eq_false {cut : Char → Bool} {cs : List Char}
    (h : ∀ c ∈ cs, cut c = false) : pieces cut cs = [cs] :=
  go_eq_singleton h []

theorem cut_eq_false_of_notMem {c : Char} {cs : List Char} (h : c ∉ cs) :
    ∀ d ∈ cs, (d == c) = false := by
  intro d hd
  rw [beq_eq_false_iff_ne]
  rintro rfl
  exact h hd

theorem pieces_append_cons {cut : Char → Bool} {piece : List Char}
    (h : ∀ c ∈ piece, cut c = false) {c : Char} (hc : cut c = true) (cs : List Char) :
    pieces cut (piece ++ c :: cs) = piece :: pieces cut cs := by
  rw [pieces_append hc, pieces_of_cut_eq_false h, List.singleton_append]

theorem getLast?_go_append {cut : Char → Bool} {c : Char} (hc : cut c = false)
    (cs current : List Char) (done : List (List Char)) :
    (pieces.go cut (cs ++ [c]) current done).getLast? ≠ some [] := by
  induction cs generalizing current done with
  | nil =>
    rw [List.nil_append, pieces.go_cons, hc, if_neg Bool.false_ne_true, pieces.go]
    simp
  | cons d cs ih =>
    rw [List.cons_append, pieces.go_cons]
    split
    · exact ih [] _
    · exact ih _ done

theorem go_ne_nil (cut : Char → Bool) (cs current : List Char) (done : List (List Char)) :
    pieces.go cut cs current done ≠ [] := by
  induction cs generalizing current done with
  | nil => simp [pieces.go]
  | cons c cs ih =>
    rw [pieces.go_cons]
    split
    · exact ih [] _
    · exact ih _ done

theorem length_go (cut : Char → Bool) (cs current : List Char) (done : List (List Char)) :
    (pieces.go cut cs current done).length = done.length + cs.countP cut + 1 := by
  induction cs generalizing current done with
  | nil => simp [pieces.go]
  | cons c cs ih =>
    rw [pieces.go_cons]
    split
    · next hc =>
      rw [ih, List.countP_cons_of_pos hc, List.length_cons]
      omega
    · next hc => rw [ih, List.countP_cons_of_neg hc]

theorem length_pieces (cut : Char → Bool) (cs : List Char) :
    (pieces cut cs).length = cs.countP cut + 1 := by
  unfold pieces
  rw [length_go, List.length_nil]
  omega

theorem pieces_eq_singleton_iff {cut : Char → Bool} {cs piece : List Char} :
    pieces cut cs = [piece] ↔ cs = piece ∧ ∀ c ∈ cs, cut c = false := by
  constructor
  · intro h
    have huncut : ∀ c ∈ cs, cut c = false := by
      intro c hmem
      by_contra hc
      obtain ⟨before, after, rfl⟩ := List.append_of_mem hmem
      have hlength := congrArg List.length h
      have hbefore := List.length_pos_iff.mpr (go_ne_nil cut before [] [])
      have hafter := List.length_pos_iff.mpr (go_ne_nil cut after [] [])
      rw [pieces_append (eq_true_of_ne_false hc), List.length_append,
        List.length_singleton] at hlength
      simp only [pieces] at hlength
      omega
    rw [pieces_of_cut_eq_false huncut, List.singleton_inj] at h
    exact ⟨h, huncut⟩
  · rintro ⟨rfl, huncut⟩
    exact pieces_of_cut_eq_false huncut

theorem lineFeed_notMem_of_mem_lines {cs line : List Char} (hline : line ∈ lines cs) :
    '\n' ∉ line := by
  intro hmem
  have hcut := cut_eq_false_of_mem_pieces hline '\n' hmem
  cases hcut

theorem mem_of_mem_intercalate {c : Char} {sep : List Char} {parts : List (List Char)}
    (h : c ∈ sep.intercalate parts) : c ∈ sep ∨ ∃ part ∈ parts, c ∈ part := by
  induction parts with
  | nil => cases h
  | cons part parts ih =>
    cases parts with
    | nil =>
      rw [List.intercalate_singleton] at h
      exact .inr ⟨part, List.mem_singleton_self _, h⟩
    | cons next parts =>
      rw [List.intercalate_cons_cons, List.mem_append, List.mem_append] at h
      rcases h with (h | h) | h
      · exact .inr ⟨part, List.mem_cons_self, h⟩
      · exact .inl h
      · rcases ih h with h | ⟨other, hother, h⟩
        · exact .inl h
        · exact .inr ⟨other, List.mem_cons_of_mem _ hother, h⟩

theorem lineFeed_notMem_singleLine (s : String) : '\n' ∉ (singleLine s).toList := by
  rw [singleLine, String.toList_intercalate]
  intro hmem
  rcases mem_of_mem_intercalate hmem with hmem | ⟨part, hpart, hmem⟩
  · simp at hmem
  · simp only [List.map_map, List.mem_map, Function.comp_apply, String.toList_ofList] at hpart
    obtain ⟨word, hword, rfl⟩ := hpart
    have hcut := cut_eq_false_of_mem_pieces (List.mem_filter.mp hword).1 '\n' hmem
    cases hcut

end Text
end Waybind
