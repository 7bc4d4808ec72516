import Waybind.Path
import Waybind.Proofs.Text

/-!
This module contains the parts of paths that are joined, and which paths are those of files in a
directory.
-/

namespace Waybind
namespace Path

/--
The parts of what is in a directory come after these: the parts of its own path, but for the empty
one behind a slash at the end.
-/
def directoryParts (directory : Path) : List (List Char) :=
  if directory.parts.getLast? = some [] then directory.parts.dropLast else directory.parts

structure IsFileName (name : String) : Prop where
  slash_notMem : '/' ∉ name.toList
  notMem : name ∉ ["", ".", ".."]

def IsFileIn (directory path : Path) : Prop :=
  ∃ name, IsFileName name ∧ path.parts = directory.directoryParts ++ [name.toList]

section Join

variable (directory : Path) {path : Path}

theorem join_of_isAbsolute (h : path.isAbsolute = true) : directory.join path = path := by
  rw [join, if_pos h]

theorem parts_join (h : path.isAbsolute = false) :
    (directory.join path).parts = directory.directoryParts ++ path.parts := by
  rw [join, if_neg (by simp [h])]
  split
  · next hlast =>
    have hempty : directory.text.toList = [] := List.getLast?_eq_none_iff.mp hlast
    have hparts : directory.parts = [[]] := by
      rw [parts, hempty]
      rfl
    rw [directoryParts, hparts]
    rfl
  · next hlast =>
    obtain ⟨front, hfront⟩ := List.getLast?_eq_some_iff.mp hlast
    have hparts : directory.parts = Text.pieces (· == '/') front ++ [[]] := by
      rw [parts, hfront, Text.pieces_append rfl]
      rfl
    rw [directoryParts, hparts, if_pos (by simp), List.dropLast_concat, parts,
      String.toList_append, hfront, List.append_assoc, List.singleton_append,
      Text.pieces_append rfl]
    rfl
  · next c hslash hlast =>
    obtain ⟨front, hfront⟩ := List.getLast?_eq_some_iff.mp hlast
    have hne : directory.parts.getLast? ≠ some [] := by
      rw [parts, hfront]
      refine Text.getLast?_go_append ?_ front [] []
      exact beq_false_of_ne hslash
    have htext : (directory.text ++ "/" ++ path.text).toList =
        directory.text.toList ++ '/' :: path.text.toList := by
      simp
    rw [directoryParts, if_neg hne, parts, htext, Text.pieces_append rfl]
    rfl

theorem isFileIn_join_iff (h : path.isAbsolute = false) :
    IsFileIn directory (directory.join path) ↔ IsFileName path.text := by
  unfold IsFileIn
  rw [parts_join directory h]
  constructor
  · rintro ⟨name, hname, hparts⟩
    obtain ⟨htext, -⟩ := Text.pieces_eq_singleton_iff.mp (List.append_cancel_left hparts)
    rwa [String.toList_inj.mp htext]
  · intro hname
    refine ⟨path.text, hname, ?_⟩
    rw [parts, Text.pieces_of_cut_eq_false (Text.cut_eq_false_of_notMem hname.slash_notMem)]

end Join

end Path
end Waybind
