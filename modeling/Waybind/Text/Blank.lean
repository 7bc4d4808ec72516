/-!
This module contains the white space characters and the operations on texts that depend on them:
trimming, cutting a text into lines and into words.
-/

namespace Waybind
namespace Text

def isBlank (c : Char) : Bool :=
  let n := c.toNat
  (0x09 ≤ n && n ≤ 0x0D) || n == 0x20 || n == 0x85 || n == 0xA0 || n == 0x1680
    || (0x2000 ≤ n && n ≤ 0x200A) || n == 0x2028 || n == 0x2029 || n == 0x202F || n == 0x205F
    || n == 0x3000

def trim (cs : List Char) : List Char :=
  ((cs.dropWhile isBlank).reverse.dropWhile isBlank).reverse

/--
Cut a text at every character that satisfies `cut`. The characters cut at are dropped, and there is
always one piece more than there are such characters.
-/
def pieces (cut : Char → Bool) (cs : List Char) : List (List Char) :=
  go cs [] []
where
  go (cs current : List Char) (done : List (List Char)) : List (List Char) :=
    match cs with
    | [] => (current.reverse :: done).reverse
    | c :: cs =>
      if cut c then
        go cs [] (current.reverse :: done)
      else
        go cs (c :: current) done

def lines (cs : List Char) : List (List Char) :=
  pieces (· == '\n') cs

def words (cs : List Char) : List (List Char) :=
  (pieces isBlank cs).filter (!·.isEmpty)

def singleLine (s : String) : String :=
  " ".intercalate ((words s.toList).map String.ofList)

theorem pieces.go_cons (cut : Char → Bool) (c : Char) (cs current : List Char)
    (done : List (List Char)) :
    pieces.go cut (c :: cs) current done =
      if cut c then pieces.go cut cs [] (current.reverse :: done)
      else pieces.go cut cs (c :: current) done := by
  simp only [pieces.go]

theorem pieces.go_done (cut : Char → Bool) (cs current : List Char) (done : List (List Char)) :
    pieces.go cut cs current done = done.reverse ++ pieces.go cut cs current [] := by
  induction cs generalizing current done with
  | nil => simp [pieces.go]
  | cons c cs ih =>
    rw [pieces.go_cons, pieces.go_cons]
    split
    · rw [ih [] (current.reverse :: done), ih [] [current.reverse]]
      simp
    · exact ih (c :: current) done

end Text
end Waybind
