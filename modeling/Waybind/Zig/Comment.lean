import Waybind.Text.Blank

/-!
This module contains the text of comments.
-/

namespace Waybind
namespace Zig

def commentLine (marker : String) (line : List Char) : String :=
  match Text.trim line with
  | [] => "\n" ++ marker
  | line => "\n" ++ marker ++ " " ++ String.ofList line

/--
A text as comment lines that begin with `marker`, one for each line of the text, with the white
space around each line removed. A missing or blank text gives no comment.
-/
def comment (text : Option String) (marker : String) : String :=
  match Text.trim (text.getD "").toList with
  | [] => ""
  | text => String.join ((Text.lines text).map (commentLine marker)) ++ "\n"

end Zig
end Waybind
