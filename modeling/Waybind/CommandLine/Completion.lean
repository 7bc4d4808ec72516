import Waybind.CommandLine.Basic

/-!
This module contains the completion scripts for shells.
-/

namespace Waybind
namespace CommandLine

def completionWords : List String :=
  ["--log-level", "generate", "--config", "--output-dir", "--runtime-dir", "--no-format",
    "generate-completion"]

def Shell.completion (shell : Shell) : String :=
  let words := " ".intercalate completionWords
  match shell with
  | .bash => "complete -o default -W '" ++ words ++ "' wlzig\n"
  | .zsh =>
    "#compdef wlzig\n_wlzig() \x7b compadd -- " ++ words ++
      "; _files \x7d\ncompdef _wlzig wlzig\n"
  | .fish => "complete -c wlzig -a '" ++ words ++ "'\n"
  | .elvish =>
    "set edit:completion:arg-completer[wlzig] = \x7b|@words| put " ++ words ++ " \x7d\n"
  | .powershell =>
    "Register-ArgumentCompleter -Native -CommandName wlzig -ScriptBlock \x7b '" ++ words
      ++ "' -split ' ' \x7d\n"

end CommandLine
end Waybind
