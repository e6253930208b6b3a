import SymbolAtlas.Text.Blank
import SymbolAtlas.Text.Cut

/-!
# The words of a command line

A command line is cut into words at blanks. Quotes of both kinds keep blanks; a backslash keeps the
next character, except inside single quotes. A quote that is never closed lasts to the end, and a
backslash at the end adds nothing but makes a word.

* `Command.split`: the words of a command line.
* `Command.output?`: the file that a command writes, from its `-o` flag.
-/

namespace SymbolAtlas.Command

/-- The words of the rest of a command line. `quote` is the open quote, `inWord` tells whether a
word has begun, and `run` holds its characters, last first. -/
def splitFrom (quote : Option Char) (inWord : Bool) (run : List Char) : List Char → List (List Char)
  | [] => if inWord then [run.reverse] else []
  | ['\\'] =>
    match quote with
    | some '\'' => [('\\' :: run).reverse]
    | _ => [run.reverse]
  | '\\' :: c :: cs =>
    match quote with
    | some '\'' =>
      if c = '\'' then splitFrom none inWord ('\\' :: run) cs
      else splitFrom quote inWord (c :: '\\' :: run) cs
    | _ => splitFrom quote true (c :: run) cs
  | c :: cs =>
    match quote with
    | some q => if c = q then splitFrom none inWord run cs else splitFrom quote inWord (c :: run) cs
    | none =>
      if c = '"' || c = '\'' then splitFrom (some c) true run cs
      else if Text.isBlank c then
        if inWord then run.reverse :: splitFrom none false [] cs else splitFrom none false [] cs
      else splitFrom none true (c :: run) cs

/-- The words of a command line. -/
def split (command : String) : List String :=
  (splitFrom none false [] command.toList).map String.ofList

/-- The argument of the first `-o` flag, joined to it or as the next word. -/
def output? : List String → Option String
  | [] => none
  | word :: rest =>
    if word = "-o" then rest.head?
    else
      match Text.afterStart "-o" word with
      | some file => if file.isEmpty || file.startsWith "-" then output? rest else some file
      | none => output? rest

end SymbolAtlas.Command
