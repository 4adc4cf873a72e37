/-!
# Lines as the diff compares them

A text is cut after every line terminator: a line feed, a carriage return, or a carriage return and
a line feed together. Terminators are part of the lines, so two lines that differ in them differ.
-/

set_option autoImplicit false

namespace SafeRefactor.Diff

def cut : List Char → List (List Char)
  | [] => []
  | '\n' :: cs => ['\n'] :: cut cs
  | '\r' :: '\n' :: cs => ['\r', '\n'] :: cut cs
  | '\r' :: cs => ['\r'] :: cut cs
  | c :: cs =>
    match cut cs with
    | [] => [[c]]
    | l :: ls => (c :: l) :: ls

def tokens (text : String) : List String := (cut text.toList).map String.ofList

def isTerminated (line : String) : Bool :=
  match line.toList.getLast? with
  | some c => c = '\n' || c = '\r'
  | none => false

end SafeRefactor.Diff
