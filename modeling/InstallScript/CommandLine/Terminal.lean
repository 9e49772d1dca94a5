import InstallScript.Course
import InstallScript.Grammar
import InstallScript.Number.Text

/-!
Asking the user at a terminal. A question is put until it has an answer that fits; the letter `q`,
or the end of the input, cancels the run.
-/

namespace InstallScript.CommandLine

/-- The lines that are still to be read, and the text that has been written. -/
structure Terminal where
  input : List String
  output : String := ""
  deriving DecidableEq, Repr

/-- The lines of an input, after the characters already read of the first one, last character
first. -/
def inputLines : List Char → List Char → List String
  | read, [] => if read.isEmpty then [] else [String.ofList read.reverse]
  | read, c :: rest =>
    if c = '\n' then String.ofList read.reverse :: inputLines [] rest
    else inputLines (c :: read) rest

namespace Terminal

/-- A terminal on which a text will be typed. -/
def ofInput (s : String) : Terminal := { input := inputLines [] s.toList }

/-- What an answer to a question for a yes or a no means, if anything. -/
def confirmation? (line : String) : Option Reply :=
  let word := lowerAscii (Text.stripped line)
  if word = "y" || word = "yes" then some (.answer (.bool true))
  else if word = "n" || word = "no" then some (.answer (.bool false))
  else if word = "q" then some .abort
  else none

/-- The choice that a line names by its number. Digits that make no number are a defect. -/
def choiceOf (choices : List String) (line : String) : Except Defect (Option Reply) :=
  let word := Text.stripped line
  if word = "q" then .ok (some .abort)
  else if word ≠ "" && word.toList.all Text.isDigit then
    match readDigits? true 0 word.toList with
    | none => .error (.notInteger word)
    | some n =>
      if n = 0 then .ok none
      else .ok ((choices[n - 1]?).map fun choice => .answer (.text choice))
  else .ok none

/-- Choices with their numbers, each on a line. -/
def numbered (choices : List String) : String :=
  String.join ((choices.zipIdx 1).map fun (choice, n) => s!"  {n}) {choice}\n")

/-- What is written before a question is put for the first time. -/
def heading (p : Prompt) : String :=
  match p.kind with
  | .choice => p.message ++ "\n" ++ numbered p.choices
  | _ => ""

/-- A question as it is put. -/
def question (p : Prompt) : String :=
  match p.kind with
  | .confirm => p.message ++ " [y/n/q] "
  | .choice => "choice (q to cancel): "
  | .text => p.message ++ " "

/-- What a line replies to a question, if anything. -/
def reply? (p : Prompt) (line : String) : Except Defect (Option Reply) :=
  match p.kind with
  | .confirm => .ok (confirmation? line)
  | .choice => choiceOf p.choices line
  | .text => .ok (some (.answer (.text line)))

/-- Puts a question until a line replies to it. -/
def askLines (p : Prompt) : List String → String → Except Defect Reply × Terminal
  | [], out => (.ok .abort, ⟨[], out ++ question p⟩)
  | line :: rest, out =>
    match reply? p line with
    | .error d => (.error d, ⟨rest, out ++ question p⟩)
    | .ok (some reply) => (.ok reply, ⟨rest, out ++ question p⟩)
    | .ok none => askLines p rest (out ++ question p)

/-- Asks the user. -/
def ask (t : Terminal) (p : Prompt) : Except Defect Reply × Terminal :=
  askLines p t.input (t.output ++ heading p)

end Terminal

/-- The user replies at the terminal. -/
def interactive : Course.Responder Terminal := fun t p =>
  let (answer, t') := t.ask p
  (answer.map .reply, t')

end InstallScript.CommandLine
