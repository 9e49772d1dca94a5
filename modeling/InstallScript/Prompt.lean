import InstallScript.Value

/-!
Questions to the user, and the answers that fit them.
-/

namespace InstallScript

/-- The kind of a question. -/
inductive PromptKind
  /-- Asks for a yes or a no. -/
  | confirm
  /-- Asks for one of the choices. -/
  | choice
  /-- Asks for a text. -/
  | text
  deriving DecidableEq, Repr

/-- The name of a kind of question. -/
def PromptKind.name : PromptKind → String
  | confirm => "confirm"
  | choice => "choice"
  | text => "text"

/-- The kind of question of a name. -/
def PromptKind.ofName? (name : String) : Option PromptKind :=
  [confirm, choice, text].find? fun kind => kind.name = name

/-- A question that a run waits on. -/
structure Prompt where
  function : String
  kind : PromptKind
  message : String
  choices : List String := []
  deriving DecidableEq, Repr

/-- What the user may say to a question. -/
inductive Reply
  | answer (data : Datum)
  /-- Cancels the run. -/
  | abort

/-- A reply as messages show it. -/
def Reply.shown : Reply → String
  | answer data => data.shown
  | abort => "ABORT"

namespace Prompt

/-- The value that a reply stands for, or what was expected instead. -/
def accept (p : Prompt) (reply : Reply) : Except String Value :=
  match p.kind, reply with
  | .confirm, .answer (.bool b) => .ok (.bool b)
  | .confirm, r => .error s!"{p.function}() expects a yes/no answer, got {r.shown}"
  | .choice, .answer (.text s) =>
    if p.choices.contains s then .ok (.string s)
    else
      let choices := (Datum.list (p.choices.map .text)).shown
      .error s!"{p.function}() expects one of {choices}, got {Text.quoted s}"
  | .text, .answer (.text s) => .ok (.string s)
  | _, r => .error s!"{p.function}() expects text, got {r.shown}"

/-- The answer that is given when nobody is asked: yes, the first choice, or an empty text. A
question without choices has none. -/
def automaticAnswer? (p : Prompt) : Option Datum :=
  match p.kind with
  | .confirm => some (.bool true)
  | .choice => p.choices.head?.map .text
  | .text => some (.text "")

end Prompt

end InstallScript
