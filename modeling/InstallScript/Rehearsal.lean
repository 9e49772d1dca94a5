import InstallScript.Host

/-!
Rehearsals: a host that plays prepared acts instead of touching any files, so that a script can be
tried out. The acts for a function are played one after another, and the last one over and over.
-/

namespace InstallScript

/-- What an act gives to the script. -/
inductive Performance
  | failure (message : String)
  /-- A question, with the text of the first argument as its message. -/
  | question (kind : PromptKind) (choices : List String)
  /-- The argument with the given name. -/
  | echo (parameter : String)
  | result (data : Datum)

/-- An act: its effects on the run, and what it gives. -/
structure Act where
  warning : Option String := none
  /-- A path to change the current directory by. -/
  directory : Option String := none
  cancel : Option String := none
  performance : Performance := .result .none

/-- The acts still to be played, by the name of the function. -/
abbrev Rehearsal := List (String × List Act)

namespace Act

/-- What an act gives when a function is called with the given arguments. -/
def outcome (a : Act) (function : String) (arguments : Arguments) : Outcome :=
  match a.performance with
  | .failure message => .failure message
  | .question kind choices =>
    let message := match arguments with
      | (_, value) :: _ => value.toDatum.plain
      | [] => ""
    .question ⟨function, kind, message, choices⟩
  | .echo parameter => .value ((arguments.lookup parameter).getD .void).toDatum
  | .result data => .value data

/-- Plays an act. A path that names no place is a defect, and nothing else of the act is played. -/
def play (a : Act) (function : String) (arguments : Arguments) (directory : List String)
    (rehearsal : Rehearsal) : Response Rehearsal :=
  let warnings : List Remark := a.warning.toList.map fun message => { message }
  let played (directory : List String) : Response Rehearsal :=
    { outcome := a.outcome function arguments, host := rehearsal, directory, warnings,
      cancel := a.cancel }
  match a.directory with
  | none => played directory
  | some path =>
    match resolvePath path directory with
    | .ok parts => played parts
    | .error fault =>
      { outcome := .crash (.path fault), host := rehearsal, directory, warnings }

end Act

namespace Rehearsal

/-- The acts after one of a function has been played. -/
def advance (r : Rehearsal) (function : String) : Rehearsal :=
  r.map fun (name, acts) =>
    match acts with
    | _ :: next :: rest => if name = function then (name, next :: rest) else (name, acts)
    | _ => (name, acts)

/-- The next act of a function. Without any it gives nothing. -/
def next (r : Rehearsal) (function : String) : Act :=
  ((r.lookup function).bind (·.head?)).getD {}

/-- The host that plays a rehearsal. -/
def host : Host Rehearsal := fun f arguments directory r =>
  (r.next f.name).play f.name arguments directory (r.advance f.name)

end Rehearsal

end InstallScript
