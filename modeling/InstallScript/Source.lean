/-!
Places in a source text. Lines and columns count from 1 and offsets from 0, all in characters; a
line ends at a line feed and nowhere else.
-/

namespace InstallScript

/-- A place between characters of a text. -/
structure Location where
  line : Nat := 1
  column : Nat := 1
  offset : Nat := 0
  deriving DecidableEq, Repr, Inhabited

/-- The place behind one more character. -/
def Location.next (l : Location) (c : Char) : Location :=
  if c = '\n' then ⟨l.line + 1, 1, l.offset + 1⟩ else ⟨l.line, l.column + 1, l.offset + 1⟩

/-- The place behind a stretch of text. -/
def Location.after (l : Location) (cs : List Char) : Location :=
  cs.foldl Location.next l

@[simp] theorem Location.after_nil (l : Location) : l.after [] = l := rfl

@[simp] theorem Location.after_cons (l : Location) (c : Char) (cs : List Char) :
    l.after (c :: cs) = (l.next c).after cs := rfl

/-- The place behind two stretches is the place behind the second one, which begins behind the
first. -/
theorem Location.after_append (l : Location) (cs ds : List Char) :
    l.after (cs ++ ds) = (l.after cs).after ds := by
  simp only [Location.after, List.foldl_append]

@[simp] theorem Location.offset_next (l : Location) (c : Char) :
    (l.next c).offset = l.offset + 1 := by
  unfold Location.next
  split <;> rfl

/-- Offsets count characters. -/
@[simp] theorem Location.offset_after (l : Location) (cs : List Char) :
    (l.after cs).offset = l.offset + cs.length := by
  induction cs generalizing l with
  | nil => rfl
  | cons c cs ih =>
    rw [Location.after_cons, ih, Location.offset_next, List.length_cons]
    omega

/-- A stretch of a text, which may have a name. -/
structure Span where
  start : Location
  stop : Location
  file : Option String := none
  deriving DecidableEq, Repr, Inhabited

namespace Span

/-- The name of the text with a colon, if it has a name. -/
def filePart (s : Span) : String :=
  match s.file with
  | some name => if name = "" then "" else name ++ ":"
  | none => ""

/-- Where a stretch starts, as messages give it. -/
def startText (s : Span) : String :=
  s!"{s.filePart}{s.start.line}:{s.start.column}"

/-- A stretch, as messages give it. -/
def text (s : Span) : String :=
  s!"{s.startText}-{s.stop.line}:{s.stop.column}"

/-- From the start of one stretch to the end of another. -/
def upTo (first last : Span) : Span :=
  ⟨first.start, last.stop, first.file⟩

end Span

end InstallScript
