import InstallScript.Defect
import InstallScript.Prompt

/-!
Computations that may stop and ask. A course is what has come of a computation: it is done, it has
come to an exit, or it waits for the reply to a question and goes on from there, in whatever state
it finds then. Since a course that waits holds all that is left to do, nothing else has to be
remembered.
-/

namespace InstallScript

/-- Why a computation ends before its end. -/
inductive Exit
  /-- The script has ended itself. -/
  | returned
  /-- The user or the host has cancelled the run. -/
  | aborted (reason : String)
  | failed (error : ScriptError)
  | crashed (defect : Defect)
  deriving DecidableEq, Repr

/-- What a waiting computation is told. -/
inductive Resumption
  | reply (reply : Reply)
  /-- It is to end. -/
  | leave (exit : Exit)

/-- What has come of a computation with states `σ` and results `α`. -/
inductive Course (σ α : Type)
  | done (value : α) (state : σ)
  | exit (why : Exit) (state : σ)
  | ask (prompt : Prompt) (state : σ) (next : Resumption → σ → Course σ α)

namespace Course

variable {σ α β γ : Type}

/-- Goes on with the result. -/
def andThen : Course σ α → (α → σ → Course σ β) → Course σ β
  | .done a s, f => f a s
  | .exit why s, _ => .exit why s
  | .ask p s next, f => .ask p s fun r t => (next r t).andThen f

@[simp] theorem done_andThen (a : α) (s : σ) (f : α → σ → Course σ β) :
    (Course.done a s).andThen f = f a s := rfl

@[simp] theorem exit_andThen (why : Exit) (s : σ) (f : α → σ → Course σ β) :
    (Course.exit why s).andThen f = .exit why s := rfl

@[simp] theorem ask_andThen (p : Prompt) (s : σ) (next : Resumption → σ → Course σ α)
    (f : α → σ → Course σ β) :
    (Course.ask p s next).andThen f = .ask p s fun r t => (next r t).andThen f := rfl

/-- Going on with nothing more to do changes nothing. -/
theorem andThen_done (c : Course σ α) : c.andThen .done = c := by
  induction c with
  | done a s => rfl
  | exit why s => rfl
  | ask p s next ih =>
    rw [ask_andThen]
    congr 1
    funext r t
    exact ih r t

/-- Going on twice is going on with both. -/
theorem andThen_assoc (c : Course σ α) (f : α → σ → Course σ β) (g : β → σ → Course σ γ) :
    (c.andThen f).andThen g = c.andThen fun a s => (f a s).andThen g := by
  induction c with
  | done a s => rfl
  | exit why s => rfl
  | ask p s next ih =>
    simp only [ask_andThen]
    congr 1
    funext r t
    exact ih r t

/-- Changes the state at the end, however the computation ends. -/
def atEnd (change : σ → σ) : Course σ α → Course σ α
  | .done a s => .done a (change s)
  | .exit why s => .exit why (change s)
  | .ask p s next => .ask p s fun r t => (next r t).atEnd change

/-- The state that a computation has come to. -/
def state : Course σ α → σ
  | .done _ s => s
  | .exit _ s => s
  | .ask _ s _ => s

/-- Someone who replies to questions, or says why not, and goes on to further questions. -/
abbrev Responder (γ : Type) := γ → Prompt → Except Defect Resumption × γ

/-- What comes of replying to all questions. -/
structure Driven (σ α γ : Type) where
  course : Course σ α
  responder : γ
  /-- The last question replied to. -/
  lastPrompt : Option Prompt
  /-- Why the question at hand has no reply. -/
  refusal : Option Defect

/-- Replies to questions until there are no more, or until there is no reply. -/
def drive (respond : Responder γ) : γ → Option Prompt → Course σ α → Driven σ α γ
  | g, last, .done a s => ⟨.done a s, g, last, none⟩
  | g, last, .exit why s => ⟨.exit why s, g, last, none⟩
  | g, last, .ask p s next =>
    match respond g p with
    | (.error d, g') => ⟨.ask p s next, g', last, some d⟩
    | (.ok r, g') => (next r s).drive respond g' (some p)

end Course

/-- A computation from a state. -/
def Action (σ α : Type) : Type := σ → Course σ α

namespace Action

variable {σ α β : Type}

/-- Gives a value. -/
def pure (a : α) : Action σ α := fun s => .done a s

/-- One computation after another. -/
def bind (m : Action σ α) (f : α → Action σ β) : Action σ β := fun s => (m s).andThen f

instance : Monad (Action σ) where
  pure := Action.pure
  bind := Action.bind

@[simp] theorem pure_apply (a : α) (s : σ) : (Pure.pure a : Action σ α) s = .done a s := rfl

@[simp] theorem bind_apply (m : Action σ α) (f : α → Action σ β) (s : σ) :
    (m >>= f) s = (m s).andThen f := rfl

instance : LawfulMonad (Action σ) :=
  LawfulMonad.mk' (Action σ) (fun m => funext fun s => Course.andThen_done (m s))
    (fun _ _ => rfl) (fun m f g => funext fun s => Course.andThen_assoc (m s) f g)

/-- Ends the computation. -/
def leave (why : Exit) : Action σ α := fun s => .exit why s

/-- Ends the computation with an error of the script. -/
def fail (fault : Fault) (span : Span) : Action σ α :=
  leave (.failed ⟨fault, some span, none⟩)

/-- Looks at the state. -/
def read (f : σ → α) : Action σ α := fun s => .done (f s) s

/-- Changes the state. -/
def change (f : σ → σ) : Action σ Unit := fun s => .done () (f s)

/-- Asks a question. -/
def ask (p : Prompt) : Action σ Resumption := fun s => .ask p s fun r t => .done r t

/-- Brackets a computation between two changes of the state. The second one is made however the
computation ends. -/
def within (before after : σ → σ) (m : Action σ α) : Action σ α := fun s =>
  (m (before s)).atEnd after

end Action

end InstallScript
