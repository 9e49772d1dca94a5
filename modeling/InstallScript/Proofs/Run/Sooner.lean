import InstallScript.Proofs.Run.Moves
import InstallScript.Proofs.Syntax.Uncommented

/-!
Scripts with and without their comments. A comment is a statement, so a run looks before it whether
it has been cancelled, and that is all it does. A run of a script with comments therefore goes the
same way as one without, until it is cancelled; then it may end sooner (`executeAll_sooner`).

Where it does, the other run takes no step more: it comes to its end, or to the sum that a counted
loop goes on with, which may be too large. Any other way on leads to a place where it looks, too.
-/

namespace InstallScript

variable {η : Type}

/-! ## Courses -/

/-- The first course goes the same way as the second one, but may end sooner once the run has been
cancelled. The second one is then at an end, too, in the same world. -/
inductive Course.Sooner {α : Type} : Course (World η) α → Course (World η) α → Prop
  | done (a : α) (w : World η) : Sooner (.done a w) (.done a w)
  | exit (why : Exit) (w : World η) : Sooner (.exit why w) (.exit why w)
  | ask {p : Prompt} {w : World η} {next next' : Resumption → World η → Course (World η) α}
    (goesOn : ∀ r t, Sooner (next r t) (next' r t)) : Sooner (.ask p w next) (.ask p w next')
  /-- Nothing is left to do. -/
  | ended {a : α} {w : World η} {reason : String} (cancelled : w.cancelled = some reason) :
    Sooner (.exit (.aborted reason) w) (.done a w)
  /-- A counted loop cannot go on. -/
  | overflow {cause : Overflow} {w : World η} {reason : String}
    (cancelled : w.cancelled = some reason) :
    Sooner (.exit (.aborted reason) w) (.exit (.crashed (.overflow cause)) w)

/-- A computation that ends sooner than another one, if at all. -/
def Action.Sooner {α : Type} (m m' : Action (World η) α) : Prop :=
  ∀ w, (m w).Sooner (m' w)

/-- In a cancelled run a computation comes to nothing more than an end. -/
def Action.Heeds {α : Type} (m : Action (World η) α) : Prop :=
  ∀ w reason, w.cancelled = some reason → Course.Sooner (.exit (.aborted reason) w) (m w)

namespace Course.Sooner

variable {α β : Type}

theorem refl (c : Course (World η) α) : c.Sooner c := by
  induction c with
  | done a w => exact .done a w
  | exit why w => exact .exit why w
  | ask p w next ih => exact .ask ih

/-- Behind a course that is over already, the rest has to heed cancellation. -/
theorem andThen {c c' : Course (World η) α} {f f' : α → World η → Course (World η) β}
    (first : c.Sooner c') (second : ∀ a, Action.Sooner (f a) (f' a))
    (heeds : ∀ a, Action.Heeds (f' a)) : (c.andThen f).Sooner (c'.andThen f') := by
  induction first with
  | done a w => exact second a w
  | exit why w => exact .exit why w
  | ask _ ih => exact .ask ih
  | @ended a w reason cancelled => exact heeds a w reason cancelled
  | overflow cancelled => exact .overflow cancelled

theorem refl_andThen (c : Course (World η) α) {f f' : α → World η → Course (World η) β}
    (second : ∀ a, Action.Sooner (f a) (f' a)) : (c.andThen f).Sooner (c.andThen f') := by
  induction c with
  | done a w => exact second a w
  | exit why w => exact .exit why w
  | ask p w next ih => exact .ask ih

theorem atEnd {c c' : Course (World η) α} {change : World η → World η} (sooner : c.Sooner c')
    (keeps : ∀ w, (change w).cancelled = w.cancelled) :
    (c.atEnd change).Sooner (c'.atEnd change) := by
  induction sooner with
  | done a w => exact .done a _
  | exit why w => exact .exit why _
  | ask _ ih => exact .ask ih
  | ended cancelled => exact .ended ((keeps _).trans cancelled)
  | overflow cancelled => exact .overflow ((keeps _).trans cancelled)

end Course.Sooner

namespace Action.Sooner

variable {α β : Type}

theorem refl (m : Action (World η) α) : m.Sooner m := fun w => .refl (m w)

theorem bind {m m' : Action (World η) α} {f f' : α → Action (World η) β} (first : m.Sooner m')
    (second : ∀ a, (f a).Sooner (f' a)) (heeds : ∀ a, (f' a).Heeds) :
    Action.Sooner (m >>= f) (m' >>= f') :=
  fun w => (first w).andThen second heeds

/-- Behind the same computation on both sides. -/
theorem after (m : Action (World η) α) {f f' : α → Action (World η) β}
    (second : ∀ a, (f a).Sooner (f' a)) : Action.Sooner (m >>= f) (m >>= f') :=
  fun w => .refl_andThen (m w) second

end Action.Sooner

namespace Action.Heeds

variable {α β : Type}

theorem pure (a : α) : Action.Heeds (Pure.pure a : Action (World η) α) :=
  fun _ _ cancelled => .ended cancelled

/-- What looks at cancellation first comes to the same end. -/
theorem check (m : Action (World η) α) : Action.Heeds (Run.checkCancelled >>= fun _ => m) := by
  intro w reason cancelled
  have ends : (Run.checkCancelled >>= fun _ => m) w = .exit (.aborted reason) w := by
    rw [Action.bind_apply, Run.checkCancelled, cancelled]
    rfl
  rw [ends]
  exact .exit _ _

end Action.Heeds

/-! ## Trees -/

namespace Run

/-- One look more at cancellation, before a computation that heeds it. -/
theorem sooner_check {α : Type} {m m' : Step η α} (sooner : m.Sooner m') (heeds : m'.Heeds) :
    Action.Sooner (checkCancelled >>= fun _ => m) m' := by
  intro w
  cases cancelled : w.cancelled with
  | none =>
    rw [Action.bind_apply, checkCancelled, cancelled]
    exact sooner w
  | some reason =>
    rw [Action.bind_apply, checkCancelled, cancelled]
    exact heeds w reason cancelled

theorem inFrame_sooner {α : Type} (name : String) {m m' : Step η α} (sooner : m.Sooner m') :
    Action.Sooner (inFrame name m) (inFrame name m') :=
  fun _ => (sooner _).atEnd fun _ => rfl

/-- A frame that is opened and closed again leaves no trace. -/
theorem inFrame_heeds {α : Type} (name : String) {m : Step η α} (heeds : m.Heeds) :
    Action.Heeds (inFrame name m) := by
  intro w reason cancelled
  have keeps (w : World η) : (w.mapScopes (·.pop)).cancelled = w.cancelled := rfl
  exact (heeds (w.mapScopes (·.push name)) reason cancelled).atEnd keeps

variable (setting : Setting η)

theorem repeatWhile_heeds (span : Span) (test : Step η Bool) (body : Step η Unit) (n : Nat) :
    Action.Heeds (repeatWhile setting span test body n) := by
  cases n <;> rw [repeatWhile] <;> exact .check _

theorem repeatWhile_sooner (span : Span) (test : Step η Bool) {body body' : Step η Unit}
    (bodies : body.Sooner body') (n : Nat) :
    Action.Sooner (repeatWhile setting span test body n)
      (repeatWhile setting span test body' n) := by
  induction n with
  | zero =>
    rw [repeatWhile, repeatWhile]
    exact .refl _
  | succ n ih =>
    rw [repeatWhile, repeatWhile]
    refine .after _ fun _ => .after _ fun again => ?_
    split
    · exact bodies.bind (fun _ => ih) fun _ => repeatWhile_heeds setting span test body' n
    · exact .refl _

theorem repeatFor_heeds (span : Span) (last step : Number) (body : Number → Step η Unit) :
    ∀ n current, Action.Heeds (repeatFor setting span last step body n current)
  | 0, _ => by
    rw [repeatFor]
    exact .check _
  | n + 1, _ => by
    rw [repeatFor]
    exact .check _

/-- Between two rounds a counted loop may overflow before it looks at cancellation. -/
theorem advanceBy_heeds {α : Type} (step current : Number) {next : Number → Step η α}
    (heeds : ∀ n, (next n).Heeds) : Action.Heeds (advanceBy step current >>= next) := by
  intro w reason cancelled
  rw [Action.bind_apply, advanceBy]
  cases current.add step with
  | ok n => exact heeds n w reason cancelled
  | error cause => exact .overflow cancelled

theorem repeatFor_sooner (span : Span) (last step : Number) {body body' : Number → Step η Unit}
    (bodies : ∀ current, (body current).Sooner (body' current)) : ∀ n current,
      Action.Sooner (repeatFor setting span last step body n current)
        (repeatFor setting span last step body' n current)
  | 0, current => by
    rw [repeatFor, repeatFor]
    exact .refl _
  | n + 1, current => by
    rw [repeatFor, repeatFor]
    refine .after _ fun _ => ?_
    split
    · refine (bodies current).bind (fun _ => ?_) fun _ => ?_
      · exact .after _ fun next => repeatFor_sooner span last step bodies n next
      · exact advanceBy_heeds step current fun next =>
          repeatFor_heeds setting span last step body' n next
    · exact .refl _

theorem executeAll_heeds (ss : List Stmt) : Action.Heeds (executeAll setting ss) := by
  cases ss with
  | nil =>
    rw [executeAll]
    exact .pure ()
  | cons s ss =>
    rw [executeAll]
    exact .check _

theorem executeBlock_heeds (name : String) (b : Block) :
    Action.Heeds (executeBlock setting name b) := by
  cases b with
  | mk span statements =>
    rw [executeBlock]
    exact inFrame_heeds name (executeAll_heeds setting statements)

mutual

theorem execute_sooner : ∀ s : Stmt,
    Action.Sooner (execute setting s) (execute setting s.uncommented)
  | .assign _ _ _ _ => by
    simp only [Stmt.uncommented]
    exact .refl _
  | .call _ => by
    simp only [Stmt.uncommented]
    exact .refl _
  | .choice _ branches none => by
    rw [Stmt.uncommented, execute, execute]
    exact (executeFirst_sooner branches).bind (fun _ => .refl _) fun _ => .pure ()
  | .choice _ branches (some otherwise) => by
    rw [Stmt.uncommented, execute, execute]
    refine (executeFirst_sooner branches).bind (fun chosen => ?_) fun chosen => ?_
    · split
      · exact .refl _
      · exact executeBlock_sooner "else" otherwise
    · split
      · exact .pure ()
      · exact executeBlock_heeds setting "else" _
  | .whileLoop span condition body => by
    rw [Stmt.uncommented, execute, execute]
    exact repeatWhile_sooner setting span _ (executeBlock_sooner "while-loop" body) _
  | .forLoop span counter first last step (.mk _ statements) => by
    rw [Stmt.uncommented, Block.uncommented, execute, execute]
    have rounds (current : Number) := inFrame_sooner "for-loop" (Action.Sooner.after
      (writeVariable span .bind counter (.ofNumber current))
      fun _ => executeAll_sooner statements)
    refine .after _ fun _ => .after _ fun _ => ?_
    cases step with
    | none | some e =>
      refine .after _ fun _ => .after _ fun _ => .after _ fun _ => .after _ fun _ => ?_
      split
      · exact .refl _
      · exact repeatFor_sooner setting span _ _ rounds _ _
  | .block body => by
    rw [Stmt.uncommented, execute, execute]
    exact executeBlock_sooner "block" body
  | .ret _ => by
    simp only [Stmt.uncommented]
    exact .refl _
  | .comment _ _ => by
    simp only [Stmt.uncommented]
    exact .refl _

theorem executeFirst_sooner : ∀ branches : List Branch,
    Action.Sooner (executeFirst setting branches)
      (executeFirst setting (branchesUncommented branches))
  | [] => by
    rw [branchesUncommented]
    exact .refl _
  | .mk _ condition body :: rest => by
    rw [branchesUncommented, executeFirst, executeFirst]
    refine .after _ fun v => ?_
    split
    · exact (executeBlock_sooner "if-branch" body).bind (fun _ => .refl _) fun _ => .pure true
    · exact executeFirst_sooner rest

theorem executeBlock_sooner (name : String) : ∀ b : Block,
    Action.Sooner (executeBlock setting name b) (executeBlock setting name b.uncommented)
  | .mk _ statements => by
    rw [Block.uncommented, executeBlock, executeBlock]
    exact inFrame_sooner name (executeAll_sooner statements)

/-- A run of statements with comments goes the same way as one without, but may end sooner once it
is cancelled. -/
theorem executeAll_sooner : ∀ ss : List Stmt,
    Action.Sooner (executeAll setting ss) (executeAll setting (stmtsUncommented ss))
  | [] => by
    rw [stmtsUncommented]
    exact .refl _
  | s :: rest => by
    have others := executeAll_sooner rest
    have heeds := executeAll_heeds setting (stmtsUncommented rest)
    rw [stmtsUncommented, executeAll]
    by_cases comment : s.isComment = true
    · rw [if_pos comment]
      cases s with
      | comment span text =>
        refine sooner_check ?_ heeds
        rw [execute]
        exact others
      | _ => cases comment
    · rw [if_neg comment, executeAll]
      exact .after _ fun _ => (execute_sooner s).bind (fun _ => others) fun _ => heeds

end

end Run

end InstallScript
