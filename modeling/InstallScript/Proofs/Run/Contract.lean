import InstallScript.Course

/-!
Statements about computations that may stop and ask. A contract says what holds when a computation
waits, how it may be told to go on, and what holds when it comes to an exit. A course meets it if
this is so at every stop that it can come to, for all replies (`Course.Meets`); a computation meets
it from the states that its precondition allows (`Action.Meets`). There is one rule for each way in
which computations are put together.
-/

namespace InstallScript

/-- What holds when a computation waits or ends early, and how it may be told to go on. -/
structure Contract (σ : Type) where
  waits : Prompt → σ → Prop
  /-- From the state in which it waits, the reply and the state in which it goes on. -/
  resumes : σ → Resumption → σ → Prop
  exits : Exit → σ → Prop

variable {σ α β : Type}

/-- The contract is kept at every stop, and the postcondition holds at the end. -/
def Course.Meets (k : Contract σ) (post : α → σ → Prop) : Course σ α → Prop
  | .done a s => post a s
  | .exit why s => k.exits why s
  | .ask p s next => k.waits p s ∧ ∀ r t, k.resumes s r t → (next r t).Meets k post

namespace Course

variable {k k' : Contract σ} {post : α → σ → Prop} {post' : β → σ → Prop}

/-- A contract may be replaced by a weaker one. -/
theorem Meets.mono {final : α → σ → Prop} {c : Course σ α} (meets : c.Meets k post)
    (waits : ∀ p s, k.waits p s → k'.waits p s)
    (resumes : ∀ s r t, k'.resumes s r t → k.resumes s r t)
    (exits : ∀ why s, k.exits why s → k'.exits why s)
    (weaker : ∀ a s, post a s → final a s) : c.Meets k' final := by
  induction c with
  | done a s => exact weaker a s meets
  | exit why s => exact exits why s meets
  | ask p s next ih =>
    exact ⟨waits p s meets.1, fun r t told => ih r t (meets.2 r t (resumes s r t told))⟩

/-- What holds at the end may be weakened. -/
theorem Meets.imp {final : α → σ → Prop} {c : Course σ α} (meets : c.Meets k post)
    (weaker : ∀ a s, post a s → final a s) : c.Meets k final :=
  meets.mono (fun _ _ => id) (fun _ _ _ => id) (fun _ _ => id) weaker

/-- One computation after another. -/
theorem Meets.andThen {c : Course σ α} {f : α → σ → Course σ β} (first : c.Meets k post)
    (second : ∀ a s, post a s → (f a s).Meets k post') : (c.andThen f).Meets k post' := by
  induction c with
  | done a s => exact second a s first
  | exit why s => exact first
  | ask p s next ih => exact ⟨first.1, fun r t resumes => ih r t (first.2 r t resumes)⟩

/-- What is changed at the end has to be changed in the contract's exits as well. -/
theorem Meets.atEnd {change : σ → σ} {final : α → σ → Prop} {c : Course σ α}
    (meets : c.Meets k post)
    (waits : ∀ p s, k.waits p s → k'.waits p s)
    (resumes : ∀ s r t, k'.resumes s r t → k.resumes s r t)
    (exits : ∀ why s, k.exits why s → k'.exits why (change s))
    (done : ∀ a s, post a s → final a (change s)) : (c.atEnd change).Meets k' final := by
  induction c with
  | done a s => exact done a s meets
  | exit why s => exact exits why s meets
  | ask p s next ih =>
    refine ⟨waits p s meets.1, fun r t told => ?_⟩
    exact ih r t (meets.2 r t (resumes s r t told))

end Course

/-- The contract that everything keeps. -/
def Contract.any : Contract σ := ⟨fun _ _ => True, fun _ _ _ => True, fun _ _ => True⟩

theorem Course.meets_any (c : Course σ α) : c.Meets Contract.any fun _ _ => True := by
  induction c with
  | done a s => trivial
  | exit why s => trivial
  | ask p s next ih => exact ⟨trivial, fun r t _ => ih r t⟩

/-- From every state that the precondition allows the contract is kept. -/
def Action.Meets (k : Contract σ) (pre : σ → Prop) (m : Action σ α) (post : α → σ → Prop) : Prop :=
  ∀ s, pre s → (m s).Meets k post

namespace Action.Meets

variable {k : Contract σ} {pre : σ → Prop} {post : α → σ → Prop} {final : β → σ → Prop}

theorem pure {a : α} (holds : ∀ s, pre s → post a s) :
    Action.Meets k pre (Pure.pure a : Action σ α) post :=
  holds

theorem leave {why : Exit} (exits : ∀ s, pre s → k.exits why s) :
    Action.Meets k pre (Action.leave why : Action σ α) post :=
  exits

theorem bind {m : Action σ α} {next : α → Action σ β} (first : Action.Meets k pre m post)
    (second : ∀ a, Action.Meets k (post a) (next a) final) :
    Action.Meets k pre (m >>= next) final :=
  fun s holds => (first s holds).andThen fun a t => second a t

/-- The precondition may be strengthened. -/
theorem weaken {m : Action σ α} {stronger : σ → Prop} (meets : Action.Meets k pre m post)
    (implies : ∀ s, stronger s → pre s) : Action.Meets k stronger m post :=
  fun s holds => meets s (implies s holds)

/-- A bracket around a computation that keeps an invariant, if both changes keep it. -/
theorem within {m : Action σ α} {before after : σ → σ} (opens : ∀ s, pre s → pre (before s))
    (inner : Action.Meets k pre m post) (exits : ∀ why s, k.exits why s → k.exits why (after s))
    (closes : ∀ a s, post a s → post a (after s)) :
    Action.Meets k pre (Action.within before after m) post :=
  fun s holds => (inner (before s) (opens s holds)).atEnd (fun _ _ => id) (fun _ _ _ => id) exits
    closes

end Action.Meets

end InstallScript
