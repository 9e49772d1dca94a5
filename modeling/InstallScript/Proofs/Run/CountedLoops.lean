import InstallScript.Run.Evaluate
import InstallScript.Proofs.Number.Overflow

/-!
Counted loops over whole numbers. How often such a loop goes on is told by its bounds and its step
(`loopCount`), and the loop does nothing but to run its body that often, for one number after the
other, unless that is more often than it may (`Run.repeatFor_eq`). So a loop whose body comes to its
end each time runs exactly its range (`Run.countedLoop_exact`).
-/

namespace InstallScript

/-! ## What a computation comes to -/

/-- What a course comes to when it is told so at its questions, one after another, each time in the
state that it then finds. -/
inductive Course.Comes {σ α : Type} : Course σ α → List (Resumption × σ) → Course σ α → Prop
  | here (c : Course σ α) : Comes c [] c
  | told {p : Prompt} {s : σ} {next : Resumption → σ → Course σ α} {r : Resumption} {t : σ}
    {later : List (Resumption × σ)} {c : Course σ α} (comes : Comes (next r t) later c) :
    Comes (.ask p s next) ((r, t) :: later) c

namespace Course.Comes

variable {σ α β : Type} {c c' c'' : Course σ α} {said said' : List (Resumption × σ)}

theorem trans (first : c.Comes said c') (second : c'.Comes said' c'') :
    c.Comes (said ++ said') c'' := by
  induction first with
  | here => exact second
  | told _ ih => exact .told (ih second)

theorem andThen (comes : c.Comes said c') (f : α → σ → Course σ β) :
    (c.andThen f).Comes said (c'.andThen f) := by
  induction comes with
  | here => exact .here _
  | told _ ih => exact .told ih

theorem atEnd (comes : c.Comes said c') (change : σ → σ) :
    (c.atEnd change).Comes said (c'.atEnd change) := by
  induction comes with
  | here => exact .here _
  | told _ ih => exact .told ih

/-- A computation that comes to a value goes on with it. -/
theorem bind {m : Action σ α} {f : α → Action σ β} {s t : σ} {a : α} {d : Course σ β}
    (first : (m s).Comes said (.done a t)) (second : (f a t).Comes said' d) :
    ((m >>= f) s).Comes (said ++ said') d := (first.andThen f).trans second

/-- Computations that each come to their end do so one after another. -/
theorem forM {f : Nat → Action σ Unit} {u : Nat → σ} {replies : Nat → List (Resumption × σ)}
    {k n : Nat}
    (each : ∀ i, k ≤ i → i < k + n → (f i (u i)).Comes (replies i) (.done () (u (i + 1)))) :
    (forM (List.range' k n) f (u k)).Comes ((List.range' k n).flatMap replies)
      (.done () (u (k + n))) := by
  induction n generalizing k with
  | zero => exact .here _
  | succ n ih =>
    have rest := ih (k := k + 1) fun i above below => each i (by omega) (by omega)
    rw [Nat.add_right_comm] at rest
    rw [List.range'_succ, List.flatMap_cons]
    exact .bind (each k (Nat.le_refl k) (by omega)) rest

end Course.Comes

/-! ## The range of a loop -/

/-- How many numbers there are from the first one on, in steps, up to the last one. -/
def loopCount (first last step : Int) : Nat :=
  if (0 < step ∧ last < first) ∨ (step < 0 ∧ first < last) then 0
  else ((last - first).fdiv step + 1).toNat

/-- The range is what is reached by steps before they pass the last number. -/
theorem lt_loopCount_iff {a b s : Int} (nonzero : s ≠ 0) (k : Nat) :
    k < loopCount a b s ↔ ¬ ((0 < s ∧ b < a + k * s) ∨ (s < 0 ∧ a + k * s < b)) := by
  -- The quotient by a negative step is that of the opposite numbers by a positive one.
  rcases Int.lt_or_lt_of_ne nonzero with down | up
  · have reached : (k : Int) ≤ (b - a).fdiv s ↔ b ≤ a + k * s := by
      rw [← Int.neg_fdiv_neg, Int.fdiv_eq_ediv_of_nonneg _ (by omega),
        Int.le_ediv_iff_mul_le (by omega), Int.mul_neg]
      omega
    have sinks : k * s ≤ 0 := Int.mul_nonpos_of_nonneg_of_nonpos (by omega) (by omega)
    unfold loopCount
    split <;> omega
  · have reached : (k : Int) ≤ (b - a).fdiv s ↔ a + k * s ≤ b := by
      rw [Int.fdiv_eq_ediv_of_nonneg _ (by omega), Int.le_ediv_iff_mul_le up]
      omega
    have grows : 0 ≤ k * s := Int.mul_nonneg (by omega) (by omega)
    unfold loopCount
    split <;> omega

theorem Number.less_int (m n : Int) : (Number.int m).less (.int n) = decide (m < n) := by
  simp [Number.less, Number.compare?, Std.compare_eq_lt]

namespace Run

/-- A loop goes on as often as its range says. -/
theorem withinBounds_iff {a b s : Int} (nonzero : s ≠ 0) (k : Nat) :
    withinBounds (.int b) (.int s) (.int (a + k * s)) = true ↔ k < loopCount a b s := by
  rw [lt_loopCount_iff nonzero]
  simp only [withinBounds, Number.less_int, Bool.not_eq_true', Bool.or_eq_false_iff,
    Bool.and_eq_false_iff, decide_eq_false_iff_not]
  omega

/-! ## Loops -/

variable {η : Type} (setting : Setting η)

/-- A counted loop runs its body for the numbers of its range, one after another, and looks at the
cancellation before each of them and at the end. If the range is longer than the loop may be, it
fails there. -/
theorem repeatFor_eq {a b s : Int} (nonzero : s ≠ 0) (span : Span)
    (body : Number → Step η Unit) (n k : Nat) :
    repeatFor setting span (.int b) (.int s) body n (.int (a + k * s)) = (do
      forM (List.range' k (min (loopCount a b s - k) n)) fun (i : Nat) => do
        checkCancelled
        body (.int (a + i * s))
      checkCancelled
      if loopCount a b s ≤ k + n then return ()
      else Action.fail (.tooManyIterations setting.maxIterations) span) := by
  -- On how often the loop may still go on; `k` is how often it has.
  induction n generalizing k with
  | zero =>
    rw [repeatFor, Nat.min_zero, Nat.add_zero]
    simp only [withinBounds_iff nonzero]
    by_cases more : k < loopCount a b s
    · simp only [if_pos more, if_neg (Nat.not_le.2 more)]
      rfl
    · simp only [if_neg more, if_pos (Nat.not_lt.1 more)]
      rfl
  | succ n ih =>
    rw [repeatFor]
    simp only [withinBounds_iff nonzero]
    by_cases more : k < loopCount a b s
    · have next : a + k * s + s = a + ((k + 1 : Nat) : Int) * s := by
        rw [Int.natCast_add, Int.add_mul]
        omega
      have count : min (loopCount a b s - k) (n + 1) =
          min (loopCount a b s - (k + 1)) n + 1 := by omega
      have limit : k + 1 + n = k + (n + 1) := by omega
      have advance : advanceBy (.int s) (.int (a + k * s)) =
          (pure (.int (a + (k + 1 : Nat) * s)) : Step η Number) := by
        rw [← next]
        rfl
      simp only [if_pos more, advance, pure_bind]
      rw [ih, limit, count, List.range'_succ, List.forM_cons]
      simp only [bind_assoc]
    · have count : min (loopCount a b s - k) (n + 1) = 0 := by omega
      have short : loopCount a b s ≤ k + (n + 1) := by omega
      rw [count]
      simp only [if_neg more, if_pos short]
      rfl

/-- The value of the step of a counted loop, which is one if none is given. -/
def stepValue : Option Expr → Step η Value
  | some e => evaluate setting e
  | none => Action.pure (.ofInt 1)

/-- The body of a counted loop, for one number. -/
def iteration (span : Span) (counter : String) (statements : List Stmt) (current : Number) :
    Step η Unit :=
  inFrame "for-loop" do
    writeVariable span .bind counter (.ofNumber current)
    executeAll setting statements

/-- A world in which the body of a counted loop begins: there is a new frame, and it holds the
counter. -/
def beginIteration (counter : String) (n : Int) (w : World η) : World η :=
  w.mapScopes fun s => (s.push "for-loop").bind counter (.ofInt n)

theorem beginIteration_counter (counter : String) (n : Int) (w : World η) :
    (beginIteration counter n w).context.scopes.get? counter = some (.ofInt n) :=
  Scopes.get?_bind_self _ counter (.ofInt n)

/-- The body of a counted loop comes to its end for as many numbers, from the first one on, and goes
from one world to the next. The run is not cancelled in between. -/
structure Iterates (counter : String) (statements : List Stmt) (first step : Int) (n : Nat)
    (replies : Nat → List (Resumption × World η)) (u : Nat → World η) : Prop where
  runs : ∀ k < n, ∃ w, (executeAll setting statements
    (beginIteration counter (first + k * step) (u k))).Comes (replies k) (.done () w) ∧
      u (k + 1) = w.mapScopes (·.pop)
  uncancelled : ∀ k ≤ n, (u k).cancelled = none

theorem checkCancelled_eq {w : World η} (uncancelled : w.cancelled = none) :
    (checkCancelled w : Course (World η) Unit) = .done () w := by
  rw [checkCancelled, uncancelled]

section

variable {setting} {counter : String} {statements : List Stmt} {u : Nat → World η}
  {replies : Nat → List (Resumption × World η)}

theorem Iterates.once {first step : Int} {n : Nat}
    (iterates : Iterates setting counter statements first step n replies u) (span : Span) {k : Nat}
    (below : k < n) :
    ((checkCancelled >>= fun _ =>
      iteration setting span counter statements (.int (first + k * step))) (u k)).Comes (replies k)
        (.done () (u (k + 1))) := by
  obtain ⟨w, comes, next⟩ := iterates.runs k below
  have goesOn := checkCancelled_eq (iterates.uncancelled k (Nat.le_of_lt below))
  rw [next, Action.bind_apply, goesOn]
  exact comes.atEnd (·.mapScopes (·.pop))

/-- A loop whose body comes to its end runs its range, or as much of it as it may. -/
theorem Iterates.loop {a b s : Int} (nonzero : s ≠ 0)
    (iterates : Iterates setting counter statements a s
      (min (loopCount a b s) setting.maxIterations) replies u) (span : Span) :
    (repeatFor setting span (.int b) (.int s) (iteration setting span counter statements)
      setting.maxIterations (.int a) (u 0)).Comes
        ((List.range (min (loopCount a b s) setting.maxIterations)).flatMap replies)
        (if loopCount a b s ≤ setting.maxIterations then .done () (u (loopCount a b s))
        else .exit (.failed ⟨.tooManyIterations setting.maxIterations, some span, none⟩)
          (u setting.maxIterations)) := by
  have range := repeatFor_eq setting (a := a) (b := b) nonzero span
    (iteration setting span counter statements) setting.maxIterations 0
  rw [Nat.sub_zero, Int.natCast_zero, Int.zero_mul, Int.add_zero, Nat.zero_add] at range
  have each : ∀ i, 0 ≤ i → i < 0 + min (loopCount a b s) setting.maxIterations → _ :=
    fun i _ below => iterates.once span (Nat.lt_of_lt_of_eq below (Nat.zero_add _))
  have all := Course.Comes.forM each
  have goesOn := checkCancelled_eq (iterates.uncancelled _ (Nat.le_refl _))
  rw [range, List.range_eq_range', ← List.append_nil (List.flatMap ..)]
  refine all.bind ?_
  rw [Nat.zero_add, Action.bind_apply, goesOn]
  by_cases short : loopCount a b s ≤ setting.maxIterations
  · rw [if_pos short, if_pos short, Nat.min_eq_left short]
    exact .here _
  · rw [if_neg short, if_neg short, Nat.min_eq_right (Nat.le_of_not_le short)]
    exact .here _

/-- A counted loop over whole numbers evaluates its three expressions in turn and then runs exactly
its range: as often as the range says, each time in a new frame in which the counter is the next
number, whatever the earlier times have made of it. If the loop may not run so often, it runs as
often as it may and fails. -/
theorem countedLoop_exact {span bodySpan : Span} {first last : Expr} {step : Option Expr}
    {a b s : Int} (nonzero : s ≠ 0) {w w₁ w₂ : World η}
    {said₁ said₂ said₃ : List (Resumption × World η)}
    (starts : (evaluate setting first w).Comes said₁ (.done (.ofInt a) w₁))
    (ends : (evaluate setting last w₁).Comes said₂ (.done (.ofInt b) w₂))
    (steps : (stepValue setting step w₂).Comes said₃ (.done (.ofInt s) (u 0)))
    (iterates : Iterates setting counter statements a s
      (min (loopCount a b s) setting.maxIterations) replies u) :
    (execute setting (.forLoop span counter first last step (.mk bodySpan statements)) w).Comes
      (said₁ ++ (said₂ ++ (said₃ ++
        (List.range (min (loopCount a b s) setting.maxIterations)).flatMap replies)))
      (if loopCount a b s ≤ setting.maxIterations then .done () (u (loopCount a b s))
      else .exit (.failed ⟨.tooManyIterations setting.maxIterations, some span, none⟩)
        (u setting.maxIterations)) ∧
      (Fault.tooManyIterations setting.maxIterations).code = "E404" ∧
      ∀ k : Nat, (beginIteration counter (a + k * s) (u k)).context.scopes.get? counter =
        some (.ofInt (a + k * s)) := by
  have loop := iterates.loop nonzero span
  have proper := Bool.eq_false_iff.1 ((Number.isZero_int s).2 nonzero)
  have goes : (if (Number.int s).isZero then Action.fail .zeroStep span
      else repeatFor setting span (.int b) (.int s) (iteration setting span counter statements)
        setting.maxIterations (.int a) : Step η Unit) = repeatFor setting span (.int b) (.int s)
          (iteration setting span counter statements) setting.maxIterations (.int a) :=
    if_neg proper
  rw [← goes] at loop
  rw [execute]
  refine ⟨starts.bind (ends.bind ?_), rfl, fun k => beginIteration_counter _ _ _⟩
  cases step <;> exact steps.bind loop

end

/-- A loop from 5 down to 0 by twos, whose body changes the counter. -/
def countdown : Stmt :=
  .forLoop default "i" (.literal default (.number (.int 5))) (.literal default (.number (.int 0)))
    (some (.unary default .minus (.literal default (.number (.int 2)))))
    (.mk default [.assign default .bind "i" (.literal default (.number (.int 100)))])

/-- What it is run with if it may run its body so often. -/
def quietSetting (maxIterations : Nat) : Setting Unit where
  catalog := ⟨[]⟩
  host _ _ directory h := .ofValue h directory .none
  maxIterations

/-- It runs its body three times, or fails if it may not. -/
theorem countdown_exact :
    loopCount 5 0 (-2) = 3 ∧
      (execute (quietSetting 3) countdown ⟨{}, (), none, #[], #[]⟩).Comes []
        (.done () ⟨{}, (), none, #[], #[]⟩) ∧
      (execute (quietSetting 2) countdown ⟨{}, (), none, #[], #[]⟩).Comes []
        (.exit (.failed ⟨.tooManyIterations 2, some default, none⟩) ⟨{}, (), none, #[], #[]⟩) := by
  have all (limit : Nat) : (execute (quietSetting limit) countdown _).Comes _ _ ∧ _ :=
    countedLoop_exact (a := 5) (b := 0) (s := -2) (u := fun _ => ⟨{}, (), none, #[], #[]⟩)
      (by decide) (.here _) (.here _) (.here _) ⟨fun k _ => ⟨_, .here _, rfl⟩, fun _ _ => rfl⟩
  exact ⟨by decide, (all 3).1, (all 2).1⟩

end Run

end InstallScript
