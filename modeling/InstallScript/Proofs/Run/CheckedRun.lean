import InstallScript.Proofs.Run.CatalogUse
import InstallScript.Proofs.Run.History

/-!
Runs of scripts that compile. A script that compiles against the catalog of a definition makes only
calls that fit the catalog, whatever the host, the user and the settings do, up to arguments of the
wrong kind, which are never literals (`compiled_run_fits_catalog`). The contract that execution
keeps is carried from move to move of a session.
-/

namespace InstallScript

/-- The error of a result is one that the contract of checked calls allows. -/
def RunResult.Respects (catalog : Catalog) (scope : Call → Prop) (result : RunResult) : Prop :=
  ∀ d, result.error = some d → ∃ e : ScriptError, (Exit.failed e).Respects catalog scope ∧
    d.code = e.fault.code ∧ d.message = e.fault.message ∧ d.span = e.span

section

variable {η : Type} {catalog : Catalog} {scope : Call → Prop} {earlier : List (String × Arguments)}

namespace Session

theorem resultOf_respects {w : World η} {status : RunStatus} {reason : Option String} :
    (resultOf w status none reason).Respects catalog scope :=
  fun _ eq => nomatch eq

theorem resultOfExit_respects {w : World η} {why : Exit} {result : RunResult}
    (respects : why.Respects catalog scope) (eq : resultOfExit w why = .ok result) :
    result.Respects catalog scope := by
  cases why with
  | returned =>
    cases eq
    exact resultOf_respects
  | aborted reason =>
    cases eq
    exact resultOf_respects
  | failed e =>
    cases eq
    intro d shown
    cases shown
    refine ⟨e, respects, ?_⟩
    simp [ScriptError.diagnostic]
  | crashed defect => cases eq

/-- The contract does not look at the cancellation. -/
theorem catalog_lasts :
    (catalogContract η catalog scope earlier).Lasts (·.CallsFit catalog earlier) where
  cancelled _ fits := fits
  waiting _ fits := fits
  resumes _ resumes := resumes
  dropped fits _ := ⟨trivial, fits⟩

/-- No move but a failure that is set from outside tells a waiting run what the contract does not
allow. -/
theorem Move.tells_allowed {m : Move} (noFailure : ∀ error, m ≠ .fail error) {r : Resumption}
    (told : m.told? = some r) (w : World η) :
    (catalogContract η catalog scope earlier).resumes w r w := by
  refine ⟨rfl, ?_⟩
  rintro error rfl
  cases m with
  | fail error' => exact noFailure error' rfl
  | _ => cases told

theorem Over.respects {finisher : Finisher η} {result : RunResult} {world : World η}
    (keeps : finisher.KeepsRun)
    (ended : Over (catalogContract η catalog scope earlier) finisher result world) :
    result.Respects catalog scope ∧ world.CallsFit catalog earlier := by
  obtain @⟨why, v, noted, before, cancelled, ⟨respects, fits⟩, results, rfl, rfl, rfl⟩ := ended
  have calls := keeps.effect_calls (some before) (v.note .info .runs ("script " ++ before.summary))
  refine ⟨fun d shown => ?_, Run.CallsFit.of_calls_eq fits calls⟩
  rw [keeps.effect_error] at shown
  exact resultOfExit_respects respects results d shown

/-- What a session shows under the contract. -/
theorem Upholds.respects {s : Session η} (keeps : s.finisher.KeepsRun)
    (upholds : s.Upholds (catalogContract η catalog scope earlier) (·.CallsFit catalog earlier)) :
    s.world.CallsFit catalog earlier ∧
      ∀ result, s.phase = .finished result → result.Respects catalog scope := by
  cases phase : s.phase with
  | fresh program => exact ⟨(upholds.fresh phase).1, fun _ other => nomatch other⟩
  | waiting p next => exact ⟨(upholds.waiting phase).1, fun _ other => nomatch other⟩
  | finished result =>
    obtain ⟨respects, fits⟩ := (upholds.finished phase).respects keeps
    exact ⟨fits, fun _ same => by cases same; exact respects⟩
  | broken last =>
    obtain ⟨d, v, exits, later⟩ := upholds.broken phase
    have calls := later.preserves (·.calls) (fun _ _ => rfl) (keeps.effect_calls none)
    exact ⟨Run.CallsFit.of_calls_eq exits.2 calls, fun _ other => nomatch other⟩

end Session

end

/-! ## Scripts that compile -/

theorem FunctionSpec.Fits.forall₂ {f : FunctionSpec} {arguments : Arguments}
    (fits : f.Fits arguments) :
    List.Forall₂ (fun p entry => entry.1 = p.name ∧ p.kind.accepts entry.2.kind = true ∧
      entry.2 ≠ .void) f.params arguments := by
  refine List.Forall₂.imp (fun p entry ⟨name, accepts⟩ => ⟨name, accepts, ?_⟩) fits
  intro void
  rw [void] at accepts
  cases kind : p.kind <;> rw [kind] at accepts <;> cases accepts

/-- A run of a script that compiles, whatever the host, the user and the settings do, short of
ending it with an error of their own: it does not end because a function is unknown or a call does
not have its shape; if it ends because of the kind of an argument, that argument is no literal; and
every call that reaches the host gives each parameter one value that it accepts. -/
theorem compiled_run_fits_catalog {η : Type} (datum : Datum) (definition : Definition)
    (loaded : Definition.ofDatum? datum = .ok definition)
    (distinct : ∀ f ∈ definition.catalog.functions, (f.params.map fun p => Text.fold p.name).Nodup)
    (g : Grammar) (caseSensitive : Bool) (source : Source) (script : Block)
    (compiled : compile definition.catalog g caseSensitive source = .ok script)
    (setting : Setting η) (same : setting.catalog = definition.catalog) (world : World η)
    (finisher : Finisher η) (keeps : finisher.KeepsRun) (moves : List Session.Move)
    (noFailure : ∀ error, .fail error ∉ moves) :
    let session := moves.foldl Session.move (Session.ofScript setting script world finisher)
    (∀ result d, session.phase = .finished result → result.error = some d →
      d.code ≠ "E203" ∧ d.code ≠ "E201" ∧
        (d.code = "E202" → ∃ c fault, Node.expr (.call c) ∈ script.walk ∧
          c.Misfit definition.catalog fault ∧ d.message = fault.message ∧ d.span = some c.span)) ∧
      ∃ later, session.world.calls.toList = world.calls.toList ++ later ∧
        ∀ call ∈ later, ∃ f ∈ definition.catalog.functions, call.1 = f.name ∧
          List.Forall₂ (fun p entry => entry.1 = p.name ∧ p.kind.accepts entry.2.kind = true ∧
            entry.2 ≠ .void) f.params call.2 := by
  intro session
  obtain ⟨checker, assigned, catalogEq, noErrors⟩ := nodeErrors_of_compile compiled
  obtain ⟨span, statements⟩ := script
  have checked : Run.Checked setting checker
      (fun c => Node.expr (.call c) ∈ (Block.mk span statements).walk) := by
    refine ⟨same.trans catalogEq.symm, ?_, ?_, fun c member => noErrors _ member⟩
    · intro f declared
      have folded : ((f.params.map (·.name)).map Text.fold).Nodup := by
        rw [List.map_map]
        exact distinct f (catalogEq ▸ declared)
      exact folded.of_map
    · rw [catalogEq]
      exact Definition.ofDatum?_defaults loaded
  have within : Run.Within (fun c => Node.expr (.call c) ∈ (Block.mk span statements).walk)
      (walkStmts statements) := fun c member => List.mem_cons_of_mem _ member
  have start : (Session.ofScript setting (Block.mk span statements) world finisher).Upholds
      (catalogContract η checker.catalog
        (fun c => Node.expr (.call c) ∈ (Block.mk span statements).walk) world.calls.toList)
      (·.CallsFit checker.catalog world.calls.toList) := by
    refine ⟨⟨[], (List.append_nil _).symm, List.forall_mem_nil _⟩, fun w fits => ?_⟩
    exact (Run.executeAll_keeps checked statements within w fits).imp fun _ _ => id
  have upholds := Session.moves_uphold Session.catalog_lasts
    (fun m member r told w => Session.Move.tells_allowed
      (fun error eq => noFailure error (eq ▸ member)) told w) start
  obtain ⟨⟨later, callsEq, each⟩, phase⟩ := upholds.respects <| by
    rw [Session.moves_finisher]
    exact keeps
  rw [catalogEq] at each phase
  refine ⟨fun result d finished shown => ?_, later, callsEq, fun call member => ?_⟩
  · obtain ⟨e, ⟨not203, not201, misfit⟩, code, message, place⟩ := phase result finished d shown
    rw [code]
    refine ⟨not203, not201, fun isKind => ?_⟩
    obtain ⟨c, inScript, misfit, spanEq⟩ := misfit isKind
    exact ⟨c, e.fault, inScript, misfit, message, place.trans spanEq⟩
  · obtain ⟨f, declared, name, fits⟩ := each call member
    exact ⟨f, declared, name, fits.forall₂⟩

/-- The data of a dialect whose one function has a parameter with a default. -/
def greetingData : Datum :=
  .mapping
    [(.text "dialect", .text "greeting"), (.text "grammar", .number (.int 2)),
      (.text "functions", .mapping
        [(.text "Greet", .mapping
          [(.text "on_failure", .text "fatal"),
            (.text "params", .list
              [.mapping [(.text "name", .text "whom"), (.text "kind", .text "string")],
                .mapping [(.text "name", .text "times"), (.text "kind", .text "number"),
                  (.text "default", .number (.int 1))]])])])]

/-- A script that leaves out the argument with the default and gives the other one by name. -/
def greeting : Source := ⟨"x = \"you\"\nGreet(whom = x)".toList, none⟩

/-- A host that does nothing. -/
def greeter (catalog : Catalog) : Setting Unit :=
  { catalog, host := fun _ _ directory state => .ofValue state directory .none }

/-- A run of the script, as far as it gets by itself. -/
def greetingRun (catalog : Catalog) (script : Block) : Session Unit :=
  [Session.Move.start].foldl Session.move
    (Session.ofScript (greeter catalog) script ⟨{}, (), none, #[], #[]⟩ Finisher.idle)

theorem greetingRun_fits : ∃ definition script, Definition.ofDatum? greetingData = .ok definition ∧
    compile definition.catalog .second false greeting = .ok script ∧
      (greetingRun definition.catalog script).world.calls.size = 1 ∧
        ∀ call ∈ (greetingRun definition.catalog script).world.calls.toList,
          ∃ f ∈ definition.catalog.functions, call.1 = f.name ∧
            List.Forall₂ (fun p entry => entry.1 = p.name ∧ p.kind.accepts entry.2.kind = true ∧
              entry.2 ≠ .void) f.params call.2 := by
  have fact : (match Definition.ofDatum? greetingData with
      | .ok d =>
        match compile d.catalog .second false greeting with
        | .ok script => decide ((greetingRun d.catalog script).world.calls.size = 1 ∧
            ∀ f ∈ d.catalog.functions, (f.params.map fun p => Text.fold p.name).Nodup)
        | .error _ => false
      | .error _ => false) = true := by decide +kernel
  cases loaded : Definition.ofDatum? greetingData with
  | error e =>
    rw [loaded] at fact
    cases fact
  | ok definition =>
    rw [loaded] at fact
    dsimp only at fact
    cases compiled : compile definition.catalog .second false greeting with
    | error e =>
      rw [compiled] at fact
      cases fact
    | ok script =>
      rw [compiled] at fact
      obtain ⟨once, distinct⟩ := of_decide_eq_true fact
      obtain ⟨-, later, eq, each⟩ := compiled_run_fits_catalog greetingData definition loaded
        distinct .second false greeting script compiled (greeter definition.catalog) rfl
        ⟨{}, (), none, #[], #[]⟩ Finisher.idle Finisher.idle_keepsRun [.start] (by simp)
      refine ⟨definition, script, rfl, compiled, once, ?_⟩
      intro call member
      rw [greetingRun, eq] at member
      exact each call member

end InstallScript
