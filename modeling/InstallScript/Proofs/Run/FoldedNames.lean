import InstallScript.Proofs.Catalog.FoldedChecks
import InstallScript.Proofs.Run.AgreeingSessions
import InstallScript.Proofs.Run.Confinement

/-!
Runs of scripts whose names differ in letter case only. Where letter case does not count in names of
variables, such scripts come to the same: the same calls and questions, the same variables, and the
same end as far as it does not spell their names (`runs_fold_names`).
-/

namespace InstallScript

/-- Agreement aside from letter case. The names of the variables are kept in their folded forms, so
even these are the same. -/
def Accord.folding : Accord where
  caseSensitive := false
  bindable _ := True
  replaced _ _ := False
  exact := False

theorem Kinship.folding_keeps : Kinship.folding.Keeps .folding where
  span _ exact := exact.elim
  target folds := ⟨trivial, folds, False.elim⟩
  read := by
    rintro span name e ⟨span', name', rfl, folds⟩
    exact .inl ⟨span', name', rfl, folds, False.elim⟩
  call heads := ⟨heads.1, heads.2, False.elim⟩

theorem World.agrees_folding {η : Type} {world : World η}
    (folds : world.context.scopes.caseSensitive = false) (lines lines' : List String) :
    (world.mapContext fun c => { c with sourceLines := lines }).Agrees .folding
      (world.mapContext fun c => { c with sourceLines := lines' }) :=
  ⟨rfl, rfl, rfl, rfl, rfl, rfl, rfl, ⟨folds, fun _ _ => trivial, fun _ _ _ _ => trivial⟩,
    False.elim⟩

/-- What the bundled dialects do when a run is over does not depend on how names are spelt. -/
theorem Dialect.finisher_fair {d : Dialect} (bundled : d ∈ bundled) (a : Accord) :
    d.finisher.Fair a := by
  rcases bundled_finisher bundled with same | same
  · rw [same]
    exact Installation.settleEdits_fair
  · rw [same]
    exact Finisher.idle_fair

/-- What a result tells: how the run has ended, the code of its error, the reason given for an
abort, and its warnings. -/
def RunResult.told (r : RunResult) :
    RunStatus × Option String × Option String × List (String × String) :=
  (r.status, r.error.map (·.code), r.abortReason, r.warnings.map Diagnostic.said)

theorem RunResult.Agrees.told {a : Accord} {r r' : RunResult} (agrees : r.Agrees a r') :
    r'.told = r.told := by
  rw [RunResult.told, RunResult.told, agrees.status, agrees.error, agrees.abortReason,
    agrees.warnings]

/-- Two scripts whose names differ in letter case only, and that may come from other texts, make the
same calls and ask the same questions under the same moves, leave the same variables and tell the
same in the end; and a check that does not go by letter case finds the same wrong with them. -/
theorem runs_fold_names {η : Type} {script script' : Block} (kin : script.Kin .folding script')
    (setting : Setting η) {world : World η} (folds : world.context.scopes.caseSensitive = false)
    (lines lines' : List String) {finisher : Finisher η} (fair : finisher.Fair .folding)
    (moves : List Session.Move) (maxErrors : Int) :
    let run (script : Block) (lines : List String) := Session.ofScript setting script
      (world.mapContext fun c => { c with sourceLines := lines }) finisher
    let check (script : Block) (lines : List String) :=
      ((Checker.mk setting.catalog false lines).check script maxErrors).diagnostics.toList
    let first := moves.foldl Session.move (run script lines)
    let second := moves.foldl Session.move (run script' lines')
    ((run script lines).reports moves).filterMap Report.prompt? =
        ((run script' lines').reports moves).filterMap Report.prompt? ∧
      first.world.calls = second.world.calls ∧
      first.world.host = second.world.host ∧
      first.world.context.scopes = second.world.context.scopes ∧
      first.result?.map RunResult.told = second.result?.map RunResult.told ∧
      (check script lines).map (·.code) = (check script' lines').map (·.code) := by
  intro run check first second
  have alike : (Checker.mk setting.catalog false lines).Alike
      (Checker.mk setting.catalog false lines') := ⟨rfl, rfl, rfl⟩
  have codes : (check script lines).map (·.code) = (check script' lines').map (·.code) :=
    Block.Kin.check_codes alike kin maxErrors
  have agrees : (run script lines).Agrees .folding (run script' lines') :=
    Session.ofScript_agrees Kinship.folding_keeps setting kin
      (World.agrees_folding folds lines lines') finisher
  rcases agrees.moves ⟨fair, False.elim⟩ moves with
    ⟨prompts, agrees⟩ | ⟨-, ⟨_, _, _, _, replaced, _⟩, -⟩
  · refine ⟨prompts, agrees.worlds.calls.symm, agrees.worlds.host.symm, agrees.worlds.scopes.symm,
      ?_, codes⟩
    rcases agrees.results with ⟨none, none'⟩ | ⟨r, r', some, some', results⟩
    · rw [none, none']
    · rw [some, some', Option.map_some, Option.map_some, results.told]
  · exact replaced.elim

/-- A host that takes everything it is shown. -/
def viewer : Setting Unit where
  catalog := { functions := [{ name := "Show", params := [⟨"text", .any, none⟩] }] }
  host _ _ directory state := .ofValue state directory .none

/-- A script that shows the numbers up to two, with its names spelt as given. -/
def countToTwo (limit limit' counter counter' called keyword : String) : Block :=
  let shown : Expr := .var default counter'
  .mk default [.assign default .bind limit (.literal default (.number (.int 2))),
    .forLoop default counter (.literal default (.number (.int 1))) (.var default limit') none
      (.mk default [.call (.mk default called [] [.mk default keyword shown])])]

/-- The script in two spellings shows two numbers. -/
theorem countToTwo_folds :
    let script := countToTwo "Limit" "LIMIT" "N" "n" "show" "Text"
    let script' := countToTwo "limit" "Limit" "n" "N" "SHOW" "TEXT"
    let world : World Unit := ⟨{}, (), none, #[], #[]⟩
    script.Kin .folding script' ∧ world.context.scopes.caseSensitive = false ∧
      (Finisher.idle : Finisher Unit).Fair .folding ∧
      (Session.ofScript viewer script world).start.2.world.calls.size = 2 ∧
      (Session.ofScript viewer script world).start.2.world.calls =
        (Session.ofScript viewer script' world).start.2.world.calls := by
  intro script script' world
  have limit : Text.fold "Limit" = Text.fold "limit" := by decide +kernel
  have counter : Text.fold "N" = Text.fold "n" := by decide +kernel
  have kin : script.Kin .folding script' :=
    .mk (.cons (.assign trivial limit .literal) (.cons
      (.forLoop trivial counter .literal (.var ⟨_, _, rfl, by decide +kernel⟩) (.mk (.cons
        (.call (.mk ⟨by decide +kernel, by decide +kernel⟩ .nil
          (.cons (.var ⟨_, _, rfl, by decide +kernel⟩) .nil))) .nil))) .nil))
  have made : (Session.ofScript viewer script world).start.2.world.calls.size = 2 := by
    decide +kernel
  have folds : world.context.scopes.caseSensitive = false := rfl
  have same := runs_fold_names kin viewer folds [] [] Finisher.idle_fair [.start] 20
  exact ⟨kin, folds, Finisher.idle_fair, made, same.2.1⟩

end InstallScript
