import InstallScript.Proofs.Files.Handlers
import InstallScript.Proofs.Run.HostInvariants
import InstallScript.Proofs.Run.Finishers
import InstallScript.Proofs.Settings.Updates

/-!
Settings files that cannot be changed. When a run of State of Decay has succeeded, the files for
which changes are queued have their turn one after another, and none of them depends on what comes
of the others: a file that fails is left as it is, and one warning tells about it
(`failing_files_isolated`).
-/

namespace InstallScript

open Installation Dialect

/-! ## What the finisher does -/

namespace Installation

/-- What comes of the files when a run has succeeded. -/
theorem settleEdits_updated {result : RunResult} (success : result.status = .success)
    (w : World Installation) :
    ∃ failures, Updated w.host.target w.host.pendingEdits w.host.files
        (editedFiles w.host.pendingEdits) (settleEdits.effect (some result) w).2.host.files
        failures ∧
      let warnings := failures.map (updateWarning w.host.target w.context)
      (settleEdits.effect (some result) w).1 =
          some { result with warnings := result.warnings ++ warnings } ∧
        (settleEdits.effect (some result) w).2.context.warnings.toList =
          w.context.warnings.toList ++ warnings := by
  rcases settleEdits_cases (some result) w with
    ⟨empty | other, eq⟩ | ⟨r, given, -, eq⟩ | ⟨r, _, given, other, -⟩
  · rw [eq, empty]
    exact ⟨[], .nil, by simp, by simp⟩
  · cases other
  · cases given
    rw [eq]
    obtain ⟨failures, updated, warned, warned'⟩ := updateFiles_updated w.host.pendingEdits
      (editedFiles w.host.pendingEdits) result w
    exact ⟨failures, updated, congrArg some warned, warned'⟩
  · cases given
    exact absurd success other

end Installation

/-! ## Sessions -/

/-- Two sessions of which one is finished alike end with the same status. -/
theorem Session.Settles.status {η : Type} {s s' : Session η} (settles : s.Settles s')
    (keeps : s.finisher.KeepsStatus) :
    s.result?.map (·.status) = s'.result?.map (·.status) := by
  cases settles with
  | before noResult eq =>
    subst eq
    rfl
  | @after result w _ _ ended _ settled _ =>
    rw [Session.result?_eq_some_iff.2 ended, Session.result?_eq_some_iff.2 settled]
    exact congrArg some (keeps result w)

section

variable (config : Config) (script : Block) (world : World Installation)
  (moves : List Session.Move)

/-- The session of State of Decay in which settings files are left as they are. -/
def unsettledSession : Session Installation := (stateOfDecay.session config script world).unsettled

theorem unsettled_settles :
    (moves.foldl Session.move (stateOfDecay.session config script world)).Settles
      (moves.foldl Session.move (unsettledSession config script world)) :=
  Session.moves_unsettled rfl settleEdits_needsResult moves

/-- When a run has succeeded, the files have had their turn one after another. -/
theorem succeeded_updated {before : RunResult}
    (ended : (moves.foldl Session.move (unsettledSession config script world)).phase =
      .finished before) (success : before.status = .success) :
    let session := moves.foldl Session.move (stateOfDecay.session config script world)
    let unsettled := moves.foldl Session.move (unsettledSession config script world)
    let i := unsettled.world.host
    ∃ failures, Updated i.target i.pendingEdits i.files (editedFiles i.pendingEdits)
        session.world.host.files failures ∧
      let warnings := failures.map (updateWarning i.target unsettled.world.context)
      session.phase = .finished { before with warnings := before.warnings ++ warnings } ∧
        session.world.context.warnings.toList =
          unsettled.world.context.warnings.toList ++ warnings := by
  intro session unsettled i
  have finisher : session.finisher = settleEdits := Session.moves_finisher _ moves
  cases (unsettled_settles config script world moves : session.Settles unsettled) with
  | before noResult eq =>
    have shown : session.phase = .finished before := by
      rw [← ended]
      exact (congrArg Session.phase eq).symm
    rw [Session.result?_eq_some_iff.2 shown] at noResult
    cases noResult
  | @after result w cancelled cancelled' ended' world' settled settledWorld =>
    cases ended.symm.trans ended'
    rw [finisher] at settled settledWorld
    have host : i = w.host := by rw [show i = unsettled.world.host from rfl, world']
    have context : unsettled.world.context = w.context := by rw [world']
    obtain ⟨failures, updated, warned, warned'⟩ := settleEdits_updated success w
    rw [warned] at settled
    rw [host, context, settledWorld]
    exact ⟨failures, updated, settled, warned'⟩

/-- In every session the files of queued changes are below the directory of the game. -/
theorem unsettled_steady (lines : List String) (files : FileTree) (source target : Path)
    (gameVersion : String) :
    let unsettled := moves.foldl Session.move (unsettledSession config script
      (stateOfDecay.world lines { files, source, target, gameVersion }))
    Steady ⟨source, target, [], .nil, rfl⟩ unsettled.world.host
      unsettled.world.context.directory := by
  have keeps : (stateOfDecay.setting config).host.Keeps fun i directory _ =>
      Steady ⟨source, target, [], .nil, rfl⟩ i directory := by
    intro f arguments directory i calls steady
    exact host_keepsSteady (fun entry member =>
      (bundled_handlers List.mem_cons_self _ entry member).2) f arguments directory i steady
  have start : ((stateOfDecay.world lines { files, source, target, gameVersion }).note .debug
      .dialects s!"starting {stateOfDecay.name} run").Holds fun i directory _ =>
        Steady ⟨source, target, [], .nil, rfl⟩ i directory := ⟨⟨rfl, rfl, rfl⟩, .nil, nofun⟩
  exact Session.moves_hold keeps (Finisher.idle_keeps _) script start moves

/-- No path of a file with queued changes leads up. -/
theorem Installation.Steady.down {r : Roots} {i : Installation} {directory : List String}
    (steady : Steady r i directory) : ∀ file ∈ editedFiles i.pendingEdits, ".." ∉ file := by
  intro file member
  obtain ⟨e, queued, rfl⟩ := mem_editedFiles.1 member
  obtain ⟨inside, clean, same⟩ := steady.edits e queued
  rw [same]
  exact (r.clean.append clean).down

end

/-- A script that queues changes of settings files. -/
def editing (edits : List IniEdit) : Block :=
  .mk default (edits.map fun e => .call (.mk default "EditIni"
    ([partsText e.file, e.header, e.key, e.value].map fun s => .literal default (.string s)) []))

end InstallScript
