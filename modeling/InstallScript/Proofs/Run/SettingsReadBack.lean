import InstallScript.Proofs.Run.FailingFiles
import InstallScript.Proofs.Settings.ReadBack

/-!
Queued changes in the written files. After a run of State of Decay that has succeeded, a file about
which no warning was left reads back as what it held with the changes made, exactly when the last
changes of its options can stand in a file (`settings_read_back`). Nothing else is refused, though:
an empty header leaves a file behind that cannot be read at all (`empty_header_unreadable`).
-/

namespace InstallScript

open Installation Dialect

/-- What every run keeps: what stands somewhere stands in a directory, and the directory of the game
is there. -/
structure Installation.Grounded (target : Path) (i : Installation) : Prop where
  closed : i.files.Closed
  directory : i.files.find? target = some .directory

section

variable (config : Config) (script : Block) (moves : List Session.Move) (lines : List String)
  (files : FileTree) (source target : Path) (gameVersion : String)

theorem unsettled_grounded (closed : files.Closed)
    (directory : files.find? target = some .directory) :
    (moves.foldl Session.move (unsettledSession config script
      (stateOfDecay.world lines { files, source, target, gameVersion }))).world.host.Grounded
        target := by
  have keeps : (stateOfDecay.setting config).host.Keeps fun i _ _ => i.Grounded target := by
    intro f arguments current i _ ⟨closed, directory⟩
    have changes := host_changesFiles (bundled_changesFiles List.mem_cons_self) f arguments current i
    exact ⟨changes.closed closed, changes.keepsDirectories.find? directory⟩
  have start : ((stateOfDecay.world lines { files, source, target, gameVersion }).note .debug
      .dialects s!"starting {stateOfDecay.name} run").Holds fun i _ _ => i.Grounded target :=
    ⟨closed, directory⟩
  exact Session.moves_hold keeps (Finisher.idle_keeps _) script start moves

/-- Changes in the written files. After a run that has succeeded, each file for which changes were
queued and about which no warning was left has been written. It reads back, with the last change of
each option and all else as it was before, if and only if the last changes of all its options can
stand in a file. -/
theorem settings_read_back (closed : files.Closed)
    (directory : files.find? target = some .directory) :
    let world := stateOfDecay.world lines { files, source, target, gameVersion }
    let session := moves.foldl Session.move (stateOfDecay.session config script world)
    let unsettled := moves.foldl Session.move (unsettledSession config script world)
    let edits := unsettled.world.host.pendingEdits
    ∀ before, unsettled.phase = .finished before → before.status = .success →
      ∃ warnings, session.phase = .finished { before with warnings := before.warnings ++ warnings } ∧
        ∀ file ∈ editedFiles edits,
          (∀ fault, updateWarning target unsettled.world.context (file, fault) ∉ warnings) →
          ∃ old content, readSettings unsettled.world.host.files (target.join file) = .ok old ∧
            session.world.host.files.find? (target.join file) = some (.file content) ∧
            ((∃ ini, Ini.ofBytes content = .ok ini ∧ ∀ header key, ini.get? header key =
                (lastQueued (ownEdits edits file) header key).or (old.get? header key)) ↔
              PlainEdits (ownEdits edits file)) := by
  intro world session unsettled edits before ended success
  have steady := unsettled_steady config script moves lines files source target gameVersion
  have grounded := unsettled_grounded config script moves lines files source target gameVersion
    closed directory
  obtain ⟨failures, updated, settled, -⟩ :=
    succeeded_updated config script world moves ended success
  have sameTarget : unsettled.world.host.target = target := steady.rooted.target
  rw [sameTarget] at updated settled
  refine ⟨_, settled, fun file edited unwarned => ?_⟩
  have succeeded : file ∉ failures.map (·.1) := by
    intro failed
    obtain ⟨⟨_, fault⟩, member, rfl⟩ := List.mem_map.1 failed
    exact unwarned fault (List.mem_map_of_mem member)
  obtain ⟨old, new, reads, edits', stands⟩ := updated.writesTo steady.down (editedFiles_nodup edits)
    grounded.closed grounded.directory edited succeeded
  exact ⟨old, _, reads, stands, reads_back_iff (plain_of_readSettings reads) edits'⟩

end

/-- A game with a settings file. -/
def gameWithSettings : FileTree :=
  ⟨[(["game"], .directory), (["game", "a.ini"], .file (Text.encodeUtf8 "[s]\nk = 1\nl = 2\n"))]⟩

/-- A mod for this game that is about to be installed. -/
def settingsWorld : World Installation :=
  stateOfDecay.world [] ⟨gameWithSettings, ⟨"", ["mod"]⟩, ⟨"", ["game"]⟩, "1", [], [], []⟩

/-- A change of one of two options. -/
def plainChange : List IniEdit := [⟨["a.ini"], "s", "k", "3"⟩]

theorem plainChange_plain : PlainEdits plainChange := by
  intro header key value last
  obtain ⟨e, queued, rfl, rfl, rfl⟩ := exists_of_lastQueued last
  obtain rfl := List.mem_singleton.1 queued
  have isName : PlainName "k".toList :=
    ⟨⟨by decide, by decide, by decide⟩, by decide, List.forall_mem_singleton.2 rfl, by decide⟩
  have isValue : PlainText ['3'] := ⟨by decide, by decide, by decide⟩
  exact ⟨⟨by decide, by decide, by decide, by decide⟩, isName, ['3'], [], rfl, isValue,
    ⟨nofun, nofun⟩, nofun, by decide⟩

theorem plainChange_read_back :
    let session := [.start].foldl Session.move
      (stateOfDecay.session {} (editing plainChange) settingsWorld)
    ∃ content ini, session.world.host.files.find? ⟨"", ["game", "a.ini"]⟩ =
        some (.file content) ∧ Ini.ofBytes content = .ok ini ∧
      ini.get? "s" "k" = some "3" ∧ ini.get? "s" "l" = some "2" := by
  intro session
  have succeeded : ([.start].foldl Session.move
      (unsettledSession {} (editing plainChange) settingsWorld)).result?.map
        (fun before => (before.status, before.warnings)) = some (.success, []) := by decide +kernel
  have edits : ([.start].foldl Session.move
      (unsettledSession {} (editing plainChange) settingsWorld)).world.host.pendingEdits =
        plainChange := by decide +kernel
  have start : ([.start].foldl Session.move
      (unsettledSession {} (editing plainChange) settingsWorld)).world.host.files =
        gameWithSettings := by decide +kernel
  have unwarned : session.result?.map (·.warnings) = some [] := by decide +kernel
  have given : ((readSettings gameWithSettings ⟨"", ["game", "a.ini"]⟩).toOption.bind
      fun ini => ini.get? "s" "l") = some "2" := by decide +kernel
  have closed : gameWithSettings.Closed := FileTree.closed_of_entries (by decide)
  obtain ⟨before, shown, both⟩ := Option.map_eq_some_iff.1 succeeded
  obtain ⟨success, none'⟩ := Prod.mk.inj both
  obtain ⟨warnings, settled, written⟩ := settings_read_back {} (editing plainChange) [.start] []
    gameWithSettings ⟨"", ["mod"]⟩ ⟨"", ["game"]⟩ "1" closed (by decide) before
    (Session.result?_eq_some_iff.1 shown) success
  rw [← settingsWorld, edits, start] at written
  have settled : session.result? = some _ := Session.result?_eq_some_iff.2 settled
  have noWarning : warnings = [] := by
    rw [settled, none'] at unwarned
    simpa using unwarned
  subst noWarning
  obtain ⟨old, content, reads, stands, iff⟩ :=
    written ["a.ini"] (by decide) fun _ => List.not_mem_nil
  obtain ⟨ini, reads', holds⟩ := iff.2 plainChange_plain
  have reads : readSettings gameWithSettings ⟨"", ["game", "a.ini"]⟩ = .ok old := reads
  rw [reads] at given
  refine ⟨content, ini, stands, reads', holds "s" "k", (holds "s" "l").trans ?_⟩
  exact given

/-- A change under no header. -/
def emptyHeader : List IniEdit := [⟨["a.ini"], "", "k", "3"⟩]

/-- An empty header leads to a file that cannot be read, and no warning is left. -/
theorem empty_header_unreadable :
    let session := [.start].foldl Session.move
      (stateOfDecay.session {} (editing emptyHeader) settingsWorld)
    session.result?.map (fun result => (result.status, result.warnings)) = some (.success, []) ∧
      ∃ content, session.world.host.files.find? ⟨"", ["game", "a.ini"]⟩ = some (.file content) ∧
        ∀ ini, Ini.ofBytes content ≠ .ok ini := by
  intro session
  -- The value is among the defaults, and the empty header is no header.
  let content := Text.encodeUtf8 "[DEFAULT]\nk = 3\n\n[s]\nk = 1\nl = 2\n\n[]\n\n"
  have unreadable : (Ini.ofBytes content).toOption = none := by decide +kernel
  refine ⟨by decide +kernel, content, by decide +kernel, fun ini reads => ?_⟩
  rw [reads] at unreadable
  cases unreadable

end InstallScript
