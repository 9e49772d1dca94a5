import InstallScript.Proofs.Files.Deliveries
import InstallScript.Proofs.Files.Outcomes

/-!
What a copy from the mod to the game leaves as it is (`Installation.copy_keeps`). One that may not
replace anything changes nothing that is there, however it ends. One that is refused changes nothing
at all. One that goes through puts every file of its source where it belongs and leaves every other
file alone.

The last is what a copy of files brings about (`FileTree.Copied`), with the directories that are
made above the target (`Installation.Sound.copyInto_copied`). The first holds because nothing is at
the target, so nothing is below it, and nothing else can be changed.
-/

namespace InstallScript

namespace FileTree

/-- Whatever there is, is copied. -/
theorem copy_copied {t : FileTree} {source target : Path} (ready : CopyReady t source target)
    (named : t.isDirectory source = false →
      source.place.getLastD "" = source.name ∧ CleanPart source.name) :
    Delivers source.place target.place t (t.copy source target) := by
  unfold copy
  dsimp only
  split
  · rename_i isDirectory
    have stands : t.find? source = some .directory := eq_of_beq isDirectory
    rw [← Path.join_nil source] at ready stands ⊢
    exact copyLevels_copied pathLimit ready .nil (Nat.le_add_left ..) stands
  · rename_i isFile
    obtain ⟨last, clean⟩ := named (Bool.not_eq_true _ ▸ isFile)
    split
    · rename_i t' copies
      exact copyFile_copied ready.closed last clean copies
    · exact ⟨fun _ _ => rfl, nofun⟩

end FileTree

namespace Installation

open FileTree

/-- What is true of an installation: its files are those of a tree, the mod and the game are
directories, names in the mod are names, and neither the mod nor what receives all writes is below
the other one. -/
structure Sound (i : Installation) : Prop where
  closed : i.files.Closed
  listed : i.files.Listed
  source : i.files.find? i.source = some .directory
  target : i.files.find? i.target = some .directory
  names : ∀ rest, i.files.get? (i.source.place ++ rest) ≠ none → CleanParts rest
  apart : Separate i.source.place (i.target.place ++ i.installRoot)
  clean : CleanParts i.installRoot

variable {i : Installation}

/-! ## Directories above the target -/

/-- A directory stands in one. -/
theorem find?_parent {t : FileTree} {p : Path} (stands : t.find? p = some .directory) :
    t.find? p.parent = some .directory := by
  obtain ⟨root, components⟩ := p
  rcases List.eq_nil_or_concat' components with rfl | ⟨init, last, rfl⟩
  · exact stands
  · have above : (⟨root, init ++ [last]⟩ : Path).parent = ⟨root, init⟩ := by
      rw [Path.parent, List.dropLast_concat]
    rw [above]
    have split : (⟨root, init ++ [last]⟩ : Path) = Path.join ⟨root, init⟩ [last] := rfl
    exact find?_of_join (split ▸ stands)

section

variable {t t' : FileTree} {base : Path} {components : List String}

/-- What the target of a copy is in is made above the target only. -/
theorem ensureParent_elsewhere (stands : t.find? base = some .directory)
    (down : ".." ∉ components) {other : List String}
    (off : other <+: base.place ++ components → other = base.place ++ components) :
    (t.ensureDirectory (base.join components).parent).1.get? other = t.get? other := by
  rcases List.eq_nil_or_concat' components with rfl | ⟨init, last, rfl⟩
  · rw [Path.join_nil, ensureDirectory_of_find? (find?_parent stands)]
  · rw [base.parent_join (by simp), List.dropLast_concat]
    refine ensureDirectory_elsewhere stands (fun member => down (List.mem_append_left _ member)) ?_
    intro on
    have longer := on.length_le
    have same := off (on.trans ⟨[last], List.append_assoc ..⟩)
    rw [same] at longer
    simp only [List.length_append, List.length_singleton] at longer
    omega

/-- Then the target is at hand. -/
theorem atHand_of_ensureParent (stands : t.find? base = some .directory)
    (down : ".." ∉ components)
    (made : t.ensureDirectory (base.join components).parent = (t', none)) :
    t'.AtHand (base.join components) := by
  have there := find?_of_ensureDirectory made
  rcases List.eq_nil_or_concat' components with rfl | ⟨init, last, rfl⟩
  · rw [Path.join_nil] at made ⊢
    rw [ensureDirectory_of_find? (find?_parent stands)] at made
    cases made
    exact .inl stands
  · rw [base.parent_join (by simp), List.dropLast_concat] at there
    refine .inr ⟨base.join init, last, (base.join_join init [last]).symm, ?_, there⟩
    rintro rfl
    exact down (List.mem_append_right _ (List.mem_singleton_self _))

end

/-! ## Copies from the mod to the game -/

section

variable {inside parts : List String} {t : FileTree}

/-- What is in the mod is apart from what writes go to. -/
theorem Sound.separate (sound : i.Sound) (cleanSource : CleanParts inside)
    (cleanTarget : CleanParts parts) : Separate (i.source.join inside).place
      (i.target.join (i.installRoot ++ parts)).place := by
  rw [i.source.place_join cleanSource.down,
    i.target.place_join (sound.clean.append cleanTarget).down, ← List.append_assoc]
  exact sound.apart.below inside parts

/-- A file in the mod has the name that the path to it ends with. -/
theorem Sound.name_of_file (sound : i.Sound) (cleanSource : CleanParts inside)
    (keeps : i.files.KeepsDirectories t)
    (isFile : t.isDirectory (i.source.join inside) = false) :
    (i.source.join inside).place.getLastD "" = (i.source.join inside).name ∧
      CleanPart (i.source.join inside).name := by
  rcases List.eq_nil_or_concat' inside with rfl | ⟨init, last, rfl⟩
  · rw [Path.join_nil, isDirectory, keeps.find? sound.source] at isFile
    cases isFile
  · have name : (i.source.join (init ++ [last])).name = last := by simp [Path.name, Path.join]
    rw [i.source.place_join cleanSource.down, name]
    exact ⟨by simp, cleanSource last (by simp)⟩

/-- What is changed before a copy starts is above its target. -/
theorem Sound.ensureParent_elsewhere (sound : i.Sound) (cleanTarget : CleanParts parts)
    (made : i.files.ensureDirectory (i.target.join (i.installRoot ++ parts)).parent = (t, none))
    {other : List String}
    (off : other <+: (i.target.join (i.installRoot ++ parts)).place →
      other = (i.target.join (i.installRoot ++ parts)).place) :
    i.files.get? other = t.get? other := by
  have down := (sound.clean.append cleanTarget).down
  rw [i.target.place_join down] at off
  have elsewhere := Installation.ensureParent_elsewhere sound.target down off
  rw [made] at elsewhere
  exact elsewhere.symm

/-- So what is to be copied is as it was. -/
theorem Sound.sameSource (sound : i.Sound) (cleanSource : CleanParts inside)
    (cleanTarget : CleanParts parts)
    (made : i.files.ensureDirectory (i.target.join (i.installRoot ++ parts)).parent = (t, none)) :
    SameBelow (i.source.join inside).place i.files t := by
  intro rest
  refine sound.ensureParent_elsewhere cleanTarget made fun on => ?_
  have above := (List.prefix_append _ rest).trans on
  exact absurd above (sound.separate cleanSource cleanTarget).notAbove

/-- So is what the copies go to. -/
theorem Sound.sameTarget (sound : i.Sound) (cleanTarget : CleanParts parts)
    (made : i.files.ensureDirectory (i.target.join (i.installRoot ++ parts)).parent = (t, none)) :
    SameBelow (i.target.join (i.installRoot ++ parts)).place i.files t := by
  intro rest
  exact sound.ensureParent_elsewhere cleanTarget made fun on => on.eq_of_length_le (by simp)

/-- Then the copy may start. -/
theorem Sound.copyReady (sound : i.Sound) (cleanSource : CleanParts inside)
    (cleanTarget : CleanParts parts)
    (made : i.files.ensureDirectory (i.target.join (i.installRoot ++ parts)).parent = (t, none)) :
    CopyReady t (i.source.join inside) (i.target.join (i.installRoot ++ parts)) := by
  have down := (sound.clean.append cleanTarget).down
  have changes := i.files.ensureDirectory_changes (i.target.join (i.installRoot ++ parts)).parent
  rw [made] at changes
  refine ⟨changes.closed sound.closed, changes.listed sound.listed, ?_,
    sound.separate cleanSource cleanTarget, atHand_of_ensureParent sound.target down made⟩
  intro rest there
  rw [← sound.sameSource cleanSource cleanTarget made, i.source.place_join cleanSource.down,
    List.append_assoc] at there
  exact (CleanParts.append_iff.1 (sound.names _ there)).2

end

/-- A copy between the mod and the game keeps what is not below its target, and goes through only
with everything copied. -/
theorem Sound.copyInto_copied (sound : i.Sound) {inside parts : List String}
    (cleanSource : CleanParts inside) (cleanTarget : CleanParts parts) :
    let src := i.source.join inside
    let dst := i.target.join (i.installRoot ++ parts)
    let out := copyInto i.files src dst
    (∀ place entry, ¬ dst.place <+: place → i.files.get? place = some entry →
        out.1.get? place = some entry) ∧
      (out.2 = none → Copied src.place dst.place i.files out.1) := by
  have adds := i.files.ensureDirectory_adds (i.target.join (i.installRoot ++ parts)).parent
  unfold copyInto
  dsimp only
  cases made : i.files.ensureDirectory (i.target.join (i.installRoot ++ parts)).parent with
  | mk t e =>
  rw [made] at adds
  cases e with
  | some e => exact ⟨fun _ _ _ stands => adds.keeps stands, nofun⟩
  | none =>
    obtain ⟨only, copied⟩ := copy_copied (sound.copyReady cleanSource cleanTarget made)
      (sound.name_of_file cleanSource adds.keepsDirectories)
    refine ⟨fun place entry off stands => ?_, fun whole => ?_⟩
    · rw [only place off]
      exact adds.keeps stands
    · have sameSource := sound.sameSource cleanSource cleanTarget made
      have sameTarget := sound.sameTarget cleanTarget made
      exact (copied whole).congr (fun rest => (sameSource rest).symm)
        (fun rest => (sameTarget rest).symm) fun _ => rfl

/-! ## Copies that are refused -/

/-- A copy is refused: one of its paths does not resolve, nothing is at its source, or something is
at its target that it may not replace. -/
def CopyRefused (i : Installation) (directory : List String) (source destination : String)
    (overwrite : Bool) : Prop :=
  (∃ fault, resolvePath source directory = .error fault) ∨
    (∃ fault, resolvePath destination [] = .error fault) ∨
    (∃ src, i.sourcePath directory source = .ok src ∧ i.files.find? src = none) ∨
    overwrite = false ∧ ∃ parts, i.targetParts destination = .ok parts ∧
      i.files.find? (i.target.join parts) ≠ none

variable {directory : List String} {source destination : String} {overwrite : Bool}

/-- Whether a copy may be made, where both of its paths resolve. -/
theorem copyPlan_of_paths {src : Path} {parts : List String}
    (leads : i.sourcePath directory source = .ok src)
    (leads' : i.targetParts destination = .ok parts) :
    i.copyPlan directory source destination overwrite =
      match i.look src with
      | .error outcome => .error outcome
      | .ok none => .error (.failure s!"source not found: {source}")
      | .ok (some _) =>
        match i.look (i.target.join parts) with
        | .error outcome => .error outcome
        | .ok found =>
          if found.isSome && !overwrite then .error (.failure s!"destination exists: {destination}")
          else .ok (src, parts) := by
  unfold copyPlan
  simp only [leads, leads', bind, Except.bind]
  rcases i.look src with outcome | _ | entry
  · rfl
  · rfl
  · simp only [Option.isNone_some, Bool.false_eq_true, if_false]
    rcases i.look (i.target.join parts) with outcome | found
    · rfl
    · dsimp only
      cases found.isSome && !overwrite <;> rfl

/-- Something is at the source of a copy that is not refused, and at its target is nothing or what
may be replaced. -/
theorem copyPlan_eq_ok {src : Path} {parts : List String}
    (plans : i.copyPlan directory source destination overwrite = .ok (src, parts)) :
    i.sourcePath directory source = .ok src ∧ i.targetParts destination = .ok parts ∧
      i.files.find? src ≠ none ∧ ¬ i.TooLong (i.target.join parts) ∧
      (overwrite = false → i.files.find? (i.target.join parts) = none) := by
  rcases i.sourcePath_cases directory source with ⟨src', leads⟩ | ⟨message, fails⟩
  · rcases i.targetParts_cases destination with ⟨parts', leads'⟩ | ⟨message, fails⟩
    · rw [copyPlan_of_paths leads leads'] at plans
      by_cases long : i.TooLong src'
      · rw [look_of_tooLong long] at plans
        cases plans
      · rw [look_of_short long] at plans
        cases stands : i.files.find? src' with
        | none =>
          rw [stands] at plans
          cases plans
        | some entry =>
          rw [stands] at plans
          by_cases long' : i.TooLong (i.target.join parts')
          · rw [look_of_tooLong long'] at plans
            cases plans
          · rw [look_of_short long'] at plans
            dsimp only at plans
            split at plans
            · cases plans
            · rename_i free
              cases plans
              refine ⟨leads, leads', by rw [stands]; exact nofun, long', ?_⟩
              rintro rfl
              simpa using free
    · rw [copyPlan_of_error' leads fails] at plans
      cases plans
  · rw [copyPlan_of_error fails] at plans
    cases plans

/-- A copy that is not made fails with a message, unless a name is too long to be looked for. -/
theorem copyPlan_eq_error {outcome : Outcome}
    (fails : i.copyPlan directory source destination overwrite = .error outcome) :
    (∃ message, outcome = .failure message) ∨
      i.CopyTooLong directory source destination ∧ ∃ d, outcome = .crash d := by
  rcases i.sourcePath_cases directory source with ⟨src, leads⟩ | ⟨message, fails'⟩
  · rcases i.targetParts_cases destination with ⟨parts, leads'⟩ | ⟨message, fails'⟩
    · rw [i.copyTooLong_iff directory leads leads']
      rw [copyPlan_of_paths leads leads'] at fails
      by_cases long : i.TooLong src
      · rw [look_of_tooLong long] at fails
        cases fails
        exact .inr ⟨.inl long, _, rfl⟩
      · rw [look_of_short long] at fails
        cases stands : i.files.find? src with
        | none =>
          rw [stands] at fails
          cases fails
          exact .inl ⟨_, rfl⟩
        | some entry =>
          rw [stands] at fails
          by_cases long' : i.TooLong (i.target.join parts)
          · rw [look_of_tooLong long'] at fails
            cases fails
            exact .inr ⟨.inr ⟨nofun, long'⟩, _, rfl⟩
          · rw [look_of_short long'] at fails
            dsimp only at fails
            split at fails
            · cases fails
              exact .inl ⟨_, rfl⟩
            · cases fails
    · rw [copyPlan_of_error' leads fails'] at fails
      cases fails
      exact .inl ⟨_, rfl⟩
  · rw [copyPlan_of_error fails'] at fails
    cases fails
    exact .inl ⟨_, rfl⟩

/-- A copy that is refused is not made. -/
theorem copyPlan_of_refused (refused : i.CopyRefused directory source destination overwrite) :
    ∃ outcome, i.copyPlan directory source destination overwrite = .error outcome := by
  cases plans : i.copyPlan directory source destination overwrite with
  | error outcome => exact ⟨outcome, rfl⟩
  | ok plan =>
    obtain ⟨src, parts⟩ := plan
    obtain ⟨leads, leads', there, -, free⟩ := copyPlan_eq_ok plans
    rcases refused with ⟨fault, fails⟩ | ⟨fault, fails⟩ | ⟨src', leads'', missing⟩ |
      ⟨noOverwrite, parts', leads'', there'⟩
    · rw [sourcePath, fails] at leads
      cases leads
    · rw [targetParts, fails] at leads'
      cases leads'
    · cases leads.symm.trans leads''
      exact absurd missing there
    · cases leads'.symm.trans leads''
      exact absurd (free noOverwrite) there'

/-! ## Copies -/

section

variable {arguments : Arguments}

/-- A plan leads to a place below the mod and one below the root of writes. -/
theorem copied_of_plan (sound : i.Sound) (clean : CleanParts directory) {src : Path}
    {parts : List String}
    (plans : i.copyPlan directory (arguments.string "source") (arguments.string "destination")
      (arguments.flag "overwrite") = .ok (src, parts)) :
    (∀ place entry, ¬ (i.target.join parts).place <+: place →
        i.files.get? place = some entry →
        (copyInto i.files src (i.target.join parts)).1.get? place = some entry) ∧
      ((copyInto i.files src (i.target.join parts)).2 = none →
        Copied src.place (i.target.join parts).place i.files
          (copyInto i.files src (i.target.join parts)).1) := by
  obtain ⟨leads, leads', -⟩ := copyPlan_eq_ok plans
  obtain ⟨inside, cleanSource, rfl⟩ := sourcePath_eq_ok clean leads
  obtain ⟨parts, cleanTarget, rfl⟩ := targetParts_eq_ok leads'
  exact sound.copyInto_copied cleanSource cleanTarget

/-- A copy that may not replace anything keeps all that is there. -/
theorem copy_without_overwrite (sound : i.Sound) (clean : CleanParts directory)
    (noOverwrite : arguments.flag "overwrite" = false) {place : List String} {entry : FileEntry}
    (stands : i.files.get? place = some entry) :
    (copy arguments directory i).host.files.get? place = some entry := by
  unfold copy
  dsimp only
  split
  · exact stands
  · rename_i src parts plans
    obtain ⟨-, leads, -, short, free⟩ := copyPlan_eq_ok plans
    obtain ⟨keeps, -⟩ := copied_of_plan sound clean plans
    obtain ⟨inside, cleanTarget, rfl⟩ := targetParts_eq_ok leads
    have down := (sound.clean.append cleanTarget).down
    have kept := keeps place entry (fun below => by
      -- nothing is at the target or below it
      obtain ⟨rest, rfl⟩ := below
      rw [i.target.place_join down, List.append_assoc,
        sound.closed.nothing_of_find? sound.target down short (free noOverwrite) rest] at stands
      cases stands) stands
    split
    · rename_i files e out
      rwa [out] at kept
    · rename_i files out
      rwa [out] at kept

/-- A copy that goes through puts the files of its source where they belong, and keeps the rest. -/
theorem files_of_copy (sound : i.Sound) (clean : CleanParts directory)
    (succeeds : (copy arguments directory i).outcome = nothing) :
    ∃ src parts, i.sourcePath directory (arguments.string "source") = .ok src ∧
      i.targetParts (arguments.string "destination") = .ok parts ∧ i.files.find? src ≠ none ∧
      (copy arguments directory i).host =
        { i with files := (copy arguments directory i).host.files,
                 installed := i.installed ++ [parts] } ∧
      let image := i.files.imagePlace src.place (i.target.join parts).place
      (∀ rest content, i.files.get? (src.place ++ rest) = some (.file content) →
        (copy arguments directory i).host.files.get? (image rest) = some (.file content)) ∧
      ∀ place entry, i.files.get? place = some entry →
        (∀ rest content, i.files.get? (src.place ++ rest) = some (.file content) →
          image rest ≠ place) →
        (copy arguments directory i).host.files.get? place = some entry := by
  unfold copy at succeeds ⊢
  dsimp only at succeeds ⊢
  split at succeeds
  · rename_i outcome fails
    -- what a copy that is not made gives is no value
    obtain rfl : outcome = nothing := succeeds
    rcases copyPlan_eq_error fails with ⟨message, other⟩ | ⟨-, d, other⟩ <;> cases other
  · rename_i src parts plans
    obtain ⟨leads, leads', there, -⟩ := copyPlan_eq_ok plans
    obtain ⟨keeps, whole⟩ := copied_of_plan sound clean plans
    split at succeeds
    · cases succeeds
    · rename_i files out
      rw [out] at keeps whole
      refine ⟨src, parts, leads, leads', there, rfl, (whole rfl).files,
        fun place entry stands free => ?_⟩
      by_cases below : (i.target.join parts).place <+: place
      · obtain ⟨rest, rfl⟩ := below
        exact (whole rfl).others rest entry stands free
      · exact keeps place entry below stands

end

/-- A copy that may not replace anything keeps all that is there. A copy that is refused keeps
everything as it is. One that goes through puts every file of its source where it belongs, keeps all
that is where no file is put, and is noted once. -/
theorem copy_keeps (i : Installation) (sound : i.Sound) (arguments : Arguments)
    (directory : List String) (clean : CleanParts directory) :
    let source := arguments.string "source"
    let destination := arguments.string "destination"
    let overwrite := arguments.flag "overwrite"
    let response := copy arguments directory i
    (overwrite = false → ∀ place entry, i.files.get? place = some entry →
      response.host.files.get? place = some entry) ∧
    (i.CopyRefused directory source destination overwrite → response.host = i ∧
      ((∃ message, response.outcome = .failure message) ∨
        i.CopyTooLong directory source destination ∧ ∃ d, response.outcome = .crash d)) ∧
    (response.outcome = nothing → ∃ src parts, i.sourcePath directory source = .ok src ∧
      i.targetParts destination = .ok parts ∧ i.files.find? src ≠ none ∧
      response.host = { i with files := response.host.files, installed := i.installed ++ [parts] } ∧
      let image := i.files.imagePlace src.place (i.target.join parts).place
      (∀ rest content, i.files.get? (src.place ++ rest) = some (.file content) →
        response.host.files.get? (image rest) = some (.file content)) ∧
      ∀ place entry, i.files.get? place = some entry →
        (∀ rest content, i.files.get? (src.place ++ rest) = some (.file content) →
          image rest ≠ place) →
        response.host.files.get? place = some entry) := by
  dsimp only
  refine ⟨fun noOverwrite _ _ => copy_without_overwrite sound clean noOverwrite, fun refused => ?_,
    files_of_copy sound clean⟩
  obtain ⟨outcome, fails⟩ := copyPlan_of_refused refused
  unfold copy
  dsimp only
  rw [fails]
  exact ⟨rfl, copyPlan_eq_error fails⟩

/-- A mod with a directory of two files, and a game with a directory of that name, in which one of
the names is that of a directory and the other that of a file. -/
def merging : Installation :=
  { files := ⟨[(["mod"], .directory), (["mod", "d"], .directory), (["mod", "d", "a"], .file [1]),
      (["mod", "d", "b"], .file [2]), (["game"], .directory), (["game", "pc"], .directory),
      (["game", "pc", "d"], .directory), (["game", "pc", "d", "a"], .directory),
      (["game", "pc", "d", "b"], .file [3]), (["game", "pc", "d", "c"], .file [4])]⟩
    source := ⟨"", ["mod"]⟩
    target := ⟨"", ["game"]⟩
    installRoot := ["pc"] }

theorem merging_sound : merging.Sound where
  closed := closed_of_entries (by decide)
  listed := by
    show (merging.files.entries.map (·.1)).Nodup
    decide
  source := by decide
  target := by decide
  names rest stands := by
    have given : ("mod" :: rest) ∈ merging.files.entries.map (·.1) :=
      mem_of_lookup_some.2 (Option.isSome_iff_ne_none.2 stands)
    simp only [merging, List.map_cons, List.map_nil, List.mem_cons, List.cons.injEq,
      List.not_mem_nil, or_false, String.reduceEq, false_and, true_and] at given
    rcases given with rfl | rfl | rfl | rfl <;> (unfold CleanParts; decide)
  apart := ⟨by decide, by decide⟩
  clean := .singleton (by decide)

/-- A copy of the directory to the one in the game. -/
def mergingCopy (overwrite : Bool) : Response Installation :=
  copy [("source", .string "d"), ("destination", .string "d"), ("overwrite", .bool overwrite)] []
    merging

/-- One file goes into a directory and the other one replaces a file, if that is allowed; a third
one stays. Otherwise everything does. -/
theorem merging_keeps : merging.Sound ∧ CleanParts [] ∧
    (mergingCopy true).outcome = nothing ∧ (mergingCopy true).host.installed = [["pc", "d"]] ∧
    (mergingCopy true).host.files.get? ["game", "pc", "d", "a", "a"] = some (.file [1]) ∧
    (mergingCopy true).host.files.get? ["game", "pc", "d", "b"] = some (.file [2]) ∧
    (mergingCopy true).host.files.get? ["game", "pc", "d", "c"] = some (.file [4]) ∧
    (mergingCopy false).host = merging := by
  obtain ⟨-, -, whole⟩ := copy_keeps merging merging_sound
    [("source", .string "d"), ("destination", .string "d"), ("overwrite", .bool true)] [] .nil
  obtain ⟨-, refused, -⟩ := copy_keeps merging merging_sound
    [("source", .string "d"), ("destination", .string "d"), ("overwrite", .bool false)] [] .nil
  have succeeds : (mergingCopy true).outcome = nothing := by rfl
  have resolves : resolvePath "d" [] = .ok ["d"] := by decide +kernel
  have leads : merging.sourcePath [] "d" = .ok ⟨"", ["mod", "d"]⟩ := by
    rw [sourcePath, resolves]
    rfl
  have leads' : merging.targetParts "d" = .ok ["pc", "d"] := by
    rw [targetParts, resolves]
    rfl
  obtain ⟨src, parts, source, target, -, host, files, others⟩ := whole succeeds
  cases leads.symm.trans source
  cases leads'.symm.trans target
  -- The files of the source are two.
  have two {rest : List String} {content : List UInt8}
      (stands : merging.files.get? ("mod" :: "d" :: rest) = some (.file content)) :
      rest = [] ∨ rest = ["a"] ∨ rest = ["b"] := by
    have given : ("mod" :: "d" :: rest) ∈ merging.files.entries.map (·.1) :=
      mem_of_lookup_some.2 (Option.isSome_iff_exists.2 ⟨_, stands⟩)
    simpa only [merging, List.map_cons, List.map_nil, List.mem_cons, List.cons.injEq,
      List.not_mem_nil, or_false, String.reduceEq, false_and, true_and, reduceCtorEq,
      false_or] using given
  refine ⟨merging_sound, .nil, succeeds, ?_, ?_, ?_, ?_, ?_⟩
  · exact congrArg Installation.installed host
  · exact files ["a"] [1] rfl
  · exact files ["b"] [2] rfl
  · refine others ["game", "pc", "d", "c"] (.file [4]) rfl fun rest content stands => ?_
    rcases two stands with rfl | rfl | rfl <;> decide
  · exact (refused (.inr (.inr (.inr ⟨rfl, ["pc", "d"], leads', by decide⟩)))).1

end Installation

end InstallScript
