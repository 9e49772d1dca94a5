import InstallScript.Proofs.Files.Outcomes
import InstallScript.Proofs.Run.Confinement
import InstallScript.Proofs.Run.Failures
import InstallScript.Proofs.Run.Unattended
import InstallScript.Proofs.Syntax.Comment

/-!
Installations that nobody attends. The bundled dialects ask for a yes or a no, and for one of the
options in a text, and never between nothing; so their runs go on by themselves to the end
(`unattended_installs`). A choice between nothing but blanks is no question: the call fails, and the
run with it.
-/

namespace InstallScript

/-! ## Options -/

theorem Text.strip_eq_nil_iff {cs : List Char} : strip cs = [] ↔ ∀ c ∈ cs, isBlank c = true := by
  constructor
  · intro empty
    have empty : trim isBlank cs = [] := empty
    obtain ⟨before, after, split, blank, blank'⟩ := trim_split isBlank cs
    rw [split, empty]
    exact List.forall_mem_append.2 ⟨blank, blank'⟩
  · intro blank
    have trimmed : Trimmed isBlank [] := ⟨nofun, nofun⟩
    have empty := @trim_of_trimmed isBlank cs [] [] blank trimmed nofun
    rwa [List.append_nil, List.append_nil] at empty

namespace Installation

/-- There is nothing but bars and blanks in a text. -/
def NoOptions (s : String) : Prop := ∀ c ∈ s.toList, c = '|' ∨ Text.isBlank c = true

instance (s : String) : Decidable (NoOptions s) :=
  decidable_of_iff (s.toList.all fun c => c = '|' || Text.isBlank c) (by simp [NoOptions])

/-- All pieces are blank if all is that has been read and all that is left but the bars. -/
theorem barPieces_blank_iff {read cs : List Char} :
    (∀ piece ∈ barPieces read cs, ∀ c ∈ piece, Text.isBlank c = true) ↔
      (∀ c ∈ read, Text.isBlank c = true) ∧ ∀ c ∈ cs, c = '|' ∨ Text.isBlank c = true := by
  induction cs generalizing read with
  | nil => simp [barPieces]
  | cons c rest ih =>
    unfold barPieces
    by_cases bar : c = '|'
    · rw [if_pos bar, List.forall_mem_cons, ih, List.forall_mem_cons]
      simp [bar]
    · rw [if_neg bar, ih, List.forall_mem_cons, List.forall_mem_cons]
      simp only [bar, false_or]
      exact and_assoc.trans and_left_comm

theorem optionsIn_eq_nil_iff {s : String} : optionsIn s = [] ↔ NoOptions s := by
  have pieces : optionsIn s = [] ↔
      ∀ piece ∈ barPieces [] s.toList, ∀ c ∈ piece, Text.isBlank c = true := by
    simp [optionsIn, Text.strip_eq_nil_iff]
  rw [pieces, barPieces_blank_iff]
  exact and_iff_right (List.forall_mem_nil _)

/-! ## Handlers -/

/-- What comes of a computation, as a value or otherwise, is no question. -/
def Silently {α : Type} (good : α → Prop) : Except Outcome α → Prop
  | .ok a => good a
  | .error outcome => ∀ p, outcome ≠ .question p

theorem Silently.bind {α β : Type} {good : α → Prop} {good' : β → Prop} {r : Except Outcome α}
    {next : α → Except Outcome β} (first : Silently good r)
    (second : ∀ a, good a → Silently good' (next a)) : Silently good' (r >>= next) := by
  cases r with
  | ok a => exact second a first
  | error outcome => exact first

section

variable (i : Installation)

theorem sourcePath_silently (directory : List String) (path : String) :
    Silently (fun _ => True) (i.sourcePath directory path) := by
  rcases i.sourcePath_cases directory path with ⟨p, leads⟩ | ⟨message, fails⟩
  · rw [leads]
    trivial
  · rw [fails]
    exact nofun

theorem targetParts_silently (path : String) :
    Silently (fun _ => True) (i.targetParts path) := by
  rcases i.targetParts_cases path with ⟨parts, leads⟩ | ⟨message, fails⟩
  · rw [leads]
    trivial
  · rw [fails]
    exact nofun

theorem look_silently (p : Path) : Silently (fun _ => True) (i.look p) := by
  unfold look
  cases i.files.look p with
  | ok found => trivial
  | error e => exact nofun

theorem copyPlan_silently (directory : List String) (source destination : String)
    (overwrite : Bool) :
    Silently (fun _ => True) (i.copyPlan directory source destination overwrite) := by
  unfold copyPlan
  refine (i.sourcePath_silently directory source).bind fun src _ => ?_
  refine (i.targetParts_silently destination).bind fun parts _ => ?_
  refine (i.look_silently src).bind fun found _ => ?_
  dsimp only
  split
  · exact nofun
  · refine (i.look_silently (i.target.join parts)).bind fun found _ => ?_
    split
    · exact nofun
    · trivial

end

/-- The response asks nothing and leaves the run uncancelled. -/
structure Silent (r : Response Installation) : Prop where
  cancel : r.cancel = none
  asksNothing : ∀ p, r.outcome ≠ .question p

theorem Silently.silent {α : Type} {good : α → Prop} {r : Except Outcome α} {outcome : Outcome}
    (silently : Silently good r) (eq : r = .error outcome) {i : Installation}
    {directory : List String} : Silent (i.respond directory outcome) := by
  subst eq
  exact ⟨rfl, silently⟩

section

variable (arguments : Arguments) (directory : List String) (i : Installation)

theorem fileExists_silent : Silent (fileExists arguments directory i) := by
  have silently (result : Except Outcome Outcome)
      (good : Silently (fun outcome => ∀ p, outcome ≠ .question p) result) :
      ∀ p, (i.conclude directory result).outcome ≠ .question p := by
    cases result with
    | ok outcome => exact good
    | error outcome => exact good
  refine ⟨rfl, silently _ ?_⟩
  refine (i.sourcePath_silently directory (arguments.string "path")).bind fun p _ => ?_
  exact (i.look_silently p).bind fun found _ => nofun

theorem setDirectory_silent : Silent (setDirectory arguments directory i) := by
  unfold setDirectory
  dsimp only
  split
  · exact ⟨rfl, nofun⟩
  · exact ⟨rfl, nofun⟩
  · rename_i eq
    refine Silently.silent (?_ : Silently (fun _ => True) _) eq
    refine (i.sourcePath_silently directory (arguments.string "path")).bind fun p _ => ?_
    refine (i.look_silently p).bind fun found _ => ?_
    split
    · trivial
    · exact nofun

theorem copy_silent : Silent (copy arguments directory i) := by
  unfold copy
  dsimp only
  split
  · rename_i eq
    exact (i.copyPlan_silently directory _ _ _).silent eq
  · split <;> exact ⟨rfl, nofun⟩

theorem createDirectory_silent : Silent (createDirectory arguments directory i) := by
  unfold createDirectory
  dsimp only
  split
  · rename_i eq
    exact (i.targetParts_silently _).silent eq
  · split <;> exact ⟨rfl, nofun⟩

theorem deleteFile_silent : Silent (deleteFile arguments directory i) := by
  unfold deleteFile
  dsimp only
  split
  · exact ⟨rfl, nofun⟩
  · rename_i eq
    refine Silently.silent (?_ : Silently (fun _ => True) _) eq
    refine (i.targetParts_silently (arguments.string "path")).bind fun parts _ => ?_
    refine (i.look_silently (i.target.join parts)).bind fun found _ => ?_
    split
    · cases i.files.remove (i.target.join parts) with
      | ok files => trivial
      | error e => exact nofun
    · exact nofun

theorem editIni_silent : Silent (editIni arguments directory i) := by
  unfold editIni
  split
  · rename_i eq
    exact (i.targetParts_silently _).silent eq
  · exact ⟨rfl, nofun⟩

theorem reportVersion_silent : Silent (reportVersion arguments directory i) := ⟨rfl, nofun⟩

theorem compareVersion_silent : Silent (compareVersion arguments directory i) := by
  unfold compareVersion
  split <;> exact ⟨rfl, nofun⟩

theorem warn_silent : Silent (warn arguments directory i) := ⟨rfl, nofun⟩

theorem fail_silent : Silent (fail arguments directory i) := ⟨rfl, nofun⟩

end

/-- A choice is a question between the options in a text, unless there are none. -/
theorem choose_cases (arguments : Arguments) (directory : List String) (i : Installation) :
    (NoOptions (arguments.string "options") ∧ choose arguments directory i =
        i.respond directory (.failure "no options to choose from")) ∨
      ¬ NoOptions (arguments.string "options") ∧ ∃ p : Prompt, p.kind = .choice ∧ p.choices ≠ [] ∧
        choose arguments directory i = i.respond directory (.question p) := by
  rw [← optionsIn_eq_nil_iff]
  unfold choose
  dsimp only
  cases optionsIn (arguments.string "options") with
  | nil => exact .inl ⟨rfl, rfl⟩
  | cons first rest =>
    exact .inr ⟨List.cons_ne_nil _ _, _, rfl, List.cons_ne_nil first rest, rfl⟩

end Installation

/-! ## Records -/

/-- An invocation of a declared function, with what comes of it somewhere. -/
structure Invocation.Genuine {η : Type} (setting : Setting η) (i : Invocation) : Prop where
  declared : i.function ∈ setting.catalog.functions
  outcome : ∃ directory h, i.outcome = (setting.host i.function i.arguments directory h).outcome

theorem Session.record_genuine {η : Type} (setting : Setting η) (script : Block) (world : World η)
    (finisher : Finisher η) (moves : List Move) :
    ∀ i ∈ (moves.foldl Session.move (ofRecorded setting script world finisher)).world.host.2,
      i.Genuine setting := by
  have keeps : (setting.withHost setting.host.recording).Keeps fun state _ _ =>
      ∀ i ∈ state.2, i.Genuine setting := by
    intro f declared arguments directory state calls genuine
    exact List.forall_mem_append.2
      ⟨genuine, List.forall_mem_singleton.2 ⟨declared, directory, state.1, rfl⟩⟩
  have keeps' : (finisher.withMemory : Finisher (η × List Invocation)).Keeps fun state _ _ =>
      ∀ i ∈ state.2, i.Genuine setting := by
    intro result w genuine
    rw [World.Holds, Finisher.withMemory_memory]
    exact genuine
  have start : (world.withMemory ([] : List Invocation)).Holds fun state _ _ =>
      ∀ i ∈ state.2, i.Genuine setting := List.forall_mem_nil _
  exact declared_hold keeps keeps' script start moves

open Installation

namespace Dialect

variable {d : Dialect} {f : FunctionSpec}

/-- A declared function of a bundled dialect is handled by the handler under its name. -/
theorem bundled_handled (bundled : d ∈ bundled) (declared : f ∈ d.definition.catalog.functions) :
    ∃ handle, (f.name, handle) ∈ d.handlers ∧ d.host f = handle := by
  have named : f.name ∈ d.handlers.map (·.1) := by
    rcases List.mem_cons.1 bundled with rfl | other
    · exact (by decide : ∀ f ∈ stateOfDecayCatalog.functions,
        f.name ∈ stateOfDecay.handlers.map (·.1)) f declared
    · obtain rfl := List.mem_singleton.1 other
      exact (by decide : ∀ f ∈ monsterHunterWorldCatalog.functions,
        f.name ∈ monsterHunterWorld.handlers.map (·.1)) f declared
  obtain ⟨⟨name, handle⟩, member, rfl⟩ := List.mem_map.1 named
  refine ⟨handle, member, ?_⟩
  rcases List.mem_cons.1 bundled with rfl | other
  · exact host_eq_of_mem stateOfDecay_distinct member
  · obtain rfl := List.mem_singleton.1 other
    exact host_eq_of_mem monsterHunterWorld_distinct member

/-- Only two handlers of the bundled dialects are not silent. -/
theorem bundled_silent (bundled : d ∈ bundled) {entry : String × Handler}
    (member : entry ∈ d.handlers) :
    (∀ arguments directory i, Silent (entry.2 arguments directory i)) ∨
      entry = ("Confirm", confirm) ∨ entry = ("Choose", choose) := by
  rcases List.mem_cons.1 bundled with rfl | other
  · simp only [stateOfDecay, List.mem_cons, List.not_mem_nil, or_false] at member
    rcases member with
      rfl | rfl | rfl | rfl | rfl | rfl | rfl | rfl | rfl | rfl | rfl | rfl
    exacts [.inl fileExists_silent, .inl copy_silent, .inl createDirectory_silent,
      .inl deleteFile_silent, .inl setDirectory_silent, .inl editIni_silent, .inr (.inl rfl),
      .inr (.inr rfl), .inl reportVersion_silent, .inl compareVersion_silent, .inl warn_silent,
      .inl fail_silent]
  · obtain rfl := List.mem_singleton.1 other
    simp only [monsterHunterWorld, List.mem_cons, List.not_mem_nil, or_false] at member
    rcases member with rfl | rfl | rfl | rfl | rfl | rfl
    exacts [.inl fileExists_silent, .inl copy_silent, .inl createDirectory_silent,
      .inr (.inl rfl), .inl warn_silent, .inl fail_silent]

/-- What the two functions that ask declare. -/
theorem bundled_asking (bundled : d ∈ bundled) (declared : f ∈ d.definition.catalog.functions) :
    (f.name = "Confirm" → f.returns = .bool) ∧
      (f.name = "Choose" → f.returns = .string ∧ f.failure = .fatal) := by
  rcases List.mem_cons.1 bundled with rfl | other
  · revert f
    decide
  · obtain rfl := List.mem_singleton.1 other
    revert f
    decide

/-- The functions of the bundled dialects give what they declare. -/
theorem bundled_obliging (bundled : d ∈ bundled) (config : Config) :
    (d.setting config).Obliging := by
  intro f declared arguments directory i
  have values : ∀ data, (d.host f arguments directory i).outcome = .value data →
      ∃ v, Value.ofDatum? data = some v ∧ v.kind = f.returns := by
    intro data gives
    have tells := bundled_tells bundled declared arguments directory i
    rw [gives] at tells
    exact tells.2
  obtain ⟨handle, member, same⟩ := bundled_handled bundled declared
  obtain ⟨confirms, chooses⟩ := bundled_asking bundled declared
  show (d.host f arguments directory i).Obliging f.returns
  rcases bundled_silent bundled member with silent | eq | eq
  · obtain ⟨cancel, asksNothing⟩ := silent arguments directory i
    rw [same] at values ⊢
    exact ⟨cancel, values, fun p asks => absurd asks (asksNothing p)⟩
  · obtain ⟨named, rfl⟩ := Prod.mk.inj eq
    rw [same] at values ⊢
    refine ⟨rfl, values, fun p asks => ?_⟩
    cases asks
    rw [confirms named]
    exact Prompt.answersItself nofun
  · obtain ⟨named, rfl⟩ := Prod.mk.inj eq
    rw [same] at values ⊢
    rcases choose_cases arguments directory i with ⟨-, fails⟩ | ⟨-, p, choice, some', asks⟩
    · rw [fails] at values ⊢
      exact ⟨rfl, values, nofun⟩
    · rw [asks] at values ⊢
      refine ⟨rfl, values, fun p' same' => ?_⟩
      cases same'
      obtain ⟨data, v, answers, gives⟩ := Prompt.answersItself fun _ => some'
      rw [choice] at gives
      exact ⟨data, v, answers, gives.trans (chooses named).1.symm⟩

/-- A choice between nothing but blanks is a fatal failure. -/
theorem choice_fails (bundled : d ∈ bundled) {config : Config} {i : Invocation}
    (genuine : i.Genuine (d.setting config)) (named : i.function.name = "Choose")
    (blank : NoOptions (i.arguments.string "options")) :
    i.FatallyFailed "no options to choose from" := by
  obtain ⟨declared, directory, installation, outcome⟩ := genuine
  have chosen : d.host i.function = choose := by
    rcases List.mem_cons.1 bundled with rfl | other
    · refine host_eq_of_mem stateOfDecay_distinct ?_
      rw [named]
      simp [stateOfDecay]
    · obtain rfl := List.mem_singleton.1 other
      exact absurd named ((by decide : ∀ f ∈ monsterHunterWorldCatalog.functions,
        f.name ≠ "Choose") _ declared)
  refine ⟨((bundled_asking bundled declared).2 named).2, ?_⟩
  rcases choose_cases i.arguments directory installation with ⟨-, fails⟩ | ⟨other, -⟩
  · rw [outcome]
    show (d.host i.function i.arguments directory installation).outcome = _
    rw [chosen, fails]
    rfl
  · exact absurd blank other

/-- A run of a script that is about to start, whose calls are recorded with what comes of them. -/
def recordedSession (d : Dialect) (config : Config) (script : Block) (world : World Installation) :
    Session (Installation × List Invocation) :=
  Session.ofRecorded (d.setting config) script
    (world.note .debug .dialects s!"starting {d.name} run") d.finisher

end Dialect

/-- Automatic answers always fit. To drive a run of a bundled dialect with them is to start it and to
answer each question that it raises, whatever the script is and whatever there is in the mod and in
the game: each has an automatic answer, which it accepts. The run does not wait in the end, it is
not aborted, and it has not failed because an answer or a result does not fit. In every history, a
choice between nothing but blanks raises no question: the call fails, it is the last one, and the
run has failed with it. -/
theorem unattended_installs {d : Dialect} (bundled : d ∈ Dialect.bundled) (config : Config)
    (script : Block) (lines : List String) (installation : Installation) :
    let world := d.world lines installation
    let session := d.session config script world
    let driven := session.drive automatic ()
    (∃ answers : List (Prompt × Datum),
      (∀ a ∈ answers, a.1.automaticAnswer? = some a.2 ∧ ∃ v, a.1.accept (.answer a.2) = .ok v) ∧
      session.reports (.start :: Session.answering answers) =
          answers.map (.prompt ·.1) ++ [driven.1] ∧
        (Session.Move.start :: Session.answering answers).foldl Session.move session =
          driven.2.1) ∧
    (∀ p, driven.1 ≠ .prompt p) ∧
    (∀ result, driven.1 = .result result → result.status ≠ .aborted ∧
      ∀ e, result.error = some e → e.code ∉ ["E405", "E406"]) ∧
    ∀ moves : List Session.Move,
      let after := moves.foldl Session.move session
      let recorded := moves.foldl Session.move (d.recordedSession config script world)
      after.Same recorded ∧
        recorded.world.calls.toList = recorded.world.host.2.map Invocation.call ∧
        ∀ earlier i later, recorded.world.host.2 = earlier ++ i :: later →
          i.function.name = "Choose" → NoOptions (i.arguments.string "options") →
            i.outcome = .failure "no options to choose from" ∧ later = [] ∧
              ∃ result c, after.result? = some result ∧
                result.TellsOf i "no options to choose from" c := by
  intro world session driven
  have modest := Dialect.finisher_modest bundled
  let start := world.note .debug .dialects s!"starting {d.name} run"
  have uncancelled : start.cancelled = none := rfl
  obtain ⟨answers, each, shown, comes, asksNothing, ends⟩ :=
    Session.drive_automatic (Dialect.bundled_obliging bundled config) script uncancelled
      modest.keepsRun modest.keepsStatus
  refine ⟨⟨answers, fun a member => ?_, shown, comes⟩, asksNothing, ends, fun moves => ?_⟩
  · obtain ⟨v, given, accepted⟩ := each a member
    exact ⟨given, v, accepted⟩
  · intro after recorded
    have same : after.Same recorded :=
      Session.remembering_same (d.setting config) script start modest.keepsRun _ [] moves
    obtain ⟨calls, fatal⟩ := Session.fatal_is_last (d.setting config) script start d.finisher
      modest.keepsRun modest.keepsStatus moves
    refine ⟨same, calls, fun earlier i later split named blank => ?_⟩
    have member : i ∈ recorded.world.host.2 := split ▸ List.mem_append_right _ List.mem_cons_self
    have genuine := Session.record_genuine (d.setting config) script start d.finisher moves i member
    have failed := Dialect.choice_fails bundled genuine named blank
    obtain ⟨isLast, result, c, ended, tells, -⟩ := fatal earlier i later _ split failed
    exact ⟨failed.2, isLast, result, c,
      same.result.trans (Session.result?_eq_some_iff.2 ended), tells⟩

/-- A script that asks for a yes, and then for a choice between nothing. -/
def askingForNothing : Block :=
  .mk default [
    .call (.mk default "Confirm" [.literal default (.string "sure")] []),
    .call (.mk default "Choose"
      [.literal default (.string "which"), .literal default (.string " | ")] [])]

/-- The run of this script. -/
def askingRun : Session Installation :=
  Dialect.stateOfDecay.session {} askingForNothing (Dialect.stateOfDecay.world [] nothingThere)

/-- The run of this script after a yes, with a record of its calls. -/
def askingRecorded : Session (Installation × List Invocation) :=
  [.start, .resume (.answer (.bool true))].foldl Session.move
    (Dialect.stateOfDecay.recordedSession {} askingForNothing
      (Dialect.stateOfDecay.world [] nothingThere))

theorem askingForNothing_unattended :
    (∃ answers result, answers ≠ [] ∧ (∀ a ∈ answers, a.1.automaticAnswer? = some a.2) ∧
      askingRun.reports (.start :: Session.answering answers) =
        answers.map (.prompt ·.1) ++ [.result result] ∧
      result.status = .failed) ∧
    ∃ result i c,
      ([.start, .resume (.answer (.bool true))].foldl Session.move askingRun).result? =
        some result ∧ result.TellsOf i "no options to choose from" c := by
  have bundled : Dialect.stateOfDecay ∈ Dialect.bundled := List.mem_cons_self
  obtain ⟨⟨answers, each, shown, -⟩, -, -, histories⟩ :=
    unattended_installs bundled {} askingForNothing [] nothingThere
  constructor
  · have failed : (match (askingRun.drive automatic ()).1 with
        | .result result => some result.status
        | _ => none) = some .failed := by decide +kernel
    have asks : askingRun.report .start ≠ (askingRun.drive automatic ()).1 := by decide +kernel
    split at failed
    · rename_i result eq
      refine ⟨answers, result, ?_, fun a member => (each a member).1, ?_,
        Option.some.inj failed⟩
      · rintro rfl
        exact asks (List.head_eq_of_cons_eq shown)
      · rw [← eq]
        exact shown
    · cases failed
  · obtain ⟨-, -, blank⟩ := histories [.start, .resume (.answer (.bool true))]
    have shape : askingRecorded.world.host.2.map (fun i =>
        (i.function.name, i.arguments.string "options")) = [("Confirm", ""), ("Choose", " | ")] := by
      decide +kernel
    have none' : NoOptions " | " := by decide
    obtain ⟨first, rest, record, -, shape⟩ := List.map_eq_cons_iff.1 shape
    obtain ⟨i, rest, rfl, called, shape⟩ := List.map_eq_cons_iff.1 shape
    cases List.map_eq_nil_iff.1 shape
    obtain ⟨named, options⟩ := Prod.mk.inj called
    rw [← options] at none'
    obtain ⟨-, -, result, c, ended, tells⟩ := blank [first] i [] record named none'
    exact ⟨result, i, c, ended, tells⟩

end InstallScript
