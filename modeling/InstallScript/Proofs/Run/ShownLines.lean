import InstallScript.Proofs.Run.Memory
import InstallScript.Proofs.Run.Confinement
import InstallScript.Proofs.Run.Upkeep
import InstallScript.Proofs.Syntax.FirstMisfit
import InstallScript.Proofs.Syntax.NodePlaces

/-!
The lines that diagnostics show. All of them are looked up by the line of a place: that of a token,
of a node of the tree, or of the call in progress. So a diagnostic of a text shows the line with the
number of its place, whichever stage it comes from, and where line feeds are the only breaks in
front of the place the line goes on there as the text does (`diagnostics_show_their_lines`). Behind
any other break it may be the line of something else (`separator_shifts_lines`).
-/

namespace InstallScript

variable {η : Type} {source : Source}

/-! ## The check -/

namespace Checker

variable {checker : Checker}

theorem shows_errorAt (lines : checker.lines = source.lines) (fault : Fault) {span : Span}
    (place : span.start.Counts source.text) :
    source.Shows (checker.errorAt fault span).diagnostic := by
  rw [errorAt, lines]
  exact Source.shows_withLine fault place

theorem shows_argumentError (lines : checker.lines = source.lines) {f : FunctionSpec}
    {p : ParamSpec} {e : Expr} (place : e.span.start.Counts source.text) {error : ScriptError}
    (found : checker.argumentError? f p e = some error) : source.Shows error.diagnostic := by
  cases e with
  | literal span l =>
    unfold argumentError? at found
    dsimp only at found
    split at found
    · cases found
    · cases found
      exact shows_errorAt lines _ place
  | _ => cases found

theorem shows_callErrors (lines : checker.lines = source.lines) {c : Call}
    (begins : (Node.expr (.call c)).Begins (·.Counts source.text)) :
    ∀ error ∈ checker.callErrors c, source.Shows error.diagnostic := by
  intro error member
  unfold callErrors at member
  split at member
  · rw [List.mem_singleton.1 member]
    exact shows_errorAt lines _ begins.start
  · split at member
    · rw [List.mem_singleton.1 member]
      exact shows_errorAt lines _ begins.start
    · obtain ⟨⟨p, e⟩, paired, found⟩ := List.mem_filterMap.1 member
      have given := (List.of_mem_zip paired).2
      exact shows_argumentError lines (begins.arguments c rfl e given) found

theorem shows_nodeErrors (lines : checker.lines = source.lines) (assigned : List String)
    {node : Node} (begins : node.Begins (·.Counts source.text)) :
    ∀ error ∈ checker.nodeErrors assigned node, source.Shows error.diagnostic := by
  intro error member
  unfold nodeErrors at member
  split at member
  · exact shows_callErrors lines begins error member
  · split at member
    · cases member
    · rw [List.mem_singleton.1 member]
      exact shows_errorAt lines _ begins.start
  · cases member

theorem shows_check (lines : checker.lines = source.lines) {script : Block}
    (begins : Begin (·.Counts source.text) script.walk) (maxErrors : Int) :
    ∀ d ∈ (checker.check script maxErrors).diagnostics.toList, source.Shows d := by
  intro d found
  obtain ⟨node, inScript, error, member, rfl⟩ := mem_check found
  exact shows_nodeErrors lines _ (begins node inScript) error member

end Checker

/-! ## What runs record -/

/-- A context whose lines are those of the text: its warnings show them, and the call in progress
begins in the text. -/
structure Context.Shows (source : Source) (c : Context) : Prop where
  lines : c.sourceLines = source.lines
  warnings : ∀ d ∈ c.warnings.toList, source.Shows d
  call : ∀ span, c.callSpan = some span → span.start.Counts source.text

/-- The diagnostics of a result: the warnings, and the error that the run has failed with. -/
def RunResult.diagnostics (r : RunResult) : List Diagnostic := r.warnings ++ r.error.toList

/-- A result whose diagnostics show their lines. -/
def RunResult.ShowsLines (source : Source) (r : RunResult) : Prop :=
  ∀ d ∈ r.diagnostics, source.Shows d

namespace Context.Shows

variable {c : Context}

theorem withScopes (shows : c.Shows source) (scopes : Scopes) :
    Context.Shows source { c with scopes } :=
  ⟨shows.lines, shows.warnings, shows.call⟩

theorem warningFor (shows : c.Shows source) (message code : String) {span : Option Span}
    (placed : ∀ s, span = some s → s.start.Counts source.text) :
    source.Shows (c.warningFor message span code) := by
  refine Source.shows_of_placed ?_ (.inl ?_)
  · cases span with
    | none => exact shows.call
    | some s => exact placed
  · rw [← shows.lines]
    rfl

theorem addWarning (shows : c.Shows source) (message code : String) {span : Option Span}
    (placed : ∀ s, span = some s → s.start.Counts source.text) :
    (c.addWarning message span code).Shows source where
  lines := shows.lines
  warnings d member := by
    rw [Context.addWarning, Array.toList_push, List.mem_append, List.mem_singleton] at member
    rcases member with earlier | rfl
    · exact shows.warnings d earlier
    · exact shows.warningFor message code placed
  call := shows.call

theorem remarks (shows : c.Shows source) {remarks : List Remark}
    (placed : ∀ x ∈ remarks, ∀ s, x.span = some s → s.start.Counts source.text) :
    (remarks.foldl (fun c x => c.addWarning x.message x.span x.code) c).Shows source := by
  induction remarks generalizing c with
  | nil => exact shows
  | cons x remarks ih =>
    obtain ⟨first, others⟩ := List.forall_mem_cons.1 placed
    exact ih (shows.addWarning x.message x.code first) others

end Context.Shows

/-- A host that does not make up places: where it says itself what a remark is about, that begins in
the text. -/
def Host.RemarksWithin (source : Source) (host : Host η) : Prop :=
  ∀ f arguments directory h, ∀ x ∈ (host f arguments directory h).warnings,
    ∀ s, x.span = some s → s.start.Counts source.text

theorem World.call_shows {host : Host η} (within : host.RemarksWithin source) {w : World η}
    (shows : w.context.Shows source) (f : FunctionSpec) (arguments : Arguments) {span : Span}
    (place : span.start.Counts source.text) :
    (w.call host f arguments span).2.context.Shows source := by
  have begun : (w.beginCall f arguments span).context.Shows source := by
    refine ⟨shows.lines, shows.warnings, ?_⟩
    rintro _ ⟨⟩
    exact place
  have remarked := begun.remarks (within f arguments w.context.directory w.host)
  refine ⟨remarked.lines, remarked.warnings, fun _ called => ?_⟩
  cases called

/-! ## Runs -/

/-- An error that shows the right line once it is looked up. -/
def ScriptError.Shows (source : Source) (error : ScriptError) : Prop :=
  source.Shows (error.withLineIfMissing source.lines).diagnostic

theorem ScriptError.shows_of_place (fault : Fault) {span : Span}
    (place : span.start.Counts source.text) :
    ScriptError.Shows source ⟨fault, some span, none⟩ :=
  Source.shows_withLine fault place

/-- The contract of runs whose diagnostics show their lines. Only an error that does so, too, may be
put into the run from outside. -/
def shownContract (source : Source) : Contract (World η) where
  waits _ w := w.context.Shows source
  resumes w r t :=
    t.context = w.context ∧ ∀ error, r = .leave (.failed error) → error.Shows source
  exits why w :=
    w.context.Shows source ∧ ∀ error, why = .failed error → error.Shows source

/-- A part of a run whose diagnostics show their lines. -/
abbrev Run.Showing {α : Type} (source : Source) (m : Run.Step η α) (P : α → Prop) : Prop :=
  Run.Upholds (shownContract source) (fun w : World η => w.context.Shows source) m P

namespace Run

variable {α : Type} {P : α → Prop}

theorem showing_fail (fault : Fault) {span : Span} (place : span.start.Counts source.text) :
    Showing source (Action.fail fault span : Step η α) P := by
  refine Action.Meets.leave fun w shows => ⟨shows, ?_⟩
  rintro _ ⟨⟩
  exact ScriptError.shows_of_place fault place

theorem showing_leave {why : Exit} (noError : ∀ error, why ≠ .failed error) :
    Showing source (Action.leave why : Step η α) P :=
  Action.Meets.leave fun _ shows => ⟨shows, fun error eq => absurd eq (noError error)⟩

theorem showing_checkCancelled :
    Showing source (checkCancelled : Step η Unit) fun _ => True := by
  intro w shows
  unfold checkCancelled
  split
  · exact showing_leave (fun _ eq => by cases eq) w shows
  · exact ⟨trivial, shows⟩

theorem showing_readVariable {span : Span} (place : span.start.Counts source.text)
    (name : String) : Showing source (readVariable span name : Step η Value) fun _ => True := by
  intro w shows
  unfold readVariable
  split
  · exact ⟨trivial, shows⟩
  · exact showing_fail _ place w shows

theorem showing_writeVariable {span : Span} (place : span.start.Counts source.text)
    (mode : AssignMode) (name : String) (value : Value) :
    Showing source (writeVariable span mode name value : Step η Unit) fun _ => True := by
  intro w shows
  unfold writeVariable
  split
  · exact ⟨trivial, shows.withScopes _⟩
  · split
    · exact ⟨trivial, shows.withScopes _⟩
    · exact showing_fail _ place w shows

theorem showing_inFrame {name : String} {m : Step η α} (shows : Showing source m P) :
    Showing source (inFrame name m) P :=
  Action.Meets.within (fun _ shows => shows.withScopes _) shows
    (fun _ _ exits => ⟨exits.1.withScopes _, exits.2⟩)
    fun _ _ both => ⟨both.1, both.2.withScopes _⟩

theorem showing_checkResult (f : FunctionSpec) {span : Span}
    (place : span.start.Counts source.text) (result : Option Value) :
    Showing source (checkResult f span result : Step η Value) fun _ => True := by
  unfold checkResult
  split
  · split
    · exact .pure trivial
    · exact showing_fail _ place
  · exact showing_fail _ place

theorem showing_handleFailure (f : FunctionSpec) {span : Span}
    (place : span.start.Counts source.text) (message : String) :
    Showing source (handleFailure f span message : Step η Value) fun _ => True := by
  intro w shows
  unfold handleFailure
  split
  · exact showing_fail _ place _ shows
  · refine ⟨trivial, shows.addWarning _ _ ?_⟩
    rintro _ ⟨⟩
    exact place

theorem showing_takeReply (f : FunctionSpec) {span : Span} (place : span.start.Counts source.text)
    (p : Prompt) {r : Resumption}
    (told : ∀ error, r = .leave (.failed error) → error.Shows source) :
    Showing source (takeReply f span p r : Step η Value) fun _ => True := by
  cases r with
  | leave why =>
    refine Action.Meets.leave fun _ shows => ⟨shows, ?_⟩
    rintro error rfl
    exact told error rfl
  | reply reply =>
    cases reply with
    | abort => exact showing_leave fun _ eq => by cases eq
    | answer data =>
      refine showing_checkCancelled.bind fun _ _ => ?_
      split
      · exact showing_checkResult f place _
      · exact showing_fail _ place

variable {setting : Setting η}

theorem showing_callWith (within : setting.host.RemarksWithin source) (f : FunctionSpec)
    {span : Span} (place : span.start.Counts source.text) (args : List Value)
    (kwargs : List (String × Value)) :
    Showing source (callWith setting f span args kwargs) fun _ => True := by
  unfold callWith
  split
  · rename_i arguments _
    intro w shows
    have after := World.call_shows within shows f arguments place
    rw [invoke_apply]
    cases (w.call setting.host f arguments span).1 with
    | value data => exact showing_checkResult f place _ _ after
    | failure message => exact showing_handleFailure f place message _ after
    | crash defect => exact showing_leave (fun _ eq => by cases eq) _ after
    | question p =>
      refine ⟨after, fun r t resumes => ?_⟩
      obtain ⟨same, told⟩ := resumes
      have shows' : t.context.Shows source := by
        rw [same]
        exact after
      exact showing_takeReply f place p told t shows'
  · exact showing_fail _ place

end Run

/-! ## Trees -/

/-- Nothing differs, and the nodes that a run may fail at begin at places of some sort. -/
def Kinship.placed (P : Location → Prop) : Kinship where
  span s s' := s = s' ∧ P s.start
  target := Eq
  read span name e := e = .var span name ∧ P span.start
  call c c' := c = c' ∧ P c.span.start

theorem Kinship.allows_placed {P : Location → Prop} {node : Node} (place : P node.span.start) :
    Kinship.same.Allows (.placed P) node := by
  cases node with
  | expr e =>
    cases e with
    | literal => exact trivial
    | var | call | binary | unary => exact fun _ same => ⟨same, place⟩
  | stmt s =>
    cases s with
    | assign | forLoop => exact ⟨fun _ same => ⟨same, place⟩, fun _ => id⟩
    | whileLoop => exact fun _ same => ⟨same, place⟩
    | call | choice | block | ret | comment => exact trivial
  | keyword | branch | block => exact trivial

namespace Run

variable {setting : Setting η}

/-- The diagnostics of single steps show their lines, so those of a tree do. -/
theorem showing_parallel (within : setting.host.RemarksWithin source) :
    Parallel (.placed (·.Counts source.text)) setting setting.host
      fun P m _ => Showing source m P where
  pure := .pure
  bind := .bind
  returned := showing_leave fun _ eq => by cases eq
  fail spans _ := showing_fail _ spans.2
  overflow _ := showing_leave fun _ eq => by cases eq
  checkCancelled := showing_checkCancelled
  readVariable read := showing_readVariable read.2 _
  writeVariable spans _ := showing_writeVariable spans.2 _ _ _
  inFrame := showing_inFrame
  lookup calls := by rw [calls.1]
  unknown calls _ := showing_fail _ calls.2
  call calls _ _ _ := showing_callWith within _ calls.2 _ _

theorem showing_script (within : setting.host.RemarksWithin source) {script : Block}
    (begins : Begin (·.Counts source.text) script.walk) :
    Showing source (executeAll setting script.statements) fun _ => True := by
  have kin : StmtsKin (.placed (·.Counts source.text)) script.statements script.statements :=
    (stmts_kin_same _).imp fun node member =>
      Kinship.allows_placed (begins.statements node member).start
  exact (showing_parallel within).executeAll kin

end Run

/-! ## Sessions -/

/-- What is done when a run is over adds only diagnostics that show their lines. -/
def Finisher.Shows (source : Source) (finisher : Finisher η) : Prop :=
  ∀ result w, w.context.Shows source → (∀ r, result = some r → r.ShowsLines source) →
    (finisher.effect result w).2.context.Shows source ∧
      ∀ r, (finisher.effect result w).1 = some r → r.ShowsLines source

theorem Finisher.idle_shows : (Finisher.idle : Finisher η).Shows source := by
  intro result w shows results
  cases result <;> exact ⟨shows, results⟩

namespace Installation

theorem updateFile_shows (edits : List IniEdit) {state : RunResult × World Installation}
    (result : state.1.ShowsLines source) (shows : state.2.context.Shows source)
    (file : List String) : (updateFile edits state file).1.ShowsLines source ∧
      (updateFile edits state file).2.context.Shows source := by
  unfold updateFile
  dsimp only
  split
  · exact ⟨result, shows⟩
  · have own (message : String) :
        source.Shows (state.2.context.warningFor message none "W501") :=
      shows.warningFor message "W501" fun _ none => by cases none
    refine ⟨fun d member => ?_, shows.addWarning _ _ fun _ none => by cases none⟩
    rw [RunResult.diagnostics, List.append_assoc, List.mem_append, List.mem_append,
      List.mem_singleton] at member
    rcases member with earlier | rfl | error
    · exact result d (List.mem_append_left _ earlier)
    · exact own _
    · exact result d (List.mem_append_right _ error)

theorem updateFiles_shows (edits : List IniEdit) (files : List (List String))
    {state : RunResult × World Installation} (result : state.1.ShowsLines source)
    (shows : state.2.context.Shows source) :
    (files.foldl (updateFile edits) state).1.ShowsLines source ∧
      (files.foldl (updateFile edits) state).2.context.Shows source := by
  induction files generalizing state with
  | nil => exact ⟨result, shows⟩
  | cons file files ih =>
    obtain ⟨result', shows'⟩ := updateFile_shows edits result shows file
    exact ih result' shows'

theorem settleEdits_shows : settleEdits.Shows source := by
  intro result w shows results
  rcases settleEdits_cases result w with ⟨-, eq⟩ | ⟨r, rfl, -, eq⟩ | ⟨r, message, rfl, -, eq⟩
  · rw [eq]
    exact ⟨shows, results⟩
  · rw [eq]
    obtain ⟨result', shows'⟩ := @updateFiles_shows source w.host.pendingEdits
      (editedFiles w.host.pendingEdits) (r, w) (results r rfl) shows
    refine ⟨shows', ?_⟩
    rintro _ ⟨⟩
    exact result'
  · rw [eq]
    exact ⟨shows, results⟩

end Installation

theorem shownContract_lasts :
    (shownContract source : Contract (World η)).Lasts fun w => w.context.Shows source where
  cancelled _ shows := shows
  waiting _ shows := shows
  resumes _ told := told
  dropped shows _ := ⟨shows, fun _ eq => by cases eq⟩

/-- The result that an exit is shows its lines if the error does that the run has failed with. -/
theorem Session.resultOfExit_shows {w : World η} {why : Exit}
    (exits : (shownContract source).exits why w) {result : RunResult}
    (results : resultOfExit w why = .ok result) : result.ShowsLines source := by
  obtain ⟨shows, failed⟩ := exits
  have quiet (status : RunStatus) (reason : Option String) :
      (resultOf w status none reason).ShowsLines source := by
    intro d member
    exact shows.warnings d ((List.append_nil w.context.warnings.toList) ▸ member)
  cases why with
  | returned =>
    cases results
    exact quiet _ _
  | aborted reason =>
    cases results
    exact quiet _ _
  | failed error =>
    cases results
    intro d member
    rcases List.mem_append.1 member with earlier | last
    · exact shows.warnings d earlier
    · rw [List.mem_singleton.1 last, shows.lines]
      exact failed error rfl
  | crashed defect => cases results

/-- All diagnostics of a session: the warnings so far and those of its result. -/
def Session.diagnostics (s : Session η) : List Diagnostic :=
  s.world.context.warnings.toList ++ (s.result?.map RunResult.diagnostics).getD []

theorem Session.Over.shows {finisher : Finisher η} (acts : finisher.Shows source)
    {result : RunResult} {w : World η} (ended : Over (shownContract source) finisher result w) :
    w.context.Shows source ∧ result.ShowsLines source := by
  obtain @⟨why, v, noted, before, cancelled, exits, results, rfl, rfl, rfl⟩ := ended
  have own : before.ShowsLines source := resultOfExit_shows exits results
  obtain ⟨shows, acted⟩ := acts (some before)
    (v.note .info .runs ("script " ++ before.summary)) exits.1 fun _ same => by
      cases same
      exact own
  refine ⟨shows, ?_⟩
  cases effect : (finisher.effect (some before)
    (v.note .info .runs ("script " ++ before.summary))).1 with
  | none => exact own
  | some result => exact acted result effect

/-- A session that keeps the contract shows the right lines, however far it has come. -/
theorem Session.Upholds.shows {s : Session η} (acts : s.finisher.Shows source)
    (upholds : s.Upholds (shownContract source) fun w => w.context.Shows source) :
    ∀ d ∈ s.diagnostics, source.Shows d := by
  obtain ⟨w, phase, finisher⟩ := s
  -- without a result there are no diagnostics but the warnings so far
  have onlyWarnings (shows : w.context.Shows source) :
      ∀ d ∈ w.context.warnings.toList ++ [], source.Shows d := by
    rw [List.append_nil]
    exact shows.warnings
  cases phase with
  | fresh program => exact onlyWarnings upholds.1
  | waiting p next => exact onlyWarnings upholds.1
  | finished result =>
    obtain ⟨shows, results⟩ := Over.shows acts upholds
    exact List.forall_mem_append.2 ⟨shows.warnings, results⟩
  | broken last =>
    obtain ⟨d, v, exits, later⟩ := upholds
    have lapses (u : World η) (shows : u.context.Shows source) :
        (finisher.effect none u).2.context.Shows source :=
      (acts none u shows nofun).1
    exact onlyWarnings (later.keeps (fun _ _ shows => shows) lapses exits.1)

/-- Over a whole history the diagnostics of a run show their lines. -/
theorem Session.moves_show {setting : Setting η} (within : setting.host.RemarksWithin source)
    {script : Block} (begins : Begin (·.Counts source.text) script.walk) {world : World η}
    (shows : world.context.Shows source) {finisher : Finisher η} (acts : finisher.Shows source)
    {moves : List Move} (told : ∀ error, .fail error ∈ moves → error.Shows source) :
    ∀ d ∈ (moves.foldl Session.move (ofScript setting script world finisher)).diagnostics,
      source.Shows d := by
  have tells : ∀ m ∈ moves, ∀ r, m.told? = some r →
      ∀ w : World η, (shownContract source).resumes w r w := by
    intro m member r told' w
    refine ⟨rfl, ?_⟩
    rintro error rfl
    cases m with
    | fail error' =>
      cases told'
      exact told error member
    | start | resume | abort | cancel => cases told'
  have fresh : (ofScript setting script world finisher).Upholds (shownContract source)
      fun w => w.context.Shows source := by
    refine ⟨shows, fun w shows => ?_⟩
    refine (Run.showing_script within begins w shows).imp fun _ _ both => ⟨both.2, ?_⟩
    rintro _ ⟨⟩
  refine Upholds.shows ?_ (moves_uphold shownContract_lasts tells fresh)
  rw [moves_finisher]
  exact acts

/-! ## The bundled dialects -/

namespace Installation

/-- A handler whose remarks are about the call in progress. -/
def RemarksOnCall (handle : Handler) : Prop :=
  ∀ arguments directory i, ∀ x ∈ (handle arguments directory i).warnings, x.span = none

theorem setDirectory_remarksOnCall : RemarksOnCall setDirectory := by
  intro arguments directory i
  unfold setDirectory
  dsimp only
  split <;> exact List.forall_mem_nil _

theorem compareVersion_remarksOnCall : RemarksOnCall compareVersion := by
  intro arguments directory i
  unfold compareVersion
  split <;> exact List.forall_mem_nil _

theorem copy_remarksOnCall : RemarksOnCall copy := by
  intro arguments directory i
  unfold copy
  dsimp only
  split
  · exact List.forall_mem_nil _
  · split <;> exact List.forall_mem_nil _

theorem createDirectory_remarksOnCall : RemarksOnCall createDirectory := by
  intro arguments directory i
  unfold createDirectory
  dsimp only
  split
  · exact List.forall_mem_nil _
  · split <;> exact List.forall_mem_nil _

theorem deleteFile_remarksOnCall : RemarksOnCall deleteFile := by
  intro arguments directory i
  unfold deleteFile
  dsimp only
  split <;> exact List.forall_mem_nil _

theorem editIni_remarksOnCall : RemarksOnCall editIni := by
  intro arguments directory i
  unfold editIni
  split <;> exact List.forall_mem_nil _

theorem choose_remarksOnCall : RemarksOnCall choose := by
  intro arguments directory i
  unfold choose
  dsimp only
  split <;> exact List.forall_mem_nil _

theorem warn_remarksOnCall : RemarksOnCall warn := fun _ _ _ x member => by
  rw [List.mem_singleton.1 member]

theorem host_remarksWithin {handlers : List (String × Handler)}
    (remark : ∀ entry ∈ handlers, RemarksOnCall entry.2) :
    (host handlers).RemarksWithin source := by
  intro f arguments directory i x member s about
  rcases host_cases f with ⟨entry, inHandlers, same⟩ | same
  · rw [same] at member
    cases (remark entry inHandlers arguments directory i x member).symm.trans about
  · rw [same] at member
    cases member

end Installation

open Installation in
/-- Runs of the bundled dialects do what is asked of hosts and finishers here. -/
theorem Dialect.bundled_shows {d : Dialect} (bundled : d ∈ bundled) :
    d.host.RemarksWithin source ∧ d.finisher.Shows source := by
  have silent {handle : Handler}
      (none : ∀ arguments directory i, (handle arguments directory i).warnings = []) :
      RemarksOnCall handle := by
    intro arguments directory i x member
    rw [none arguments directory i] at member
    cases member
  have remark : ∀ entry ∈ d.handlers, RemarksOnCall entry.2 := by
    rcases List.mem_cons.1 bundled with rfl | other
    · simp only [stateOfDecay, List.forall_mem_cons]
      exact ⟨silent fun _ _ _ => rfl, copy_remarksOnCall, createDirectory_remarksOnCall,
        deleteFile_remarksOnCall, setDirectory_remarksOnCall, editIni_remarksOnCall,
        silent fun _ _ _ => rfl, choose_remarksOnCall, silent fun _ _ _ => rfl,
        compareVersion_remarksOnCall, warn_remarksOnCall, silent fun _ _ _ => rfl,
        List.forall_mem_nil _⟩
    · obtain rfl := List.mem_singleton.1 other
      simp only [monsterHunterWorld, List.forall_mem_cons]
      exact ⟨silent fun _ _ _ => rfl, copy_remarksOnCall, createDirectory_remarksOnCall,
        silent fun _ _ _ => rfl, warn_remarksOnCall, silent fun _ _ _ => rfl,
        List.forall_mem_nil _⟩
  refine ⟨host_remarksWithin remark, ?_⟩
  rcases bundled_finisher bundled with same | same
  · rw [same]
    exact settleEdits_shows
  · rw [same]
    exact Finisher.idle_shows

/-! ## Texts -/

/-- Every diagnostic shows the line that is looked up by the stretch it is about, unless the input
ends unexpectedly: the line with the number of the place where the stretch begins. Where line feeds
are the only breaks in front of the place, the line goes on there with the characters of the text,
up to the next break. So it is with what is wrong with the tokens of a text and with their order,
with all that a check finds in its tree, and with the warnings and the result of a run that starts
with the lines of the text. -/
theorem diagnostics_show_their_lines (g : Grammar) (source : Source) :
    (∀ error stop, (TokenStream.ofSource g source).ending = .failed error stop →
      source.Shows error.diagnostic) ∧
    (∀ error, Block.ofSource g source = .error (.script error) → source.Shows error.diagnostic) ∧
    ∀ script, Block.ofSource g source = .ok script →
      (∀ (checker : Checker) (maxErrors : Int), checker.lines = source.lines →
        ∀ d ∈ (checker.check script maxErrors).diagnostics.toList, source.Shows d) ∧
      ∀ {η : Type} (setting : Setting η) {world : World η} {finisher : Finisher η}
        {moves : List Session.Move}, setting.host.RemarksWithin source → finisher.Shows source →
        world.context.sourceLines = source.lines → world.context.warnings = #[] →
        world.context.callSpan = none →
        (∀ error, .fail error ∈ moves → error.Shows source) →
        let run := Session.ofScript setting script world finisher
        ∀ d ∈ (moves.foldl Session.move run).diagnostics, source.Shows d := by
  refine ⟨(TokenStream.ofSource_placed g source).error, fun _ => Block.shows_of_ofSource,
    fun script parses => ?_⟩
  have begins := Block.placed_of_ofSource parses
  refine ⟨fun checker maxErrors lines => Checker.shows_check lines begins maxErrors, ?_⟩
  intro η setting world finisher moves within acts lines noWarnings noCall told
  have shows : world.context.Shows source := by
    refine ⟨lines, ?_, fun span called => ?_⟩
    · rw [noWarnings]
      exact List.forall_mem_nil _
    · cases noCall.symm.trans called
  exact Session.moves_show within begins shows acts told

/-- A text of two lines, with a mistake in the second one that only a run finds. -/
def quotientSource : Source := .ofString "y = 2\r\nx = 1 / 0"

/-- A run of a script of the text, as it begins. -/
def quotientRun (script : Block) : Session Unit :=
  Session.ofScript asker script ⟨{ sourceLines := quotientSource.lines }, (), none, #[], #[]⟩

/-- The error of the run shows the second line, and this goes on there with the quotient. -/
theorem quotient_shown : asker.host.RemarksWithin quotientSource ∧
    (Finisher.idle : Finisher Unit).Shows quotientSource ∧
    Text.FeedsOnly (quotientSource.text.take 11) ∧
    ∃ script, Block.ofSource Grammar.second quotientSource = .ok script ∧
      (quotientRun script).start.2.diagnostics.map
          (fun d => (d.code, d.span.map (·.start), d.sourceLine)) =
        [("E403", some ⟨2, 5, 11⟩, some "x = 1 / 0")] ∧
      ∀ d ∈ (quotientRun script).start.2.diagnostics, quotientSource.Shows d := by
  have silent : asker.host.RemarksWithin quotientSource :=
    fun _ _ _ _ => List.forall_mem_nil _
  have idle : (Finisher.idle : Finisher Unit).Shows quotientSource := Finisher.idle_shows
  have feeds : Text.FeedsOnly (quotientSource.text.take 11) := by
    repeat' first | exact .nil | refine .pair ?_ | refine .other rfl ?_
  have made : ((Block.ofSource Grammar.second quotientSource).map fun script =>
      (quotientRun script).start.2.diagnostics.map
        fun d => (d.code, d.span.map (·.start), d.sourceLine)).toOption =
      some [("E403", some ⟨2, 5, 11⟩, some "x = 1 / 0")] := by
    decide +kernel
  cases parsed : Block.ofSource Grammar.second quotientSource with
  | error e =>
    rw [parsed] at made
    cases made
  | ok script =>
    rw [parsed] at made
    obtain ⟨-, -, trees⟩ := diagnostics_show_their_lines Grammar.second quotientSource
    obtain ⟨-, runs⟩ := trees script parsed
    have noErrors (error : ScriptError) (member : .fail error ∈ [Session.Move.start]) :
        error.Shows quotientSource := by
      cases List.mem_singleton.1 member
    refine ⟨silent, idle, feeds, script, rfl, Option.some.inj made, ?_⟩
    exact runs asker silent idle rfl rfl rfl noErrors

/-- A text with a vertical tab in a string and a mistake in the line below. -/
def tabbedSource : Source := .ofString "x = \"a\x0bb\"\n)"

/-- What is wrong with the text. -/
def strayParenthesis : ScriptError where
  fault := .unexpectedToken "statement" "punctuation ')'"
  span := some ⟨⟨2, 1, 10⟩, ⟨2, 2, 11⟩, none⟩
  sourceLine := some "b\""

/-- The vertical tab does not end a line for the places of the text, and it ends one of those that
are shown: the end of the string is shown for the line behind it. -/
theorem separator_shifts_lines :
    Block.ofSource Grammar.second tabbedSource = .error (.script strayParenthesis) ∧
      ∃ span line, strayParenthesis.diagnostic.span = some span ∧
        strayParenthesis.diagnostic.sourceLine = some line ∧
        line.toList.drop (span.start.column - 1) ≠
          (tabbedSource.text.drop span.start.offset).takeWhile (· ≠ '\n') := by
  have rejected : Block.ofSource Grammar.second tabbedSource =
      .error (.script strayParenthesis) := by
    decide +kernel
  exact ⟨rejected, _, _, rfl, rfl, by decide +kernel⟩

end InstallScript
