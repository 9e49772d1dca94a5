import Mathlib.Data.List.Induction
import InstallScript.Proofs.Run.Memory
import InstallScript.Proofs.Run.Upkeep

/-!
The protocol of sessions. A session of a run that comes to no defect is fresh, waits or is over,
whatever is done to it in whatever order (`session_orderly`): a move out of place is refused and
changes nothing, a result stays, and the finisher acts once, on the result, after which no function
of the host is called.
-/

namespace InstallScript

variable {η : Type}

/-- The contract of runs that come to no defect. While such a run waits only its cancellation may
change, and nobody ends it with a defect. -/
def soundContract (η : Type) : Contract (World η) where
  waits _ _ := True
  resumes w r t := (∃ cancelled, t = { w with cancelled }) ∧ ∀ d, r ≠ .leave (.crashed d)
  exits why _ := ∀ d, why ≠ .crashed d

/-- Whatever it is told and whether it is cancelled or not, a run of the script from the world comes
to no defect: all that ends it early are errors of the script. -/
def Run.OnlyScriptErrors (setting : Setting η) (script : Block) (world : World η) : Prop :=
  ∀ cancelled, (Run.executeAll setting script.statements { world with cancelled }).Meets
    (soundContract η) fun _ _ => True

theorem sound_lasts (world : World η) :
    (soundContract η).Lasts fun w => ∃ cancelled, w = { world with cancelled } where
  cancelled := by
    rintro w reason ⟨cancelled, rfl⟩
    exact ⟨some reason, rfl⟩
  waiting _ _ := trivial
  resumes := by
    rintro w r t reason ⟨⟨cancelled, rfl⟩, sound⟩
    exact ⟨⟨cancelled, rfl⟩, sound⟩
  dropped _ _ := fun _ eq => nomatch eq

theorem Run.sound_housekeeping : Housekeeping (soundContract η) fun _ => True where
  scopes _ _ := trivial
  popped sound := sound
  ends usual _ d eq := by
    subst eq
    cases usual

namespace Session

/-! ## What a session shows -/

/-- The question that a move hands out. -/
def handedOut? : Report → Option Prompt
  | .prompt p => some p
  | _ => none

/-- The question that was handed out last over a history. -/
def lastPrompt : Session η → List Move → Option Prompt
  | _, [] => none
  | s, m :: moves => ((s.move m).lastPrompt moves).or (handedOut? (s.report m))

/-- The states of a session, as it shows them: fresh; waiting for the reply to the question that was
handed out last; or over, with a result. -/
inductive Stands (s : Session η) (last : Option Prompt) : Prop
  | fresh {program : Action (World η) Unit} (phase : s.phase = .fresh program)
    (closed : s.pending = none) (noResult : s.result? = none)
  | waiting {p : Prompt} {next : Resumption → World η → Course (World η) Unit}
    (phase : s.phase = .waiting p next) (pending : s.pending = some p) (handedOut : last = some p)
    (noResult : s.result? = none)
  | ended {result : RunResult} (phase : s.phase = .finished result) (closed : s.pending = none)
    (has : s.result? = some result)

theorem lastPrompt_concat (s : Session η) (moves : List Move) (m : Move) :
    s.lastPrompt (moves ++ [m]) =
      (handedOut? ((moves.foldl Session.move s).report m)).or (s.lastPrompt moves) := by
  induction moves generalizing s with
  | nil => exact (Option.or_none (o := _)).symm
  | cons m' moves ih =>
    show ((s.move m').lastPrompt (moves ++ [m])).or _ = _
    rw [ih, Option.or_assoc]
    rfl

/-! ## Moves -/

theorem conclude_phase (s : Session η) (before : RunResult) :
    ∃ result, (s.conclude before).2.phase = .finished result := by
  rw [conclude, complete_snd]
  exact ⟨_, rfl⟩

theorem settle_waiting {s : Session η} {last : Option Prompt} {c : Course (World η) Unit}
    {p : Prompt} {next : Resumption → World η → Course (World η) Unit}
    (waits : (s.settle last c).2.phase = .waiting p next) : (s.settle last c).1 = .prompt p := by
  cases c with
  | done _ w =>
    obtain ⟨result, ended⟩ := conclude_phase { s with world := w } (resultOf w .success none none)
    cases ended.symm.trans waits
  | ask p w next =>
    cases waits
    rfl
  | exit why w =>
    cases results : resultOfExit w why with
    | ok result =>
      rw [settle_of_ok results] at waits
      obtain ⟨result, ended⟩ := conclude_phase { s with world := w } result
      cases ended.symm.trans waits
    | error d =>
      rw [settle_of_error results] at waits
      cases waits

/-- A move after which a session waits has handed out the question, or the session has waited for it
already. -/
theorem Step.waiting {s : Session η} {m : Move} {out : Report × Session η} (step : s.Step m out)
    {p : Prompt} {next : Resumption → World η → Course (World η) Unit}
    (waits : out.2.phase = .waiting p next) :
    out.1 = .prompt p ∨ handedOut? out.1 = none ∧ s.phase = .waiting p next := by
  cases step with
  | started | told => exact .inl (settle_waiting waits)
  | dropped =>
    obtain ⟨result, ended⟩ := conclude_phase s (resultOf s.world .aborted none (some _))
    cases ended.symm.trans waits
  | kept | cancelled | refused | abandoned => exact .inr ⟨rfl, waits⟩
  | lapsed => cases waits

/-- A session that is over stays so, and nothing but the cancellation changes any more. -/
theorem Step.ended {s : Session η} {m : Move} {out : Report × Session η} (step : s.Step m out)
    {result : RunResult} (ended : s.phase = .finished result) :
    ∃ cancelled, out.2 = { s with world := { s.world with cancelled } } := by
  cases step with
  | started phase | told phase | dropped phase | abandoned phase | lapsed phase =>
    cases ended.symm.trans phase
  | kept | refused => exact ⟨s.world.cancelled, rfl⟩
  | cancelled reason => exact ⟨some reason, rfl⟩

/-- Of a session that is over, or that has broken off with no question open, nothing but the
cancellation changes any more. -/
theorem move_of_closing {s : Session η}
    (closing : (∃ result, s.phase = .finished result) ∨ s.phase = .broken none) (m : Move) :
    ∃ cancelled, s.move m = { s with world := { s.world with cancelled } } := by
  obtain ⟨world, phase, finisher⟩ := s
  rcases closing with ⟨result, rfl⟩ | rfl
  · cases m with
    | cancel reason => exact ⟨some reason, rfl⟩
    | start | resume | abort | fail => exact ⟨world.cancelled, rfl⟩
  · cases m with
    | cancel reason => exact ⟨some reason, rfl⟩
    | start | resume | abort | fail => exact ⟨world.cancelled, rfl⟩

theorem moves_of_closing {s : Session η}
    (closing : (∃ result, s.phase = .finished result) ∨ s.phase = .broken none)
    (moves : List Move) :
    ∃ cancelled, moves.foldl Session.move s = { s with world := { s.world with cancelled } } := by
  induction moves generalizing s with
  | nil => exact ⟨s.world.cancelled, rfl⟩
  | cons m moves ih =>
    obtain ⟨cancelled, eq⟩ := move_of_closing closing m
    obtain ⟨cancelled', eq'⟩ := ih (s := s.move m) (by rw [eq]; exact closing)
    refine ⟨cancelled', ?_⟩
    rw [List.foldl_cons, eq', eq]

/-- A move out of place is refused and changes nothing. -/
theorem Step.outOfPlace {s : Session η} {m : Move} {out : Report × Session η} (step : s.Step m out)
    (outOfPlace : ¬ s.Permits m) (unbroken : ∀ last, s.phase ≠ .broken last) :
    out = (.raised m.refusal, s) := by
  cases step with
  | started fresh => exact absurd ⟨_, fresh⟩ outOfPlace
  | @told p next m r waiting told =>
    cases m with
    | resume | fail => exact absurd ⟨p, next, waiting⟩ outOfPlace
    | abort => exact absurd unbroken outOfPlace
    | start | cancel => cases told
  | dropped | kept => exact absurd unbroken outOfPlace
  | cancelled => exact absurd trivial outOfPlace
  | refused => rfl
  | abandoned broken | lapsed broken => exact absurd broken (unbroken _)

/-! ## Histories -/

theorem unbroken_of_onlyScriptErrors {setting : Setting η} {script : Block} {world : World η}
    (errors : Run.OnlyScriptErrors setting script world) (finisher : Finisher η)
    (moves : List Move) (last : Option Prompt) :
    (moves.foldl Session.move (ofScript setting script world finisher)).phase ≠ .broken last := by
  intro broken
  have start : (ofScript setting script world finisher).Upholds (soundContract η)
      fun w => ∃ cancelled, w = { world with cancelled } := by
    refine ⟨⟨world.cancelled, rfl⟩, ?_⟩
    rintro w ⟨cancelled, rfl⟩
    exact (errors cancelled).imp fun _ _ _ _ eq => nomatch eq
  have upholds : (moves.foldl Session.move (ofScript setting script world finisher)).Upholds
      (soundContract η) fun w => ∃ cancelled, w = { world with cancelled } :=
    moves_uphold (sound_lasts world)
      (fun _ _ _ told w => ⟨⟨w.cancelled, rfl⟩, Move.told_ne_crashed told⟩) start
  obtain ⟨d, v, sound, -⟩ := upholds.broken broken
  exact sound d rfl

theorem lastPrompt_of_waiting {s : Session η} (fresh : ∃ program, s.phase = .fresh program)
    (moves : List Move) {p : Prompt} {next : Resumption → World η → Course (World η) Unit}
    (waits : (moves.foldl Session.move s).phase = .waiting p next) :
    s.lastPrompt moves = some p := by
  induction moves using List.reverseRecOn generalizing p next with
  | nil =>
    obtain ⟨program, fresh⟩ := fresh
    cases fresh.symm.trans waits
  | append_singleton moves m ih =>
    rw [lastPrompt_concat]
    rw [List.foldl_append] at waits
    rcases ((moves.foldl Session.move s).step m).waiting waits with asks | ⟨silent, waited⟩
    · have asks : (moves.foldl Session.move s).report m = .prompt p := asks
      rw [asks]
      rfl
    · have silent : handedOut? ((moves.foldl Session.move s).report m) = none := silent
      rw [silent, Option.none_or]
      exact ih waited

theorem stands {s : Session η} {last : Option Prompt} (unbroken : ∀ last, s.phase ≠ .broken last)
    (handedOut : ∀ p next, s.phase = .waiting p next → last = some p) : s.Stands last := by
  obtain ⟨world, phase, finisher⟩ := s
  cases phase with
  | fresh program => exact .fresh rfl rfl rfl
  | waiting p next => exact .waiting rfl rfl (handedOut p next rfl) rfl
  | finished result => exact .ended rfl rfl rfl
  | broken last => exact absurd rfl (unbroken last)

end Session

/-! ## The finisher -/

/-- A finisher that takes note of each of its calls, by the result as it leaves it. -/
def Finisher.noting (finisher : Finisher η) : Finisher (η × List (Option RunResult)) :=
  fun result w =>
    let acted := finisher.effect result (w.mapHost Prod.fst)
    .ok (acted.1, acted.2.withMemory (w.host.2 ++ [acted.1]))

theorem Finisher.effect_some (finisher : Finisher η) (before : RunResult) (w : World η) :
    ∃ result, (finisher.effect (some before) w).1 = some result := by
  cases acts : finisher (some before) w with
  | ok out =>
    rw [effect_of_ok acts]
    exact ⟨_, Option.or_some⟩
  | error d =>
    rw [effect_of_error acts]
    exact ⟨before, rfl⟩

theorem Finisher.noting_effect (finisher : Finisher η) (result : Option RunResult)
    (w : World (η × List (Option RunResult))) : finisher.noting.effect result w =
      ((finisher.effect result (w.mapHost Prod.fst)).1,
        (finisher.effect result (w.mapHost Prod.fst)).2.withMemory
          (w.host.2 ++ [(finisher.effect result (w.mapHost Prod.fst)).1])) := by
  have acts : finisher.noting result w = .ok _ := rfl
  rw [effect_of_ok acts]
  cases result with
  | none => exact congrArg (·, _) Option.or_none
  | some before =>
    obtain ⟨after, eq⟩ := finisher.effect_some before (w.mapHost Prod.fst)
    rw [eq]
    rfl

theorem Finisher.alike_noting (finisher : Finisher η) :
    finisher.Alike (remembered η (List (Option RunResult))) finisher.noting := by
  intro result w w' like
  cases World.Like.remembered_iff.1 like
  rw [noting_effect]
  exact ⟨rfl, World.Like.remembered_iff.2 rfl⟩

/-- A host that never looks at the notes of the finisher. -/
def Host.unaware (host : Host η) : Host (η × List (Option RunResult)) :=
  host.remembering fun notes _ _ _ => notes

/-- The contract of runs during which the finisher has not been called. -/
def silentContract (η : Type) : Contract (World (η × List (Option RunResult))) where
  waits _ w := w.host.2 = []
  resumes w _ t := t.host = w.host
  exits _ w := w.host.2 = []

theorem Run.silent_housekeeping : Housekeeping (silentContract η) (·.host.2 = []) where
  scopes _ silent := silent
  popped silent := silent
  ends _ silent := silent

theorem Run.silent_returns {w : World (η × List (Option RunResult))} {f : FunctionSpec}
    {span : Span} {outcome : Outcome} (silent : w.host.2 = []) :
    Returns (silentContract η) (·.host.2 = []) f span w outcome := by
  have stays (v : World (η × List (Option RunResult))) (same : v.host = w.host) :
      v.host.2 = [] := by
    rw [same]
    exact silent
  cases outcome with
  | value | crash => exact silent
  | failure message =>
    exact handleFailure_upholds (fun v _ same _ => stays v same) fun v _ same _ => stays v same
  | question p => exact ⟨silent, fun r t resumes => ⟨stays t resumes, fun _ _ => stays t resumes⟩⟩

theorem Run.silent_upkeep {setting : Setting η} : Upkeep (setting.withHost setting.host.unaware)
    (silentContract η) (·.host.2 = []) fun _ => True where
  toHousekeeping := silent_housekeeping
  overflow _ silent := silent
  unknown _ _ silent := silent
  call := by
    intro c f args kwargs _ _ _
    unfold callWith
    split
    · exact silent_housekeeping.invoke_upholds fun w silent => silent_returns silent
    · exact Action.Meets.leave fun _ silent => silent

theorem silent_lasts : (silentContract η).Lasts (·.host.2 = []) where
  cancelled _ silent := silent
  waiting _ silent := silent
  resumes _ same := same
  dropped silent _ := silent

/-- The finisher is called once, on the result, when there is one. -/
theorem Session.Upholds.notes {finisher : Finisher η}
    {s : Session (η × List (Option RunResult))} (same : s.finisher = finisher.noting)
    (upholds : s.Upholds (silentContract η) (·.host.2 = []))
    (unbroken : ∀ last, s.phase ≠ .broken last) :
    s.world.host.2 = s.result?.toList.map some := by
  unfold Session.result?
  cases phase : s.phase with
  | fresh program => exact (upholds.fresh phase).1
  | waiting p next => exact (upholds.waiting phase).1
  | broken last => exact absurd phase (unbroken last)
  | finished result =>
    have ended := upholds.finished phase
    rw [same] at ended
    obtain @⟨why, v, noted, before, cancelled, silent, results, notes, acted, world⟩ := ended
    rw [world]
    show (finisher.noting.effect (some before) noted).2.host.2 = [some result]
    have unnoted : noted.host.2 = [] := notes ▸ silent
    obtain ⟨after, eq⟩ := finisher.effect_some before (noted.mapHost Prod.fst)
    rw [Finisher.noting_effect] at acted ⊢
    rw [acted]
    show noted.host.2 ++ [(finisher.effect (some before) (noted.mapHost Prod.fst)).1] = _
    rw [unnoted, eq]
    rfl

/-- A session whose finisher takes note of its calls. -/
def Session.ofNoted (setting : Setting η) (script : Block) (world : World η)
    (finisher : Finisher η) : Session (η × List (Option RunResult)) :=
  ofScript (setting.withHost setting.host.unaware) script (world.withMemory []) finisher.noting

/-- The notes make no difference, unless the run breaks off. -/
theorem Session.noted_same (setting : Setting η) (script : Block) (world : World η)
    (finisher : Finisher η) (moves : List Move) (unbroken : ∀ last,
      (moves.foldl Session.move (ofScript setting script world finisher)).phase ≠ .broken last) :
    (moves.foldl Session.move (ofScript setting script world finisher)).Same
      (moves.foldl Session.move (ofNoted setting script world finisher)) := by
  have start : (ofScript setting script world finisher).Abreast
      (remembered η (List (Option RunResult))) (fun _ => none)
      (ofNoted setting script world finisher) :=
    .fresh rfl rfl (world.like_remembered []) <|
      Run.executeAll_follows (setting.host.remembering_follows fun notes _ _ _ => notes)
        script.statements
  have plays := Plays.of_none (ofScript setting script world finisher) moves
  exact (plays.abreast start finisher.alike_noting).same plays.unprepared
    fun ⟨last, broken⟩ => absurd broken (unbroken last)

theorem Session.noted_upholds (setting : Setting η) (script : Block) (world : World η)
    (finisher : Finisher η) (moves : List Move) :
    (moves.foldl Session.move (ofNoted setting script world finisher)).Upholds
      (silentContract η) (·.host.2 = []) := by
  refine moves_uphold silent_lasts (fun _ _ _ _ _ => rfl) ⟨rfl, fun w silent => ?_⟩
  exact (Run.executeAll_upholds Run.silent_upkeep script.statements (fun _ _ => trivial) w
    silent).imp fun _ _ both => both.2

/-- A run that comes to no defect keeps the protocol of sessions, whatever is done to it in whatever
order. It is fresh, waits for the reply to the last question or is over; a move out of place is
refused and changes nothing; when it is over it stays so with its result, cancelling it again gives
that result, and nothing but the cancellation changes any more; and the finisher has been called
once, on the result, if there is one, and not at all before, as its notes tell. -/
theorem session_orderly (setting : Setting η) (script : Block) (world : World η)
    (finisher : Finisher η) (errors : Run.OnlyScriptErrors setting script world)
    (moves : List Session.Move) :
    let start := Session.ofScript setting script world finisher
    let session := moves.foldl Session.move start
    let noted := moves.foldl Session.move (Session.ofNoted setting script world finisher)
    session.Stands (start.lastPrompt moves) ∧
      (∀ m, ¬ session.Permits m → session.report m = .raised m.refusal ∧ session.move m = session) ∧
      (∀ result, session.phase = .finished result →
        (∀ reason, session.report (.abort reason) = .result result) ∧
          ∀ later : List Session.Move, ∃ cancelled, later.foldl Session.move session =
            { session with world := { session.world with cancelled } }) ∧
      session.Same noted ∧ noted.world.host.2 = session.result?.toList.map some := by
  intro start session noted
  have unbroken : ∀ last, session.phase ≠ .broken last :=
    Session.unbroken_of_onlyScriptErrors errors finisher moves
  refine ⟨?_, fun m outOfPlace => ?_, fun result ended => ⟨fun reason => ?_, ?_⟩, ?_⟩
  · refine Session.stands unbroken fun p next waits => ?_
    exact Session.lastPrompt_of_waiting ⟨_, rfl⟩ moves waits
  · exact Prod.mk.inj ((session.step m).outOfPlace outOfPlace unbroken)
  · show (session.abort reason).1 = _
    unfold Session.abort
    rw [ended]
  · exact Session.moves_of_closing (.inl ⟨result, ended⟩)
  · have same : session.Same noted :=
      Session.noted_same setting script world finisher moves unbroken
    have unbroken' : ∀ last, noted.phase ≠ .broken last := fun last broken =>
      have ⟨last, broken⟩ := same.broken.2 ⟨last, broken⟩
      unbroken last broken
    refine ⟨same, ?_⟩
    rw [same.result]
    exact (Session.noted_upholds setting script world finisher moves).notes
      (Session.moves_finisher _ _) unbroken'

theorem asking_onlyScriptErrors :
    Run.OnlyScriptErrors asker negated ⟨{}, (), none, #[], #[]⟩ := by
  have found : asker.catalog.get? "Ask" = some askFunction := by decide +kernel
  have bound : askFunction.bind [] [] = .ok [] := by decide +kernel
  have house := Run.sound_housekeeping (η := Unit)
  have call : Run.Upholds (soundContract Unit) (fun _ => True)
      (Run.evaluateCall asker (.mk default "Ask" [] [])) fun _ => True := by
    unfold Run.evaluateCall
    rw [found]
    show Run.Upholds _ _ (Run.callWith asker askFunction default [] []) _
    unfold Run.callWith
    rw [bound]
    refine house.invoke_upholds fun w _ => ⟨trivial, fun r t resumes => ⟨trivial, ?_⟩⟩
    rintro why rfl d rfl
    exact resumes.2 d rfl
  have statements : Run.Upholds (soundContract Unit) (fun _ => True)
      (Run.executeAll asker negated.statements) fun _ => True := by
    refine house.checkCancelled_upholds.bind fun _ _ => .bind (P := fun _ => True) ?_ fun _ _ =>
      .pure trivial
    refine Run.Upholds.bind (P := fun _ => True) ?_ fun _ _ => house.writeVariable_upholds
    exact call.bind fun _ _ => .pure trivial
  exact fun cancelled => (statements _ trivial).imp fun _ _ _ => trivial

theorem asking_orderly :
    ([.start, .start].foldl Session.move asking).Stands (asking.lastPrompt [.start, .start]) ∧
      asking.lastPrompt [.start, .start] = some sureQuestion := by
  have asked : asking.lastPrompt [.start, .start] = some sureQuestion := by decide +kernel
  exact ⟨(session_orderly asker negated ⟨{}, (), none, #[], #[]⟩ Finisher.idle
    asking_onlyScriptErrors [.start, .start]).1, asked⟩

end InstallScript
