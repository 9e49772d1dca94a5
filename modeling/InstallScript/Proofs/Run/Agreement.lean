import InstallScript.Proofs.Catalog.ExactBinding
import InstallScript.Proofs.Run.Congruent
import InstallScript.Proofs.Run.Variables

/-!
Runs of two scripts that come to the same. The scripts are of one shape and name the same variables,
functions and parameters, as names are compared; so both runs keep the same variables, make the same
calls and ask the same questions (`Run.executeAll_agrees`). They may show other stretches and spell
names in another way, unless they are to agree exactly. And the first run may come to a variable
that is never bound: then it fails there, whatever stands in its place in the second script.
-/

namespace InstallScript

/-- In what two runs are to agree. -/
structure Accord where
  /-- Whether letter case counts in the names of variables. -/
  caseSensitive : Bool
  /-- The names that may be bound, as they are kept. -/
  bindable : String → Prop
  /-- The variables that the second script may have something else for. -/
  replaced : Span → String → Prop
  /-- Whether the runs agree in everything, stretches and spellings included. -/
  exact : Prop

/-! ## Variables -/

/-- Names are compared as they are to be, and only those are bound that may be. -/
structure Scopes.Obeys (a : Accord) (s : Scopes) : Prop where
  rule : s.caseSensitive = a.caseSensitive
  globals : ∀ key ∈ s.globals.map Prod.fst, a.bindable key
  frames : ∀ f ∈ s.frames, ∀ key ∈ f.bindings.map Prod.fst, a.bindable key

theorem Bindings.mem_names_set {b : Bindings} {name key : String} {value : Value}
    (member : key ∈ (b.set name value).map Prod.fst) : key = name ∨ key ∈ b.map Prod.fst := by
  induction b with
  | nil => exact .inl (List.mem_singleton.1 member)
  | cons entry rest ih =>
    obtain ⟨other, old⟩ := entry
    rw [Bindings.set] at member
    split at member
    · exact .inr member
    · rcases List.mem_cons.1 member with rfl | member
      · exact .inr List.mem_cons_self
      · exact (ih member).imp_right (List.mem_cons_of_mem _)

namespace Scopes.Obeys

variable {a : Accord} {s : Scopes}

theorem key_eq (obeys : s.Obeys a) (name : String) : s.key name = nameKey a.caseSensitive name := by
  rw [Scopes.key, obeys.rule, nameKey]

theorem bind (obeys : s.Obeys a) {name : String}
    (target : a.bindable (nameKey a.caseSensitive name)) (value : Value) :
    (s.bind name value).Obeys a := by
  rw [← obeys.key_eq] at target
  obtain ⟨caseSensitive, globals, frames⟩ := s
  cases frames with
  | nil =>
    refine ⟨obeys.rule, fun key member => ?_, obeys.frames⟩
    rcases Bindings.mem_names_set member with rfl | member
    · exact target
    · exact obeys.globals key member
  | cons f rest =>
    obtain ⟨first, others⟩ := List.forall_mem_cons.1 obeys.frames
    refine ⟨obeys.rule, obeys.globals, List.forall_mem_cons.2 ⟨fun key member => ?_, others⟩⟩
    rcases Bindings.mem_names_set member with rfl | member
    · exact target
    · exact first key member

theorem update (obeys : s.Obeys a) {name : String} {value : Value} {s' : Scopes}
    (updates : s.update? name value = some s') : s'.Obeys a := by
  cases changed_of_update? updates with
  | @frame inner outer f frames _ bound =>
    have kept := obeys.frames
    rw [frames, List.forall_mem_append, List.forall_mem_cons] at kept
    refine ⟨obeys.rule, obeys.globals, ?_⟩
    rw [List.forall_mem_append, List.forall_mem_cons]
    refine ⟨kept.1, ?_, kept.2.2⟩
    rw [Bindings.names_set bound]
    exact kept.2.1
  | globals _ bound =>
    refine ⟨obeys.rule, ?_, obeys.frames⟩
    rw [Bindings.names_set bound]
    exact obeys.globals

theorem push (obeys : s.Obeys a) (name : String) : (s.push name).Obeys a :=
  ⟨obeys.rule, obeys.globals, List.forall_mem_cons.2 ⟨List.forall_mem_nil _, obeys.frames⟩⟩

theorem pop (obeys : s.Obeys a) : s.pop.Obeys a :=
  ⟨obeys.rule, obeys.globals, fun f member => obeys.frames f (List.mem_of_mem_tail member)⟩

/-- What may not be bound has no value. -/
theorem get?_eq_none (obeys : s.Obeys a) {name : String}
    (never : ¬ a.bindable (nameKey a.caseSensitive name)) : s.get? name = none := by
  rw [Scopes.get?, obeys.key_eq]
  have globals := obeys.globals
  have frames := obeys.frames
  generalize s.frames = frames' at frames
  induction frames' with
  | nil =>
    rw [Scopes.lookupKey, List.lookup_eq_none_iff]
    rintro ⟨key, value⟩ member
    rw [bne_iff_ne]
    rintro rfl
    exact never (globals _ (List.mem_map_of_mem member))
  | cons f rest ih =>
    obtain ⟨first, others⟩ := List.forall_mem_cons.1 frames
    have free : f.bindings.lookup (nameKey a.caseSensitive name) = none := by
      rw [List.lookup_eq_none_iff]
      rintro ⟨key, value⟩ member
      rw [bne_iff_ne]
      rintro rfl
      exact never (first _ (List.mem_map_of_mem member))
    rw [Scopes.lookupKey, free]
    exact ih others

end Scopes.Obeys

/-! ## Worlds -/

/-- What a diagnostic says, wherever it says it. -/
def Diagnostic.said (d : Diagnostic) : String × String := (d.code, d.message)

/-- The worlds of two runs that have come to the same so far. -/
structure World.Agrees {η : Type} (a : Accord) (w w' : World η) : Prop where
  scopes : w'.context.scopes = w.context.scopes
  directory : w'.context.directory = w.context.directory
  invocations : w'.context.invocations = w.context.invocations
  warnings : w'.context.warnings.toList.map Diagnostic.said =
    w.context.warnings.toList.map Diagnostic.said
  host : w'.host = w.host
  cancelled : w'.cancelled = w.cancelled
  calls : w'.calls = w.calls
  obeys : w.context.scopes.Obeys a
  exactly : a.exact → w' = w

section

variable {η : Type} {a : Accord}

namespace World.Agrees

variable {w w' : World η}

theorem mapScopes (agrees : w.Agrees a w') {f f' : Scopes → Scopes}
    (same : f' w.context.scopes = f w.context.scopes) (obeys : (f w.context.scopes).Obeys a) :
    (w.mapScopes f).Agrees a (w'.mapScopes f') :=
  { agrees with
    scopes := (congrArg f' agrees.scopes).trans same
    obeys
    exactly := fun exact => by
      rw [agrees.exactly exact]
      exact congrArg (fun scopes => w.mapScopes fun _ => scopes) same }

theorem note (agrees : w.Agrees a w') (level : LogLevel) (logger : Logger)
    {message message' : String} (same : a.exact → message' = message) :
    (w.note level logger message).Agrees a (w'.note level logger message') :=
  { agrees with
    exactly := fun exact => by rw [agrees.exactly exact, same exact] }

theorem cancel (agrees : w.Agrees a w') (reason : String) :
    World.Agrees a { w with cancelled := some reason } { w' with cancelled := some reason } :=
  { agrees with
    cancelled := rfl
    exactly := fun exact => by rw [agrees.exactly exact] }

theorem withHost (agrees : w.Agrees a w') (host : η) :
    World.Agrees a { w with host } { w' with host } :=
  { agrees with
    host := rfl
    exactly := fun exact => by rw [agrees.exactly exact] }

theorem warn (agrees : w.Agrees a w') (message code : String) {span span' : Option Span}
    (spans : a.exact → span' = span) :
    World.Agrees a (w.mapContext (·.addWarning message span code))
      (w'.mapContext (·.addWarning message span' code)) :=
  { agrees with
    warnings := by
      show (w'.context.warnings.push _).toList.map _ = (w.context.warnings.push _).toList.map _
      rw [Array.toList_push, Array.toList_push, List.map_append, List.map_append, agrees.warnings]
      rfl
    exactly := fun exact => by rw [agrees.exactly exact, spans exact] }

/-- Warnings of a host, which may be about the call in progress. -/
theorem remarks (agrees : w.Agrees a w') (remarks : List Remark) :
    let warned (w : World η) := w.mapContext fun c =>
      remarks.foldl (fun c x => c.addWarning x.message x.span x.code) c
    (warned w).Agrees a (warned w') := by
  induction remarks generalizing w w' with
  | nil => exact agrees
  | cons x remarks ih => exact ih (agrees.warn x.message x.code fun _ => rfl)

/-- A call gives the same in both runs. -/
theorem call (agrees : w.Agrees a w') (host : Host η) (f : FunctionSpec) (arguments : Arguments)
    {span span' : Span} (spans : a.exact → span' = span) :
    (w'.call host f arguments span').1 = (w.call host f arguments span).1 ∧
      (w.call host f arguments span).2.Agrees a (w'.call host f arguments span').2 := by
  have begun : (w.beginCall f arguments span).Agrees a (w'.beginCall f arguments span') :=
    { agrees with
      invocations := congrArg (· + 1) agrees.invocations
      calls := congrArg (·.push (f.name, arguments)) agrees.calls
      exactly := fun exact => by rw [agrees.exactly exact, spans exact] }
  have response : host f arguments (w'.beginCall f arguments span').context.directory
      (w'.beginCall f arguments span').host =
      host f arguments (w.beginCall f arguments span).context.directory
        (w.beginCall f arguments span).host := by
    rw [begun.directory, begun.host]
  unfold World.call
  dsimp only
  rw [response]
  generalize host f arguments _ _ = r
  refine ⟨rfl, ?_⟩
  have warned := begun.remarks r.warnings
  exact
    { warned with
      directory := rfl
      host := rfl
      cancelled := by
        unfold World.endCall
        cases r.cancel with
        | some reason => rfl
        | none => exact begun.cancelled
      exactly := fun exact => by rw [begun.exactly exact] }

end World.Agrees

/-! ## Courses -/

/-- Ends that are the same, or errors of one code. -/
inductive Exit.Agrees (a : Accord) : Exit → Exit → Prop
  | same {why : Exit} : Agrees a why why
  | failed {error error' : ScriptError} (loose : ¬ a.exact)
    (codes : error.fault.code = error'.fault.code) : Agrees a (.failed error) (.failed error')

/-- What a run comes to at a variable that is not bound. -/
def Exit.unbound (span : Span) (name : String) : Exit :=
  .failed ⟨.undefinedVariable name, some span, none⟩

/-- Courses of two runs that come to the same, unless the first one fails at a variable that the
second script may have something else for. -/
inductive Course.Agrees {α : Type} (a : Accord) (P : α → Prop) :
    Course (World η) α → Course (World η) α → Prop
  | done {v : α} {w w' : World η} (holds : P v) (worlds : w.Agrees a w') :
    Agrees a P (.done v w) (.done v w')
  | exit {why why' : Exit} {w w' : World η} (exits : why.Agrees a why') (worlds : w.Agrees a w') :
    Agrees a P (.exit why w) (.exit why' w')
  | ask {p : Prompt} {w w' : World η} {next next' : Resumption → World η → Course (World η) α}
    (worlds : w.Agrees a w')
    (goesOn : ∀ r t t', t.Agrees a t' → Agrees a P (next r t) (next' r t')) :
    Agrees a P (.ask p w next) (.ask p w' next')
  | unbound {span : Span} {name : String} {w : World η} {c : Course (World η) α}
    (replaced : a.replaced span name) (obeys : w.context.scopes.Obeys a) :
    Agrees a P (.exit (.unbound span name) w) c

namespace Course.Agrees

variable {α β : Type} {P : α → Prop} {Q : β → Prop} {c c' : Course (World η) α}

theorem andThen {f f' : α → World η → Course (World η) β} (first : c.Agrees a P c')
    (second : ∀ v w w', P v → w.Agrees a w' → (f v w).Agrees a Q (f' v w')) :
    (c.andThen f).Agrees a Q (c'.andThen f') := by
  induction first with
  | done holds worlds => exact second _ _ _ holds worlds
  | exit exits worlds => exact .exit exits worlds
  | ask worlds _ ih => exact .ask worlds ih
  | unbound replaced obeys => exact .unbound replaced obeys

theorem atEnd {change : World η → World η} (agrees : c.Agrees a P c')
    (changes : ∀ w w', w.Agrees a w' → (change w).Agrees a (change w'))
    (keeps : ∀ w, w.context.scopes.Obeys a → (change w).context.scopes.Obeys a) :
    (c.atEnd change).Agrees a P (c'.atEnd change) := by
  induction agrees with
  | done holds worlds => exact .done holds (changes _ _ worlds)
  | exit exits worlds => exact .exit exits (changes _ _ worlds)
  | ask worlds _ ih => exact .ask worlds ih
  | unbound replaced obeys => exact .unbound replaced (keeps _ obeys)

end Course.Agrees

/-- Computations that come to the same from worlds that agree. -/
def Action.Agrees {α : Type} (a : Accord) (P : α → Prop) (m m' : Action (World η) α) : Prop :=
  ∀ w w', w.Agrees a w' → (m w).Agrees a P (m' w')

namespace Action.Agrees

variable {α β : Type} {P : α → Prop} {Q : β → Prop}

theorem pure {v : α} (holds : P v) :
    Action.Agrees a P (Pure.pure v : Action (World η) α) (Pure.pure v) :=
  fun _ _ worlds => .done holds worlds

theorem leave {why why' : Exit} (exits : why.Agrees a why') :
    Action.Agrees a P (Action.leave why : Action (World η) α) (Action.leave why') :=
  fun _ _ worlds => .exit exits worlds

theorem bind {m m' : Action (World η) α} {next next' : α → Action (World η) β}
    (first : Action.Agrees a P m m') (second : ∀ v, P v → Action.Agrees a Q (next v) (next' v)) :
    Action.Agrees a Q (m >>= next) (m' >>= next') :=
  fun w w' worlds => (first w w' worlds).andThen fun v _ _ holds => second v holds _ _

/-- Errors of one code, at stretches that are the same if the runs are to agree exactly. -/
theorem fail {fault fault' : Fault} {span span' : Span} (codes : fault.code = fault'.code)
    (exactly : a.exact → fault = fault' ∧ span = span') :
    Action.Agrees a P (Action.fail fault span : Action (World η) α)
      (Action.fail fault' span') := by
  by_cases exact' : a.exact
  · obtain ⟨rfl, rfl⟩ := exactly exact'
    exact leave .same
  · exact leave (.failed exact' codes)

end Action.Agrees

/-! ## Single steps -/

namespace Run

variable {α : Type}

theorem checkCancelled_agrees :
    Action.Agrees a (fun _ => True) (checkCancelled : Step η Unit) checkCancelled := by
  intro w w' worlds
  unfold checkCancelled
  rw [worlds.cancelled]
  split
  · exact .exit .same worlds
  · exact .done trivial worlds

theorem readVariable_agrees {span span' : Span} {name name' : String}
    (keys : nameKey a.caseSensitive name = nameKey a.caseSensitive name')
    (exactly : a.exact → span = span' ∧ name = name') :
    Action.Agrees a (fun _ => True) (readVariable span name : Step η Value)
      (readVariable span' name') := by
  intro w w' worlds
  have value : w'.context.scopes.get? name' = w.context.scopes.get? name := by
    rw [worlds.scopes, Scopes.get?, Scopes.get?, worlds.obeys.key_eq, worlds.obeys.key_eq, keys]
  unfold readVariable
  rw [value]
  cases w.context.scopes.get? name with
  | some v => exact .done trivial worlds
  | none =>
    have fails : Action.Agrees a (fun _ => True)
        (Action.fail (.undefinedVariable name) span : Step η Value)
        (Action.fail (.undefinedVariable name') span') :=
      .fail rfl fun exact => ⟨congrArg _ (exactly exact).2, (exactly exact).1⟩
    exact fails w w' worlds

/-- Reading what may not be bound ends the first run. -/
theorem readVariable_unbound {span : Span} {name : String} (replaced : a.replaced span name)
    (never : ¬ a.bindable (nameKey a.caseSensitive name)) (m : Step η Value) :
    Action.Agrees a (fun _ => True) (readVariable span name) m := by
  intro w w' worlds
  unfold readVariable
  rw [worlds.obeys.get?_eq_none never]
  exact .unbound replaced worlds.obeys

theorem writeVariable_agrees {span span' : Span} {mode : AssignMode} {name name' : String}
    {value : Value} (target : a.bindable (nameKey a.caseSensitive name))
    (keys : nameKey a.caseSensitive name = nameKey a.caseSensitive name')
    (exactly : a.exact → span = span' ∧ name = name') :
    Action.Agrees a (fun _ => True) (writeVariable span mode name value : Step η Unit)
      (writeVariable span' mode name' value) := by
  intro w w' worlds
  have sameKey : w.context.scopes.key name' = w.context.scopes.key name := by
    rw [worlds.obeys.key_eq, worlds.obeys.key_eq, keys]
  cases mode with
  | bind =>
    have binds : w.context.scopes.bind name' value = w.context.scopes.bind name value := by
      rw [Scopes.bind, Scopes.bind, sameKey]
    exact .done trivial (worlds.mapScopes binds (worlds.obeys.bind target value))
  | update =>
    have updates : w'.context.scopes.update? name' value = w.context.scopes.update? name value := by
      rw [worlds.scopes, Scopes.update?, Scopes.update?, sameKey]
    unfold writeVariable
    dsimp only
    rw [updates]
    cases updated : w.context.scopes.update? name value with
    | some scopes =>
      exact .done trivial (worlds.mapScopes rfl (worlds.obeys.update updated))
    | none =>
      have fails : Action.Agrees a (fun _ => True)
          (Action.fail (.undefinedTarget name) span : Step η Unit)
          (Action.fail (.undefinedTarget name') span') :=
        .fail rfl fun exact => ⟨congrArg _ (exactly exact).2, (exactly exact).1⟩
      exact fails w w' worlds

theorem inFrame_agrees {P : α → Prop} {name : String} {m m' : Step η α}
    (agrees : Action.Agrees a P m m') : Action.Agrees a P (inFrame name m) (inFrame name m') :=
  fun _ _ worlds => (agrees _ _ (worlds.mapScopes rfl (worlds.obeys.push name))).atEnd
    (fun _ _ worlds => worlds.mapScopes rfl worlds.obeys.pop) fun _ obeys => obeys.pop

/-! ## Calls -/

variable {f : FunctionSpec} {span span' : Span}

theorem checkResult_agrees {result : Option Value} (spans : a.exact → span = span') :
    Action.Agrees a (fun _ => True) (checkResult f span result : Step η Value)
      (checkResult f span' result) := by
  unfold checkResult
  split
  · split
    · exact .pure trivial
    · exact .fail rfl fun exact => ⟨rfl, spans exact⟩
  · exact .fail rfl fun exact => ⟨rfl, spans exact⟩

theorem handleFailure_agrees {message : String} (spans : a.exact → span = span') :
    Action.Agrees a (fun _ => True) (handleFailure f span message : Step η Value)
      (handleFailure f span' message) := by
  intro w w' worlds
  unfold handleFailure
  split
  · exact Action.Agrees.fail rfl (fun exact => ⟨rfl, spans exact⟩) _ _
      (worlds.note _ _ fun _ => rfl)
  · exact .done trivial ((worlds.note _ _ fun _ => rfl).warn _ _ fun exact =>
      congrArg some (spans exact).symm)

theorem takeReply_agrees {p : Prompt} {r : Resumption} (spans : a.exact → span = span') :
    Action.Agrees a (fun _ => True) (takeReply f span p r : Step η Value)
      (takeReply f span' p r) := by
  cases r with
  | leave why => exact .leave .same
  | reply reply =>
    cases reply with
    | abort => exact .leave .same
    | answer data =>
      refine checkCancelled_agrees.bind fun _ _ => ?_
      split
      · exact checkResult_agrees spans
      · exact .fail rfl fun exact => ⟨rfl, spans exact⟩

theorem invoke_agrees {setting : Setting η} {arguments : Arguments}
    (spans : a.exact → span = span') :
    Action.Agrees a (fun _ => True) (invoke setting f span arguments)
      (invoke setting f span' arguments) := by
  intro w w' worlds
  rw [invoke_apply, invoke_apply]
  obtain ⟨outcome, after⟩ := worlds.call setting.host f arguments fun exact => (spans exact).symm
  rw [outcome]
  cases (w.call setting.host f arguments span).1 with
  | value data => exact checkResult_agrees spans _ _ after
  | failure message => exact handleFailure_agrees spans _ _ after
  | crash defect => exact .exit .same after
  | question p => exact .ask after fun _ _ _ worlds => takeReply_agrees spans _ _ worlds

theorem callWith_agrees {setting : Setting η} {args vs : List Value}
    {keywords keywords' : List String} (folds : keywords.map Text.fold = keywords'.map Text.fold)
    (lengths : keywords.length = vs.length)
    (exactly : a.exact → span = span' ∧ keywords = keywords') :
    Action.Agrees a (fun _ => True) (callWith setting f span args (keywords.zip vs))
      (callWith setting f span' args (keywords'.zip vs)) := by
  have spans := fun exact => (exactly exact).1
  unfold callWith
  rcases FunctionSpec.bind_fold folds lengths with same | ⟨fault, fault', refused, refused', codes⟩
  · rw [same]
    split
    · exact invoke_agrees spans
    · exact .fail rfl fun exact => ⟨rfl, spans exact⟩
  · rw [refused, refused']
    refine .fail codes fun exact => ⟨?_, spans exact⟩
    rw [(exactly exact).2, refused'] at refused
    exact (Except.error.inj refused).symm

end Run

/-! ## Trees -/

/-- A kinship under which the runs of two scripts agree: what differs is spelt in the same way as
names are compared, and something else stands only for variables that are never bound. -/
structure Kinship.Keeps (k : Kinship) (a : Accord) : Prop where
  span : ∀ {span span'}, k.span span span' → a.exact → span = span'
  target : ∀ {name name'}, k.target name name' → a.bindable (nameKey a.caseSensitive name) ∧
    nameKey a.caseSensitive name = nameKey a.caseSensitive name' ∧ (a.exact → name = name')
  read : ∀ {span name e}, k.read span name e →
    (∃ span' name', e = .var span' name' ∧
      nameKey a.caseSensitive name = nameKey a.caseSensitive name' ∧
      (a.exact → span = span' ∧ name = name')) ∨
    a.replaced span name ∧ ¬ a.bindable (nameKey a.caseSensitive name)
  call : ∀ {c c'}, k.call c c' → Text.fold c.name = Text.fold c'.name ∧
    (c.keywords.map (·.name)).map Text.fold = (c'.keywords.map (·.name)).map Text.fold ∧
    (a.exact → c.span = c'.span ∧ c.name = c'.name ∧
      c.keywords.map (·.name) = c'.keywords.map (·.name))

namespace Run

theorem agrees_parallel {k : Kinship} (keeps : k.Keeps a) (setting : Setting η) :
    Parallel k setting setting.host fun P m m' => Action.Agrees a P m m' where
  pure := .pure
  bind := .bind
  returned := .leave .same
  fail spans _ := .fail rfl fun exact => ⟨rfl, keeps.span spans exact⟩
  overflow _ := .leave .same
  checkCancelled := checkCancelled_agrees
  readVariable read := by
    rcases keeps.read read with ⟨span', name', rfl, keys, exactly⟩ | ⟨replaced, never⟩
    · exact readVariable_agrees keys exactly
    · exact readVariable_unbound replaced never _
  writeVariable spans targets := by
    obtain ⟨target, keys, exactly⟩ := keeps.target targets
    exact writeVariable_agrees target keys fun exact => ⟨keeps.span spans exact, exactly exact⟩
  inFrame := inFrame_agrees
  lookup heads := by
    unfold Catalog.get?
    rw [(keeps.call heads).1]
  unknown heads _ := by
    refine .fail rfl fun exact => ?_
    obtain ⟨spans, names, -⟩ := (keeps.call heads).2.2 exact
    exact ⟨congrArg _ names, spans⟩
  call heads _ lengths _ := by
    obtain ⟨-, folds, exactly⟩ := keeps.call heads
    refine callWith_agrees folds ?_ fun exact => ⟨(exactly exact).1, (exactly exact).2.2⟩
    rw [List.length_map, lengths]

/-- Scripts of one shape that name the same come to the same. -/
theorem executeAll_agrees {k : Kinship} (keeps : k.Keeps a) (setting : Setting η)
    {ss ss' : List Stmt} (kin : StmtsKin k ss ss') :
    Action.Agrees a (fun _ => True) (executeAll setting ss) (executeAll setting ss') :=
  (agrees_parallel keeps setting).executeAll kin

end Run

end

end InstallScript
