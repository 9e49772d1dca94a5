import InstallScript.Proofs.Catalog.Loading
import InstallScript.Proofs.Run.Upkeep

/-!
How a checked script uses the catalog of its dialect. While it runs, every call finds its function
and fits its shape, so the only fault of a call that is left is an argument of the wrong kind, and
that argument is no literal; and whatever reaches the host has one fitting value for each parameter
(`executeAll_keeps`). The check looks at the calls of a tree one by one; the run makes no others.
-/

namespace InstallScript

/-! ## Calls that do not fit -/

/-- The fault of a call one of whose arguments, and not a literal, is of a kind that its parameter
does not accept. -/
def Call.Misfit (catalog : Catalog) (c : Call) (fault : Fault) : Prop :=
  ∃ f m p e, ∃ v : Value, catalog.get? c.name = some f ∧
    f.matchArguments c.arguments.length (c.keywords.map (·.name)) = .ok m ∧
    (p, e) ∈ m.params.zip c.values ∧ (∀ span l, e ≠ .literal span l) ∧
    p.kind.accepts v.kind = false ∧ fault = .argumentKind f.name p.name p.kind.name v.describe

theorem exists_expr_of_mem_zip {ps : List ParamSpec} {es : List Expr} {vs : List Value}
    (may : List.Forall₂ Expr.MayBe es vs) {p : ParamSpec} {v : Value}
    (member : (p, v) ∈ ps.zip vs) :
    ∃ e, (p, e) ∈ ps.zip es ∧ e.MayBe v := by
  induction may generalizing ps with
  | nil =>
    rw [List.zip_nil_right] at member
    cases member
  | @cons e v' es vs first _ ih =>
    cases ps with
    | nil => cases member
    | cons q ps =>
      rcases List.mem_cons.1 member with same | later
      · cases same
        exact ⟨e, List.mem_cons_self, first⟩
      · obtain ⟨e', member, mayBe⟩ := ih later
        exact ⟨e', List.mem_cons_of_mem _ member, mayBe⟩

/-- A call that the check lets pass is bound, unless an argument that is no literal is of the wrong
kind. -/
theorem Checker.bind_error {checker : Checker} {c : Call} (passes : checker.callErrors c = [])
    {f : FunctionSpec} (found : checker.catalog.get? c.name = some f) {args : List Value}
    {kwargs : List (String × Value)} (may : c.MayHave args kwargs) {fault : Fault}
    (refused : f.bind args kwargs = .error fault) : c.Misfit checker.catalog fault := by
  obtain ⟨f', m, found', matched, passes⟩ := callErrors_eq_nil.1 passes
  obtain rfl : f = f' := Option.some.inj (found.symm.trans found')
  have matched' : f.matchArguments args.length (kwargs.map (·.1)) = .ok m := by
    rwa [may.length_eq, may.names_eq]
  rw [FunctionSpec.bind_of_matched matched'] at refused
  dsimp only at refused
  split at refused
  · rename_i fault' kindFault
    cases refused
    obtain ⟨p, v, member, refuses, rfl⟩ := FunctionSpec.kindFault?_eq_some kindFault
    obtain ⟨e, paired, mayBe⟩ := exists_expr_of_mem_zip may.values member
    refine ⟨f, m, p, e, v, found, matched, paired, ?_, refuses, rfl⟩
    rintro span l rfl
    have accepts := argumentError?_eq_none.1 (passes _ paired) span l rfl
    rw [← show v = Run.literalValue l from mayBe, refuses] at accepts
    cases accepts
  · cases refused

/-! ## The contract -/

/-- The ends that a run whose calls have been checked may come to. -/
def Exit.Respects (catalog : Catalog) (scope : Call → Prop) : Exit → Prop
  | .failed e => e.fault.code ≠ "E203" ∧ e.fault.code ≠ "E201" ∧
    (e.fault.code = "E202" → ∃ c, scope c ∧ c.Misfit catalog e.fault ∧ e.span = some c.span)
  | _ => True

/-- The calls of host functions since some earlier ones are calls of functions of the catalog, with
one fitting value for each parameter. -/
def World.CallsFit {η : Type} (catalog : Catalog) (earlier : List (String × Arguments))
    (w : World η) : Prop :=
  ∃ later, w.calls.toList = earlier ++ later ∧
    ∀ call ∈ later, ∃ f ∈ catalog.functions, call.1 = f.name ∧ f.Fits call.2

/-- The contract of a run whose calls have been checked. Nobody but the user and the host's
cancellation may end it while it waits. -/
def catalogContract (η : Type) (catalog : Catalog) (scope : Call → Prop)
    (earlier : List (String × Arguments)) : Contract (World η) where
  waits _ w := w.CallsFit catalog earlier
  resumes w r t := t.calls = w.calls ∧ ∀ error, r ≠ .leave (.failed error)
  exits why w := why.Respects catalog scope ∧ w.CallsFit catalog earlier

namespace Run

section

variable {η α β : Type} {catalog : Catalog} {scope : Call → Prop}
  {earlier : List (String × Arguments)}

/-- A part of a run that keeps the contract and gives values of some kind. -/
def Keeps (catalog : Catalog) (scope : Call → Prop) (earlier : List (String × Arguments))
    (m : Step η α) (P : α → Prop) : Prop :=
  Action.Meets (catalogContract η catalog scope earlier) (·.CallsFit catalog earlier) m
    fun a w => P a ∧ w.CallsFit catalog earlier

theorem CallsFit.of_calls_eq {w w' : World η} (fits : w.CallsFit catalog earlier)
    (same : w'.calls = w.calls) : w'.CallsFit catalog earlier := by
  rwa [World.CallsFit, same]

/-- The steps of a run that do not call the host keep the contract. -/
theorem catalog_housekeeping : Housekeeping (catalogContract η catalog scope earlier)
    (·.CallsFit catalog earlier) where
  scopes _ fits := fits
  popped both := both
  ends {why w} usual fits := by
    refine ⟨?_, fits⟩
    cases usual with
    | @failed fault _ aside =>
      obtain ⟨not203, not201, not202⟩ :
          fault.code ≠ "E203" ∧ fault.code ≠ "E201" ∧ fault.code ≠ "E202" := by
        simpa [Fault.AsideFromCalls] using aside
      exact ⟨not203, not201, fun eq => absurd eq not202⟩
    | _ => trivial

/-- A call of a host function with fitting arguments. -/
theorem invoke_keeps {setting : Setting η} {f : FunctionSpec} {span : Span} {arguments : Arguments}
    (declared : f ∈ catalog.functions) (fitting : f.Fits arguments) :
    Keeps catalog scope earlier (invoke setting f span arguments) fun _ => True := by
  refine catalog_housekeeping.invoke_upholds fun w ⟨later, eq, each⟩ => ?_
  have fits : (w.call setting.host f arguments span).2.CallsFit catalog earlier := by
    refine ⟨later ++ [(f.name, arguments)], ?_, ?_⟩
    · show (w.calls.push (f.name, arguments)).toList = _
      rw [Array.toList_push, eq, List.append_assoc]
    · exact List.forall_mem_append.2
        ⟨each, List.forall_mem_singleton.2 ⟨f, declared, rfl, fitting⟩⟩
  cases (w.call setting.host f arguments span).1 with
  | value data => exact fits
  | failure message =>
    have noted (v : World η) (same : v.calls = _) := CallsFit.of_calls_eq fits same
    refine handleFailure_upholds (fun v same _ _ => ?_) fun v same _ _ => noted v same
    exact catalog_housekeeping.ends (.failed (.of_code "E501" rfl)) (noted v same)
  | crash defect => exact ⟨trivial, fits⟩
  | question p =>
    refine ⟨fits, fun r t told => ?_⟩
    have fits' := CallsFit.of_calls_eq fits told.1
    refine ⟨fits', ?_⟩
    rintro why rfl
    cases why with
    | failed error => exact absurd rfl (told.2 error)
    | _ => exact ⟨trivial, fits'⟩

end

/-! ## Trees -/

/-- What a run whose calls have been checked relies on: the catalog is that of the check, its
functions have distinct parameters with defaults of their kinds, and every call in the scope of the
check has passed it. -/
structure Checked {η : Type} (setting : Setting η) (checker : Checker) (scope : Call → Prop) :
    Prop where
  catalog : setting.catalog = checker.catalog
  distinct : ∀ f ∈ checker.catalog.functions, (f.params.map (·.name)).Nodup
  defaults : ∀ f ∈ checker.catalog.functions, f.DefaultsAccepted
  calls : ∀ c, scope c → checker.callErrors c = []

section

variable {η : Type} {setting : Setting η} {checker : Checker} {scope : Call → Prop}
  {earlier : List (String × Arguments)}

theorem callWith_keeps (checked : Checked setting checker scope) {c : Call} (inScope : scope c)
    {f : FunctionSpec} (found : checker.catalog.get? c.name = some f) {args : List Value}
    {kwargs : List (String × Value)} (may : c.MayHave args kwargs) :
    Keeps checker.catalog scope earlier (callWith setting f c.span args kwargs) fun _ => True := by
  have declared : f ∈ checker.catalog.functions := List.mem_of_find?_eq_some found
  unfold callWith
  split
  · rename_i arguments bound
    have fitting := FunctionSpec.bind_fits (checked.distinct f declared)
      (checked.defaults f declared) bound
    exact invoke_keeps declared fitting
  · rename_i fault refused
    have misfit := Checker.bind_error (checked.calls c inScope) found may refused
    have code : fault.code = "E202" := by
      obtain ⟨f, m, p, e, v, -, -, -, -, -, rfl⟩ := misfit
      rfl
    refine Action.Meets.leave fun w fits => ⟨⟨?_, ?_, fun _ => ⟨c, inScope, misfit, rfl⟩⟩, fits⟩
    · rw [code]
      decide
    · rw [code]
      decide

/-- The calls that have passed the check keep the contract. -/
theorem Checked.upkeep (checked : Checked setting checker scope) :
    Upkeep setting (catalogContract η checker.catalog scope earlier)
      (·.CallsFit checker.catalog earlier) scope where
  toHousekeeping := catalog_housekeeping
  overflow _ fits := ⟨trivial, fits⟩
  unknown {c _} inScope missing := by
    obtain ⟨f, m, found, -, -⟩ := Checker.callErrors_eq_nil.1 (checked.calls c inScope)
    rw [checked.catalog, found] at missing
    cases missing
  call inScope found may := by
    rw [checked.catalog] at found
    exact callWith_keeps checked inScope found may

/-- Statements whose calls have passed the check keep the contract. -/
theorem executeAll_keeps (checked : Checked setting checker scope) (ss : List Stmt)
    (within : Within scope (walkStmts ss)) :
    Keeps checker.catalog scope earlier (executeAll setting ss) fun _ => True :=
  executeAll_upholds checked.upkeep ss within

end

end Run

end InstallScript
