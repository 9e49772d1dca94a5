import InstallScript.Check
import InstallScript.Run.Evaluate
import InstallScript.Proofs.Catalog.Binding

/-!
The check of a call against its binding. Before a run only the literals among the arguments have
values; the check refuses a call exactly if no values of the other arguments could be bound
(`flagged_iff_never_bound`). Both sides rest on one rule for kinds, since a literal is of the kind
of its value.
-/

namespace InstallScript

/-! ## Values that arguments may have -/

/-- A value that an expression may have. That of a literal is fixed. -/
def Expr.MayBe : Expr → Value → Prop
  | .literal _ l, v => v = Run.literalValue l
  | _, _ => True

/-- Arguments that a call may be made with. -/
structure Call.MayHave (c : Call) (args : List Value) (kwargs : List (String × Value)) : Prop where
  positional : List.Forall₂ Expr.MayBe c.arguments args
  named : List.Forall₂ (fun k entry => entry.1 = k.name ∧ k.value.MayBe entry.2) c.keywords kwargs

/-- The expressions of the arguments, those that are given by name last. -/
def Call.values (c : Call) : List Expr := c.arguments ++ c.keywords.map (·.value)

namespace Call.MayHave

variable {c : Call} {args : List Value} {kwargs : List (String × Value)}

theorem length_eq (may : c.MayHave args kwargs) : args.length = c.arguments.length :=
  may.positional.length_eq.symm

theorem names_eq (may : c.MayHave args kwargs) : kwargs.map (·.1) = c.keywords.map (·.name) := by
  have named := may.named
  clear may
  generalize c.keywords = keywords at named
  induction named with
  | nil => rfl
  | cons first _ ih => rw [List.map_cons, List.map_cons, ih, first.1]

theorem values (may : c.MayHave args kwargs) :
    List.Forall₂ Expr.MayBe c.values (args ++ kwargs.map (·.2)) := by
  refine List.rel_append may.positional ?_
  rw [List.forall₂_map_left_iff, List.forall₂_map_right_iff]
  exact may.named.imp fun _ _ both => both.2

end Call.MayHave

/-- Values of named arguments go with their names. -/
theorem exists_named {ks : List KeywordArgument} {vs : List Value}
    (may : List.Forall₂ Expr.MayBe (ks.map (·.value)) vs) :
    ∃ kwargs : List (String × Value), kwargs.map (·.2) = vs ∧
      List.Forall₂ (fun k entry => entry.1 = k.name ∧ k.value.MayBe entry.2) ks kwargs := by
  induction ks generalizing vs with
  | nil =>
    cases may
    exact ⟨[], rfl, .nil⟩
  | cons k ks ih =>
    cases may with
    | cons first others =>
      obtain ⟨kwargs, rfl, named⟩ := ih others
      exact ⟨(k.name, _) :: kwargs, rfl, .cons ⟨rfl, first⟩ named⟩

/-! ## One argument -/

/-- A value that a parameter accepts. -/
def ParamKind.sample : ParamKind → Value
  | string => .string ""
  | number => .ofInt 0
  | bool => .bool false
  | any => .bool false

theorem ParamKind.accepts_sample (k : ParamKind) : k.accepts k.sample.kind = true := by
  cases k <;> rfl

namespace Checker

variable {checker : Checker} {f : FunctionSpec}

/-- The table of the kinds of literals agrees with their values. -/
theorem literalKind_eq (l : Literal) : literalKind l = (Run.literalValue l).kind := by
  cases l <;> rfl

theorem argumentError?_eq_none {p : ParamSpec} {e : Expr} :
    checker.argumentError? f p e = none ↔
      ∀ span l, e = .literal span l → p.kind.accepts (Run.literalValue l).kind = true := by
  cases e with
  | literal span l =>
    rw [argumentError?, literalKind_eq]
    split
    · rename_i accepts
      refine ⟨fun _ _ _ eq => ?_, fun _ => rfl⟩
      cases eq
      exact accepts
    · rename_i refuses
      exact ⟨nofun, fun all => absurd (all span l rfl) refuses⟩
  | _ => exact ⟨fun _ => nofun, fun _ => rfl⟩

theorem argumentError?_code {p : ParamSpec} {e : Expr} {error : ScriptError}
    (found : checker.argumentError? f p e = some error) : error.fault.code = "E202" := by
  unfold argumentError? at found
  split at found
  · dsimp only at found
    split at found
    · cases found
    · cases found
      rfl
  · cases found

/-! ## The arguments of a call -/

/-- No argument is a literal that its parameter refuses. -/
def Passes (checker : Checker) (f : FunctionSpec) (pairs : List (ParamSpec × Expr)) : Prop :=
  ∀ pair ∈ pairs, checker.argumentError? f pair.1 pair.2 = none

/-- Arguments that are accepted when the call is made pass the check. -/
theorem passes_of_accepted {ps : List ParamSpec} {es : List Expr} {vs : List Value}
    (may : List.Forall₂ Expr.MayBe es vs) (accepted : FunctionSpec.Accepted (ps.zip vs)) :
    checker.Passes f (ps.zip es) := by
  induction may generalizing ps with
  | nil =>
    rw [List.zip_nil_right]
    exact List.forall_mem_nil _
  | @cons e v es vs first _ ih =>
    cases ps with
    | nil => exact List.forall_mem_nil _
    | cons p ps =>
      obtain ⟨accepts, others⟩ := List.forall_mem_cons.1 accepted
      refine List.forall_mem_cons.2 ⟨argumentError?_eq_none.2 fun span l eq => ?_, ih others⟩
      subst eq
      rw [← first]
      exact accepts

/-- Arguments that pass the check can be accepted: a literal has its own value, and every other
argument may have one that suits its parameter. -/
theorem exists_accepted {ps : List ParamSpec} {es : List Expr} (lengths : ps.length = es.length)
    (passes : checker.Passes f (ps.zip es)) :
    ∃ vs, List.Forall₂ Expr.MayBe es vs ∧ FunctionSpec.Accepted (ps.zip vs) := by
  induction es generalizing ps with
  | nil =>
    refine ⟨[], .nil, ?_⟩
    rw [List.zip_nil_right]
    exact List.forall_mem_nil _
  | cons e es ih =>
    obtain ⟨p, ps, rfl⟩ := List.exists_cons_of_length_eq_add_one lengths
    obtain ⟨first, others⟩ := List.forall_mem_cons.1 passes
    obtain ⟨vs, may, accepted⟩ := ih (Nat.succ.inj lengths) others
    obtain ⟨v, mayBe, accepts⟩ : ∃ v, e.MayBe v ∧ p.kind.accepts v.kind = true := by
      cases e with
      | literal span l => exact ⟨_, rfl, argumentError?_eq_none.1 first span l rfl⟩
      | _ => exact ⟨p.kind.sample, trivial, p.kind.accepts_sample⟩
    exact ⟨v :: vs, .cons mayBe may, List.forall_mem_cons.2 ⟨accepts, accepted⟩⟩

/-! ## Calls -/

theorem callErrors_eq_nil {c : Call} : checker.callErrors c = [] ↔
    ∃ f m, checker.catalog.get? c.name = some f ∧
      f.matchArguments c.arguments.length (c.keywords.map (·.name)) = .ok m ∧
      checker.Passes f (m.params.zip c.values) := by
  unfold callErrors
  cases found : checker.catalog.get? c.name with
  | none => exact ⟨nofun, fun ⟨_, _, eq, _⟩ => nomatch eq⟩
  | some f =>
    dsimp only
    cases matched : f.matchArguments c.arguments.length (c.keywords.map (·.name)) with
    | error fault =>
      refine ⟨nofun, fun ⟨f', _, eq, matched', _⟩ => ?_⟩
      cases eq
      rw [matched] at matched'
      cases matched'
    | ok m =>
      dsimp only
      rw [List.filterMap_eq_nil_iff]
      refine ⟨fun passes => ⟨f, m, rfl, matched, passes⟩, fun ⟨f', m', eq, matched', passes⟩ => ?_⟩
      cases eq
      rw [matched] at matched'
      cases matched'
      exact passes

theorem callErrors_code {c : Call} :
    ∀ error ∈ checker.callErrors c, error.fault.code ∈ ["E203", "E201", "E202"] := by
  intro error member
  unfold callErrors at member
  split at member
  · rw [List.mem_singleton.1 member]
    exact List.mem_cons_self
  · split at member
    · rename_i fault refused
      have code : fault.code = "E201" := FunctionSpec.matchArguments_code refused
      rw [List.mem_singleton.1 member, errorAt, ScriptError.withLine, code]
      decide
    · obtain ⟨pair, -, found⟩ := List.mem_filterMap.1 member
      rw [argumentError?_code found]
      decide

/-- A call is flagged exactly if it could never be made: its function is not in the catalog, or no
values of its arguments can be bound, where literals keep their own. -/
theorem flagged_iff_never_bound (checker : Checker) (c : Call) :
    (∃ error ∈ checker.callErrors c, error.fault.code ∈ ["E203", "E201", "E202"]) ↔
      ¬ ∃ f args kwargs, checker.catalog.get? c.name = some f ∧ c.MayHave args kwargs ∧
        (f.bind args kwargs).isOk = true := by
  constructor
  · rintro ⟨error, member, -⟩ ⟨f, args, kwargs, found, may, bound⟩
    obtain ⟨m, matched, accepted⟩ := FunctionSpec.bind_isOk_iff.1 bound
    rw [may.length_eq, may.names_eq] at matched
    have none : checker.callErrors c = [] :=
      callErrors_eq_nil.2 ⟨f, m, found, matched, passes_of_accepted may.values accepted⟩
    rw [none] at member
    cases member
  · intro never
    rcases List.eq_nil_or_concat (checker.callErrors c) with none | ⟨_, error, some⟩
    · obtain ⟨f, m, found, matched, passes⟩ := callErrors_eq_nil.1 none
      have shaped := FunctionSpec.matchArguments_eq_ok matched
      have lengths : m.named.length = (c.keywords.map (·.value)).length := by
        rw [shaped.named, List.length_map, List.length_map]
      rw [Matched.params, Call.values, List.zip_append shaped.positional] at passes
      obtain ⟨first, second⟩ := List.forall_mem_append.1 passes
      obtain ⟨args, mayArgs, acceptedArgs⟩ := exists_accepted shaped.positional first
      obtain ⟨values, mayValues, acceptedValues⟩ := exists_accepted lengths second
      obtain ⟨kwargs, rfl, mayNamed⟩ := exists_named mayValues
      have may : c.MayHave args kwargs := ⟨mayArgs, mayNamed⟩
      refine absurd ⟨f, args, kwargs, found, may, FunctionSpec.bind_isOk_iff.2 ⟨m, ?_, ?_⟩⟩ never
      · rwa [may.length_eq, may.names_eq]
      · rw [Matched.params, List.zip_append (shaped.positional.trans may.length_eq.symm)]
        exact List.forall_mem_append.2 ⟨acceptedArgs, acceptedValues⟩
    · have member : error ∈ checker.callErrors c := by
        rw [some, List.concat_eq_append]
        exact List.mem_append_right _ (List.mem_singleton_self error)
      exact ⟨error, member, callErrors_code error member⟩

/-! ## Whole scripts -/

theorem add_all (errors : List ScriptError) (found : Collector) :
    (errors.foldl (fun c e => c.add e.diagnostic) found).diagnostics.toList =
        found.diagnostics.toList ++ errors.map (·.diagnostic) ∧
      (errors.foldl (fun c e => c.add e.diagnostic) found).maxErrors = found.maxErrors := by
  induction errors generalizing found with
  | nil => exact ⟨(List.append_nil _).symm, rfl⟩
  | cons error errors ih =>
    obtain ⟨diagnostics, limit⟩ := ih (found.add error.diagnostic)
    refine ⟨?_, limit⟩
    rw [List.foldl_cons, diagnostics, Collector.add, Array.toList_push, List.append_assoc]
    rfl

/-- What has been found is not lost. -/
theorem collect_extends (assigned : List String) (nodes : List Node) (found : Collector) :
    ∃ more, (checker.collect assigned nodes found).diagnostics.toList =
      found.diagnostics.toList ++ more := by
  induction nodes generalizing found with
  | nil => exact ⟨[], (List.append_nil _).symm⟩
  | cons node nodes ih =>
    rw [collect]
    split
    · exact ⟨[], (List.append_nil _).symm⟩
    · obtain ⟨more, eq⟩ := ih
        ((checker.nodeErrors assigned node).foldl (fun c e => c.add e.diagnostic) found)
      rw [(add_all _ found).1, List.append_assoc] at eq
      exact ⟨_, eq⟩

/-- What is found is wrong with one of the nodes. -/
theorem mem_collect {assigned : List String} {nodes : List Node} {found : Collector}
    {d : Diagnostic} (member : d ∈ (checker.collect assigned nodes found).diagnostics.toList) :
    d ∈ found.diagnostics.toList ∨
      ∃ node ∈ nodes, ∃ error ∈ checker.nodeErrors assigned node, d = error.diagnostic := by
  induction nodes generalizing found with
  | nil => exact .inl member
  | cons node nodes ih =>
    rw [collect] at member
    split at member
    · exact .inl member
    · rcases ih member with earlier | ⟨node', later, rest⟩
      · rw [(add_all _ found).1, List.mem_append, List.mem_map] at earlier
        rcases earlier with earlier | ⟨error, here, rfl⟩
        · exact .inl earlier
        · exact .inr ⟨node, List.mem_cons_self, error, here, rfl⟩
      · exact .inr ⟨node', List.mem_cons_of_mem _ later, rest⟩

/-- What a check finds is wrong with a node of the script. -/
theorem mem_check {script : Block} {maxErrors : Int} {d : Diagnostic}
    (member : d ∈ (checker.check script maxErrors).diagnostics.toList) :
    ∃ node ∈ script.walk, ∃ error ∈
      checker.nodeErrors (checker.assignedKeys script.walk) node, d = error.diagnostic :=
  (mem_collect member).resolve_left List.not_mem_nil

/-- If nothing is found then every node has been looked at, and nothing is wrong with it. -/
theorem nodeErrors_of_collect {assigned : List String} {nodes : List Node} {found : Collector}
    (limit : 0 < found.maxErrors)
    (none : (checker.collect assigned nodes found).diagnostics.toList = []) :
    ∀ node ∈ nodes, checker.nodeErrors assigned node = [] := by
  induction nodes generalizing found with
  | nil => exact List.forall_mem_nil _
  | cons node nodes ih =>
    obtain ⟨_, eq⟩ := collect_extends assigned (node :: nodes) found
    rw [none] at eq
    obtain ⟨empty, -⟩ := List.append_eq_nil_iff.1 eq.symm
    have goesOn : ¬ found.shouldStop = true := by
      rw [Collector.shouldStop, Collector.errorCount, Collector.count, empty, decide_eq_true_eq]
      exact Int.not_le.2 limit
    rw [collect, if_neg goesOn] at none
    dsimp only at none
    obtain ⟨diagnostics, sameLimit⟩ := add_all (checker.nodeErrors assigned node) found
    obtain ⟨_, eq⟩ := collect_extends assigned nodes
      ((checker.nodeErrors assigned node).foldl (fun c e => c.add e.diagnostic) found)
    rw [none, diagnostics, empty, List.nil_append] at eq
    have noErrors := List.map_eq_nil_iff.1 (List.append_eq_nil_iff.1 eq.symm).1
    exact List.forall_mem_cons.2 ⟨noErrors, ih (sameLimit ▸ limit) none⟩

end Checker

/-- Nothing is wrong with any node of a script that compiles. -/
theorem nodeErrors_of_compile {catalog : Catalog} {g : Grammar} {caseSensitive : Bool}
    {source : Source} {script : Block}
    (compiled : compile catalog g caseSensitive source = .ok script) :
    ∃ (checker : Checker) (assigned : List String), checker.catalog = catalog ∧
      ∀ node ∈ script.walk, checker.nodeErrors assigned node = [] := by
  unfold compile at compiled
  split at compiled
  · cases compiled
  · rename_i tree _
    dsimp only at compiled
    split at compiled
    · rename_i none
      cases compiled
      exact ⟨⟨catalog, caseSensitive, source.lines⟩, _, rfl,
        Checker.nodeErrors_of_collect (by decide) none⟩
    · cases compiled

end InstallScript
