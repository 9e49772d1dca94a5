import InstallScript.Proofs.Catalog.Checking
import InstallScript.Proofs.Catalog.ExactBinding
import InstallScript.Proofs.Syntax.Kinship

/-!
The check of scripts whose names differ in letter case only. Where the check does not go by letter
case, it looks at the same nodes of both scripts in the same order and finds the same wrong with
them (`Block.Kin.check_codes`); only the stretches and the words of its messages may be others.
-/

namespace InstallScript

/-- Names are the same letter case aside. Stretches may differ, since the folded form of a name need
not be as long as the name. -/
def Kinship.folding : Kinship where
  span _ _ := True
  target name name' := Text.fold name = Text.fold name'
  read _ name e := ∃ span' name', e = .var span' name' ∧ Text.fold name = Text.fold name'
  call c c' := Text.fold c.name = Text.fold c'.name ∧
    (c.keywords.map (·.name)).map Text.fold = (c'.keywords.map (·.name)).map Text.fold

theorem ExprsKin.length_eq {k : Kinship} {es es' : List Expr} : ExprsKin k es es' →
    es.length = es'.length
  | .nil => rfl
  | .cons _ others => congrArg (· + 1) others.length_eq

theorem ExprsKin.append {k : Kinship} {es es' ds ds' : List Expr} : ExprsKin k es es' →
    ExprsKin k ds ds' → ExprsKin k (es ++ ds) (es' ++ ds')
  | .nil, second => second
  | .cons first others, second => .cons first (others.append second)

namespace Checker

/-- The checks of two scripts against one catalog, neither of which goes by letter case. -/
structure Alike (checker checker' : Checker) : Prop where
  catalog : checker'.catalog = checker.catalog
  folds : checker.caseSensitive = false
  folds' : checker'.caseSensitive = false

/-- The same is assigned to in both nodes, and the same is wrong with them. -/
structure SameCheck (checker checker' : Checker) (node node' : Node) : Prop where
  assigned : (assignedName? node).map Text.fold = (assignedName? node').map Text.fold
  codes : ∀ assigned, (checker.nodeErrors assigned node).map (·.fault.code) =
    (checker'.nodeErrors assigned node').map (·.fault.code)

variable {checker checker' : Checker}

/-! ## Nodes -/

theorem nameKey_folds (alike : checker.Alike checker') {name name' : String}
    (folds : Text.fold name = Text.fold name') :
    nameKey checker.caseSensitive name = nameKey checker'.caseSensitive name' := by
  rw [nameKey, nameKey, alike.folds, alike.folds']
  exact folds

theorem argumentError?_folds {f : FunctionSpec} {p : ParamSpec} {e e' : Expr}
    (kin : e.Kin .folding e') : (checker.argumentError? f p e).map (·.fault.code) =
      (checker'.argumentError? f p e').map (·.fault.code) := by
  cases kin with
  | literal =>
    rw [argumentError?, argumentError?]
    split <;> rfl
  | var read =>
    obtain ⟨_, _, rfl, -⟩ := read
    rfl
  | call | binary | unary => rfl

/-- What is wrong with arguments, as far as codes tell. -/
def argumentCodes (checker : Checker) (f : FunctionSpec) (pairs : List (ParamSpec × Expr)) :
    List String :=
  (pairs.filterMap fun (p, e) => checker.argumentError? f p e).map (·.fault.code)

theorem argumentCodes_cons {f : FunctionSpec} {p : ParamSpec} {e : Expr}
    {pairs : List (ParamSpec × Expr)} : checker.argumentCodes f ((p, e) :: pairs) =
      ((checker.argumentError? f p e).map (·.fault.code)).toList ++
        checker.argumentCodes f pairs := by
  unfold argumentCodes
  rw [List.filterMap_cons]
  dsimp only
  cases checker.argumentError? f p e <;> rfl

theorem argumentCodes_folds {f : FunctionSpec} {es es' : List Expr}
    (kin : ExprsKin .folding es es') (ps : List ParamSpec) :
    checker.argumentCodes f (ps.zip es) = checker'.argumentCodes f (ps.zip es') := by
  induction ps generalizing es es' with
  | nil => rfl
  | cons p ps ih =>
    cases kin with
    | nil => rfl
    | cons first others =>
      rw [List.zip_cons_cons, List.zip_cons_cons, argumentCodes_cons, argumentCodes_cons,
        argumentError?_folds first, ih others]

theorem callErrors_folds (alike : checker.Alike checker') {c c' : Call} (kin : c.Kin .folding c') :
    (checker.callErrors c).map (·.fault.code) = (checker'.callErrors c').map (·.fault.code) := by
  cases kin with
  | @mk _ _ name name' es es' ks ks' heads arguments keywords =>
    obtain ⟨names, folds⟩ := heads
    have lookup : checker'.catalog.get? name' = checker.catalog.get? name := by
      rw [alike.catalog, Catalog.get?, Catalog.get?, show Text.fold name' = Text.fold name from
        names.symm]
    unfold callErrors
    simp only [Call.name, Call.arguments, Call.keywords] at folds ⊢
    rw [lookup]
    cases checker.catalog.get? name with
    | none => rfl
    | some f =>
      dsimp only
      rw [arguments.length_eq]
      rcases f.matchArguments_fold es'.length folds with
        same | ⟨fault, fault', refused, refused', codes⟩
      · rw [same]
        cases f.matchArguments es'.length (ks'.map (·.name)) with
        | error fault => rfl
        | ok matched => exact argumentCodes_folds (arguments.append keywords) _
      · rw [refused, refused']
        exact congrArg (fun code => [code]) codes

/-- A node at which neither check finds anything, and that assigns to nothing. -/
theorem SameCheck.silent {node node' : Node}
    (silent : ∀ assigned, checker.nodeErrors assigned node = [])
    (silent' : ∀ assigned, checker'.nodeErrors assigned node' = [])
    (assigned : (assignedName? node).map Text.fold = (assignedName? node').map Text.fold) :
    SameCheck checker checker' node node' :=
  ⟨assigned, fun keys => by rw [silent, silent']⟩

theorem SameCheck.var (alike : checker.Alike checker') {span span' : Span} {name name' : String}
    (folds : Text.fold name = Text.fold name') :
    SameCheck checker checker' (.expr (.var span name)) (.expr (.var span' name')) := by
  refine ⟨rfl, fun assigned => ?_⟩
  rw [nodeErrors, nodeErrors, nameKey_folds alike folds]
  split <;> rfl

/-! ## Walks -/

/-- Walks on which the same is found. -/
abbrev SameChecks (checker checker' : Checker) : List Node → List Node → Prop :=
  List.Forall₂ (SameCheck checker checker')

mutual

theorem expr_walk (alike : checker.Alike checker') {e e' : Expr} : e.Kin .folding e' →
    SameChecks checker checker' e.walk e'.walk
  | .literal => .cons (.silent (fun _ => rfl) (fun _ => rfl) rfl) .nil
  | .var read => by
    obtain ⟨span', name', rfl, folds⟩ := read
    exact .cons (.var alike folds) .nil
  | .call calls =>
    .cons ⟨rfl, fun _ => callErrors_folds alike calls⟩ (call_walk alike calls)
  | .binary _ left right =>
    .cons (.silent (fun _ => rfl) (fun _ => rfl) rfl)
      (List.rel_append (expr_walk alike left) (expr_walk alike right))
  | .unary _ operand => .cons (.silent (fun _ => rfl) (fun _ => rfl) rfl) (expr_walk alike operand)

theorem call_walk (alike : checker.Alike checker') {c c' : Call} : c.Kin .folding c' →
    SameChecks checker checker' c.walkArguments c'.walkArguments
  | .mk _ arguments keywords =>
    List.rel_append (exprs_walk alike arguments) (keywords_walk alike keywords _ _ rfl rfl)

theorem exprs_walk (alike : checker.Alike checker') {es es' : List Expr} :
    ExprsKin .folding es es' → SameChecks checker checker' (walkExprs es) (walkExprs es')
  | .nil => .nil
  | .cons first others => List.rel_append (expr_walk alike first) (exprs_walk alike others)

theorem keywords_walk (alike : checker.Alike checker') {es es' : List Expr} :
    ExprsKin .folding es es' → ∀ ks ks' : List KeywordArgument, es = ks.map (·.value) →
      es' = ks'.map (·.value) → SameChecks checker checker' (walkKeywords ks) (walkKeywords ks')
  | .nil, [], [], _, _ => .nil
  | .cons first others, .mk _ _ e :: ks, .mk _ _ e' :: ks', eq, eq' => by
    obtain ⟨rfl, rest⟩ := List.cons.inj eq
    obtain ⟨rfl, rest'⟩ := List.cons.inj eq'
    exact .cons (.silent (fun _ => rfl) (fun _ => rfl) rfl)
      (List.rel_append (expr_walk alike first) (keywords_walk alike others ks ks' rest rest'))

end

mutual

theorem stmt_walk (alike : checker.Alike checker') {s s' : Stmt} : s.Kin .folding s' →
    SameChecks checker checker' s.walk s'.walk
  | .assign _ targets value =>
    .cons (.silent (fun _ => rfl) (fun _ => rfl) (congrArg some targets)) (expr_walk alike value)
  | .call calls =>
    .cons (.silent (fun _ => rfl) (fun _ => rfl) rfl) (expr_walk alike (.call calls))
  | .choice branches =>
    .cons (.silent (fun _ => rfl) (fun _ => rfl) rfl) (branches_walk alike branches)
  | .choiceElse branches otherwise =>
    .cons (.silent (fun _ => rfl) (fun _ => rfl) rfl)
      (List.rel_append (branches_walk alike branches) (block_walk alike otherwise))
  | .whileLoop _ condition body =>
    .cons (.silent (fun _ => rfl) (fun _ => rfl) rfl)
      (List.rel_append (expr_walk alike condition) (block_walk alike body))
  | .forLoop _ counters first last body =>
    .cons (.silent (fun _ => rfl) (fun _ => rfl) (congrArg some counters))
      (List.rel_append (List.rel_append (expr_walk alike first) (expr_walk alike last))
        (block_walk alike body))
  | .forLoopStep _ counters first last step body =>
    .cons (.silent (fun _ => rfl) (fun _ => rfl) (congrArg some counters))
      (List.rel_append (List.rel_append (List.rel_append (expr_walk alike first)
        (expr_walk alike last)) (block_walk alike body)) (expr_walk alike step))
  | .block body => block_walk alike body
  | .ret | .comment => .cons (.silent (fun _ => rfl) (fun _ => rfl) rfl) .nil

theorem branches_walk (alike : checker.Alike checker') {bs bs' : List Branch} :
    BranchesKin .folding bs bs' → SameChecks checker checker' (walkBranches bs) (walkBranches bs')
  | .nil => .nil
  | .cons condition body others =>
    .cons (.silent (fun _ => rfl) (fun _ => rfl) rfl)
      (List.rel_append (List.rel_append (expr_walk alike condition) (block_walk alike body))
        (branches_walk alike others))

theorem block_walk (alike : checker.Alike checker') {b b' : Block} : b.Kin .folding b' →
    SameChecks checker checker' b.walk b'.walk
  | .mk statements =>
    .cons (.silent (fun _ => rfl) (fun _ => rfl) rfl) (stmts_walk alike statements)

theorem stmts_walk (alike : checker.Alike checker') {ss ss' : List Stmt} :
    StmtsKin .folding ss ss' → SameChecks checker checker' (walkStmts ss) (walkStmts ss')
  | .nil => .nil
  | .cons first others => List.rel_append (stmt_walk alike first) (stmts_walk alike others)

end

/-! ## Whole scripts -/

theorem assignedKeys_folds (alike : checker.Alike checker') {nodes nodes' : List Node}
    (same : SameChecks checker checker' nodes nodes') :
    checker.assignedKeys nodes = checker'.assignedKeys nodes' := by
  have folds (insensitive : Checker) (rule : insensitive.caseSensitive = false) (ns : List Node) :
      insensitive.assignedKeys ns = ns.filterMap fun n => (assignedName? n).map Text.fold := by
    have key : nameKey insensitive.caseSensitive = Text.fold := by
      funext name
      rw [nameKey, rule]
      rfl
    rw [assignedKeys, key, List.map_filterMap]
  rw [folds checker alike.folds, folds checker' alike.folds']
  induction same with
  | nil => rfl
  | cons first _ ih => rw [List.filterMap_cons, List.filterMap_cons, first.assigned, ih]

/-- The severity and the code of a diagnostic. -/
def kindOf (d : Diagnostic) : Severity × String := (d.severity, d.code)

/-- Collections that have found the same so far. -/
structure SameFinds (found found' : Collector) : Prop where
  kinds : found.diagnostics.toList.map kindOf = found'.diagnostics.toList.map kindOf
  limit : found.maxErrors = found'.maxErrors

theorem SameFinds.shouldStop {found found' : Collector} (same : SameFinds found found') :
    found.shouldStop = found'.shouldStop := by
  have count (c : Collector) : c.errorCount =
      (c.diagnostics.toList.map kindOf).countP fun k => k.1 = .error := by
    rw [Collector.errorCount, Collector.count, List.countP_map]
    rfl
  rw [Collector.shouldStop, Collector.shouldStop, count, count, same.kinds, same.limit]

theorem SameFinds.addAll {found found' : Collector} (same : SameFinds found found')
    {errors errors' : List ScriptError}
    (codes : errors.map (·.fault.code) = errors'.map (·.fault.code)) :
    SameFinds (errors.foldl (fun c e => c.add e.diagnostic) found)
      (errors'.foldl (fun c e => c.add e.diagnostic) found') := by
  obtain ⟨diagnostics, limit⟩ := add_all errors found
  obtain ⟨diagnostics', limit'⟩ := add_all errors' found'
  refine ⟨?_, limit.trans (same.limit.trans limit'.symm)⟩
  have kinds (es : List ScriptError) : (es.map (·.diagnostic)).map kindOf =
      (es.map (·.fault.code)).map fun code => (.error, code) := by
    rw [List.map_map, List.map_map]
    rfl
  rw [diagnostics, diagnostics', List.map_append, List.map_append, same.kinds, kinds, kinds, codes]

theorem collect_folds (assigned : List String) {nodes nodes' : List Node}
    (nodesSame : SameChecks checker checker' nodes nodes') {found found' : Collector}
    (same : SameFinds found found') :
    SameFinds (checker.collect assigned nodes found) (checker'.collect assigned nodes' found') := by
  induction nodesSame generalizing found found' with
  | nil => exact same
  | cons first _ ih =>
    rw [collect, collect, same.shouldStop]
    split
    · exact same
    · exact ih (same.addAll (first.codes assigned))

end Checker

/-- The check finds the same in the same order, also where it stops at its limit. -/
theorem Block.Kin.check_codes {checker checker' : Checker} (alike : checker.Alike checker')
    {script script' : Block} (kin : script.Kin .folding script') (maxErrors : Int) :
    (checker.check script maxErrors).diagnostics.toList.map (·.code) =
      (checker'.check script' maxErrors).diagnostics.toList.map (·.code) := by
  have walks := Checker.block_walk alike kin
  have same := Checker.collect_folds (checker.assignedKeys script.walk) walks
    (show Checker.SameFinds { maxErrors } { maxErrors } from ⟨rfl, rfl⟩)
  have codes := congrArg (List.map Prod.snd) same.kinds
  rw [List.map_map, List.map_map] at codes
  rw [Checker.check, Checker.check, ← Checker.assignedKeys_folds alike walks]
  exact codes

end InstallScript
