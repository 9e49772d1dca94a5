import InstallScript.Proofs.Catalog.Checking

/-!
The limit on the errors of a check. Whether the limit is reached is only asked between two nodes of
the script, and one call can have many errors: one for each literal of the wrong kind among its
arguments. So the check finds the errors of whole nodes, and finds exactly the first ones, as many
as the limit says, unless the limit falls among the errors of one call (`limited_check_exact`).
-/

namespace InstallScript

namespace Checker

variable {checker : Checker} {assigned : List String}

/-! ## The nodes that are looked at -/

/-- What is wrong with a node, as it is reported. -/
def nodeDiagnostics (checker : Checker) (assigned : List String) (node : Node) : List Diagnostic :=
  (checker.nodeErrors assigned node).map (·.diagnostic)

/-- What is wrong with the nodes of a list. -/
def diagnosticsOf (checker : Checker) (assigned : List String) (nodes : List Node) :
    List Diagnostic :=
  nodes.flatMap (checker.nodeDiagnostics assigned)

/-- Everything that is wrong with a script, in the order of its nodes. -/
def findings (checker : Checker) (script : Block) : List Diagnostic :=
  checker.diagnosticsOf (checker.assignedKeys script.walk) script.walk

/-- The nodes that are looked at until a number of errors is found. -/
def lookedAt (checker : Checker) (assigned : List String) : Nat → List Node → List Node
  | _, [] => []
  | limit, node :: rest =>
    if limit = 0 then []
    else
      node :: checker.lookedAt assigned
        (limit - (checker.nodeDiagnostics assigned node).length) rest

/-- A limit falls among the errors of one call: it is reached inside of them, and they go on. -/
def SplitsCall (checker : Checker) (assigned : List String) (nodes : List Node) (limit : Nat) :
    Prop :=
  ∃ before c after, nodes = before ++ .expr (.call c) :: after ∧
    (checker.diagnosticsOf assigned before).length < limit ∧
    limit < (checker.diagnosticsOf assigned before).length + (checker.callErrors c).length

theorem diagnosticsOf_cons (node : Node) (nodes : List Node) :
    checker.diagnosticsOf assigned (node :: nodes) =
      checker.nodeDiagnostics assigned node ++ checker.diagnosticsOf assigned nodes :=
  List.flatMap_cons

theorem diagnosticsOf_append (nodes others : List Node) :
    checker.diagnosticsOf assigned (nodes ++ others) =
      checker.diagnosticsOf assigned nodes ++ checker.diagnosticsOf assigned others :=
  List.flatMap_append

theorem length_nodeDiagnostics_call (c : Call) :
    (checker.nodeDiagnostics assigned (.expr (.call c))).length = (checker.callErrors c).length :=
  List.length_map _

theorem lookedAt_zero (nodes : List Node) : checker.lookedAt assigned 0 nodes = [] := by
  cases nodes with
  | nil => rfl
  | cons => exact if_pos rfl

theorem lookedAt_cons {limit : Nat} (positive : 0 < limit) (node : Node) (nodes : List Node) :
    checker.lookedAt assigned limit (node :: nodes) =
      node :: checker.lookedAt assigned
        (limit - (checker.nodeDiagnostics assigned node).length) nodes :=
  if_neg (Nat.ne_of_gt positive)

/-- Only a call has several errors. Each of them is about a literal among its arguments. -/
theorem call_of_several {node : Node}
    (several : 1 < (checker.nodeDiagnostics assigned node).length) :
    ∃ c, node = .expr (.call c) ∧
      ∀ d ∈ checker.nodeDiagnostics assigned node, d.code = "E202" := by
  rw [nodeDiagnostics, List.length_map] at several
  unfold nodeErrors at several
  split at several
  · rename_i c
    refine ⟨c, rfl, fun d reported => ?_⟩
    obtain ⟨error, member, rfl⟩ := List.mem_map.1 reported
    replace member : error ∈ checker.callErrors c := member
    unfold callErrors at several member
    split at several
    · exact absurd several (Nat.lt_irrefl 1)
    · split at several
      · exact absurd several (Nat.lt_irrefl 1)
      · rename_i f found _ m matched
        rw [found] at member
        dsimp only at member
        rw [matched] at member
        obtain ⟨pair, -, error⟩ := List.mem_filterMap.1 member
        exact argumentError?_code error
  · split at several
    · exact absurd several (Nat.not_lt_zero 1)
    · exact absurd several (Nat.lt_irrefl 1)
  · exact absurd several (Nat.not_lt_zero 1)

theorem SplitsCall.behind {node : Node} {nodes : List Node} {limit : Nat}
    (split : checker.SplitsCall assigned nodes
      (limit - (checker.nodeDiagnostics assigned node).length)) :
    checker.SplitsCall assigned (node :: nodes) limit := by
  obtain ⟨before, c, after, rfl, reached, exceeded⟩ := split
  refine ⟨node :: before, c, after, rfl, ?_, ?_⟩ <;>
  · rw [diagnosticsOf_cons, List.length_append]
    omega

/-- A limit that falls among the errors of no call is met exactly. -/
theorem lookedAt_eq_take {nodes : List Node} {limit : Nat}
    (whole : ¬ checker.SplitsCall assigned nodes limit) :
    checker.diagnosticsOf assigned (checker.lookedAt assigned limit nodes) =
      (checker.diagnosticsOf assigned nodes).take limit := by
  induction nodes generalizing limit with
  | nil => exact List.take_nil.symm
  | cons node nodes ih =>
    rcases Nat.eq_zero_or_pos limit with rfl | positive
    · rw [lookedAt_zero, List.take_zero]
      rfl
    · have within : (checker.nodeDiagnostics assigned node).length ≤ limit := by
        by_contra exceeded
        obtain ⟨c, rfl, -⟩ := call_of_several
          (Nat.lt_of_le_of_lt positive (Nat.lt_of_not_le exceeded))
        refine whole ⟨[], c, nodes, rfl, positive, ?_⟩
        rw [length_nodeDiagnostics_call] at exceeded
        exact lt_of_lt_of_eq (Nat.lt_of_not_le exceeded) (Nat.zero_add _).symm
      rw [lookedAt_cons positive, diagnosticsOf_cons, diagnosticsOf_cons,
        ih fun split => whole split.behind, List.take_append, List.take_of_length_le within]

/-- When the limit falls among the errors of a call, then this is the last node looked at. -/
theorem lookedAt_of_split {before after : List Node} {node : Node} {limit : Nat}
    (reached : (checker.diagnosticsOf assigned before).length < limit)
    (exceeded : limit ≤ (checker.diagnosticsOf assigned before).length +
      (checker.nodeDiagnostics assigned node).length) :
    checker.lookedAt assigned limit (before ++ node :: after) = before ++ [node] := by
  induction before generalizing limit with
  | nil =>
    rw [List.nil_append, lookedAt_cons reached,
      Nat.sub_eq_zero_of_le (le_of_le_of_eq exceeded (Nat.zero_add _)), lookedAt_zero]
    rfl
  | cons first before ih =>
    rw [diagnosticsOf_cons, List.length_append] at reached exceeded
    rw [List.cons_append, lookedAt_cons (by omega), ih (by omega) (by omega)]
    rfl

/-! ## The check -/

theorem add_all_count (errors : List ScriptError) (found : Collector) :
    (errors.foldl (fun c e => c.add e.diagnostic) found).errorCount =
      found.errorCount + errors.length := by
  have errorsOnly : (errors.map (·.diagnostic)).countP
      (fun d => decide (d.severity = .error)) = errors.length := by
    rw [List.countP_map]
    exact (List.countP_eq_length.2 fun _ _ => rfl)
  rw [Collector.errorCount, Collector.count, (add_all errors found).1, List.countP_append,
    errorsOnly]
  rfl

/-- A check reports what is wrong with the nodes that it looks at. -/
theorem collect_eq (nodes : List Node) (found : Collector) {limit : Nat}
    (limited : found.maxErrors = limit) :
    (checker.collect assigned nodes found).diagnostics.toList = found.diagnostics.toList ++
      checker.diagnosticsOf assigned
        (checker.lookedAt assigned (limit - found.errorCount) nodes) := by
  induction nodes generalizing found with
  | nil => exact (List.append_nil _).symm
  | cons node nodes ih =>
    rw [collect]
    split
    · rename_i stops
      rw [Collector.shouldStop, limited, decide_eq_true_eq] at stops
      rw [Nat.sub_eq_zero_of_le (Int.ofNat_le.1 stops), lookedAt_zero]
      exact (List.append_nil _).symm
    · rename_i goesOn
      rw [Collector.shouldStop, limited, decide_eq_true_eq] at goesOn
      have room : 0 < limit - found.errorCount := by omega
      obtain ⟨diagnostics, sameLimit⟩ := add_all (checker.nodeErrors assigned node) found
      have count := add_all_count (checker.nodeErrors assigned node) found
      rw [ih _ (sameLimit.trans limited), diagnostics, count, lookedAt_cons room,
        diagnosticsOf_cons, nodeDiagnostics, List.length_map, ← List.append_assoc, Nat.sub_sub]

theorem check_eq (checker : Checker) (script : Block) (limit : Nat) :
    (checker.check script limit).diagnostics.toList =
      checker.diagnosticsOf (checker.assignedKeys script.walk)
        (checker.lookedAt (checker.assignedKeys script.walk) limit script.walk) :=
  collect_eq script.walk { maxErrors := (limit : Int) } rfl

/-- Everything that a check reports is an error. -/
theorem check_hasErrors_iff (checker : Checker) (script : Block) (limit : Int) :
    (checker.check script limit).hasErrors = true ↔
      (checker.check script limit).diagnostics.toList ≠ [] := by
  rw [Collector.hasErrors, Collector.errorCount, Collector.count, decide_eq_true_eq,
    List.countP_pos_iff]
  constructor
  · rintro ⟨d, member, -⟩ none
    rw [none] at member
    cases member
  · intro some
    obtain ⟨d, member⟩ := List.exists_mem_of_ne_nil _ some
    obtain ⟨_, _, error, _, rfl⟩ := mem_check member
    exact ⟨_, member, rfl⟩

/-- A limit that no script with so few errors can exceed is no limit. -/
theorem check_unlimited {script : Block} {limit : Nat}
    (few : (checker.findings script).length ≤ limit) :
    (checker.check script limit).diagnostics.toList = checker.findings script := by
  rw [check_eq, lookedAt_eq_take, ← findings, List.take_of_length_le few]
  rintro ⟨before, c, after, walk, -, exceeded⟩
  have all : (checker.findings script).length =
      (checker.diagnosticsOf (checker.assignedKeys script.walk)
        (before ++ .expr (.call c) :: after)).length := by
    rw [findings, ← walk]
  rw [diagnosticsOf_append, diagnosticsOf_cons, List.length_append, List.length_append,
    length_nodeDiagnostics_call] at all
  omega

/-- A check finds nothing only if nothing is wrong with the script. -/
theorem check_eq_nil_iff {script : Block} {limit : Int} (positive : 0 < limit) :
    (checker.check script limit).diagnostics.toList = [] ↔ checker.findings script = [] := by
  constructor
  · intro none
    have clean := nodeErrors_of_collect
      (show 0 < ({ maxErrors := limit } : Collector).maxErrors from positive) none
    refine List.flatMap_eq_nil_iff.2 fun node member => ?_
    rw [nodeDiagnostics, clean node member]
    rfl
  · intro none
    refine List.eq_nil_iff_forall_not_mem.2 fun d reported => ?_
    obtain ⟨node, inside, error, member, rfl⟩ := mem_check reported
    have found : error.diagnostic ∈ checker.findings script :=
      List.mem_flatMap_of_mem inside (List.mem_map_of_mem member)
    rw [none] at found
    cases found

/-- A check with a limit finds the first errors of the check without one, as many as the limit
says, exactly if the limit falls among the errors of no call. If it does, then it also finds the
others of this call, all about its literal arguments, and nothing further. It finds an error exactly
if the check without a limit does. -/
theorem limited_check_exact (checker : Checker) (script : Block) {limit : Nat}
    (positive : 1 ≤ limit) :
    let all := checker.findings script
    let assigned := checker.assignedKeys script.walk
    let found := (checker.check script limit).diagnostics.toList
    (∀ unlimited : Nat, all.length ≤ unlimited →
      (checker.check script unlimited).diagnostics.toList = all ∧
      ((checker.check script limit).hasErrors = true ↔
        (checker.check script unlimited).hasErrors = true)) ∧
    (found = all.take limit ↔ ¬ checker.SplitsCall assigned script.walk limit) ∧
    ∀ before c after, script.walk = before ++ .expr (.call c) :: after →
      (checker.diagnosticsOf assigned before).length < limit →
      limit < (checker.diagnosticsOf assigned before).length + (checker.callErrors c).length →
      found = checker.diagnosticsOf assigned before ++
          (checker.callErrors c).map (·.diagnostic) ∧
        ∀ error ∈ checker.callErrors c, error.fault.code = "E202" := by
  intro all assigned found
  have eq : found = checker.diagnosticsOf assigned
      (checker.lookedAt assigned limit script.walk) := check_eq checker script limit
  have split : ∀ before c after, script.walk = before ++ .expr (.call c) :: after →
      (checker.diagnosticsOf assigned before).length < limit →
      limit < (checker.diagnosticsOf assigned before).length + (checker.callErrors c).length →
      found = checker.diagnosticsOf assigned before ++
        (checker.callErrors c).map (·.diagnostic) := by
    intro before c after walk reached exceeded
    have last : limit ≤ (checker.diagnosticsOf assigned before).length +
        (checker.nodeDiagnostics assigned (.expr (.call c))).length := by
      rw [length_nodeDiagnostics_call]
      exact Nat.le_of_lt exceeded
    rw [eq, walk, lookedAt_of_split reached last, diagnosticsOf_append]
    exact congrArg _ (List.append_nil _)
  refine ⟨fun unlimited few => ⟨check_unlimited few, ?_⟩, ⟨?_, fun whole => ?_⟩, ?_⟩
  · rw [check_hasErrors_iff, check_hasErrors_iff, check_unlimited few]
    exact not_congr (check_eq_nil_iff (Int.ofNat_lt.2 positive))
  · rintro exact ⟨before, c, after, walk, reached, exceeded⟩
    have longer := congrArg List.length
      (exact.symm.trans (split before c after walk reached exceeded))
    rw [List.length_append, List.length_map] at longer
    have atMost := List.length_take_le limit all
    omega
  · exact eq.trans (lookedAt_eq_take whole)
  · intro before c after walk reached exceeded
    refine ⟨split before c after walk reached exceeded, fun error member => ?_⟩
    have several : 1 < (checker.nodeDiagnostics assigned (.expr (.call c))).length := by
      rw [length_nodeDiagnostics_call]
      omega
    obtain ⟨_, -, codes⟩ := call_of_several several
    exact codes _ (List.mem_map_of_mem member)

/-- A checker for scripts that add numbers. -/
def forSums : Checker where
  catalog := ⟨[{ name := "Add", params := [⟨"left", .number, none⟩, ⟨"right", .number, none⟩] }]⟩

/-- A script that adds texts, and then a text to a number. -/
def sumsOfTexts : Block :=
  let text : Expr := .literal default (.string "one")
  let number : Expr := .literal default (.number (.int 1))
  .mk default [.call (.mk default "Add" [text, text] []),
    .call (.mk default "Add" [text, number] [])]

/-- A limit of two falls between the calls of this script. -/
theorem sumsOfTexts_second_limit :
    1 ≤ 2 ∧ (forSums.findings sumsOfTexts).length = 3 ∧
      (forSums.check sumsOfTexts (2 : Nat)).diagnostics.toList =
        (forSums.findings sumsOfTexts).take 2 ∧
      ¬ forSums.SplitsCall (forSums.assignedKeys sumsOfTexts.walk) sumsOfTexts.walk 2 := by
  have found : (forSums.check sumsOfTexts (2 : Nat)).diagnostics.toList =
      (forSums.findings sumsOfTexts).take 2 := by decide +kernel
  have exact := limited_check_exact forSums sumsOfTexts (show 1 ≤ 2 by decide)
  exact ⟨by decide, by decide +kernel, found, exact.2.1.1 found⟩

/-- A limit of one falls among the errors of the first call, and two errors are found. -/
theorem sumsOfTexts_first_limit :
    (forSums.check sumsOfTexts (1 : Nat)).diagnostics.toList.length = 2 ∧
      (forSums.check sumsOfTexts (3 : Nat)).diagnostics.toList = forSums.findings sumsOfTexts ∧
      (forSums.check sumsOfTexts (1 : Nat)).diagnostics.toList ≠
        (forSums.findings sumsOfTexts).take 1 := by
  decide +kernel

end Checker

end InstallScript
