import InstallScript.Proofs.Syntax.NeededParentheses

/-!
The nodes of a tree by their places. A node is followed in a walk by what is below its children, one
child after another (`Node.walk_eq`). So a place below a node is the list of the numbers of the
children on the way there, and a walk comes to the places in the lexicographic order
(`Node.places_ordered`), to each of them once.
-/

namespace InstallScript

/-! ## Children -/

/-- The node that a statement is. -/
def Node.ofStmt : Stmt → Node
  | .block inner => .block inner
  | s => .stmt s

/-- The nodes directly below a node, in the order in which a walk comes to them. -/
def Node.children : Node → List Node
  | .expr (.literal _ _) => []
  | .expr (.var _ _) => []
  | .expr (.call c) => c.arguments.map .expr ++ c.keywords.map .keyword
  | .expr (.binary _ _ a b) => [.expr a, .expr b]
  | .expr (.unary _ _ a) => [.expr a]
  | .keyword k => [.expr k.value]
  | .stmt (.assign _ _ _ value) => [.expr value]
  | .stmt (.call c) => [.expr (.call c)]
  | .stmt (.choice _ bs otherwise) => bs.map .branch ++ otherwise.toList.map .block
  | .stmt (.whileLoop _ condition body) => [.expr condition, .block body]
  | .stmt (.forLoop _ _ first last step body) =>
    [.expr first, .expr last, .block body] ++ step.toList.map .expr
  | .stmt (.block b) => b.statements.map Node.ofStmt
  | .stmt (.ret _) => []
  | .stmt (.comment _ _) => []
  | .branch b => [.expr b.condition, .block b.body]
  | .block b => b.statements.map Node.ofStmt

/-- The nodes from a node on. -/
def Node.walk : Node → List Node
  | .expr e => e.walk
  | .keyword k => walkKeywords [k]
  | .stmt (.block b) => .stmt (.block b) :: walkStmts b.statements
  | .stmt s => s.walk
  | .branch b => walkBranches [b]
  | .block b => b.walk

namespace Node

theorem walkExprs_eq (es : List Expr) : walkExprs es = (es.map Node.expr).flatMap walk := by
  induction es with
  | nil => rfl
  | cons e es ih => rw [walkExprs, ih, List.map_cons, List.flatMap_cons, walk]

theorem walkKeywords_eq (ks : List KeywordArgument) :
    walkKeywords ks = (ks.map Node.keyword).flatMap walk := by
  induction ks with
  | nil => rfl
  | cons k ks ih => rw [walkKeywords_cons, ih, List.map_cons, List.flatMap_cons, walk]

theorem walk_ofStmt (s : Stmt) : (ofStmt s).walk = s.walk := by
  cases s <;> rfl

theorem walkStmts_eq (ss : List Stmt) : walkStmts ss = (ss.map ofStmt).flatMap walk := by
  induction ss with
  | nil => rfl
  | cons s ss ih => rw [walkStmts, ih, List.map_cons, List.flatMap_cons, walk_ofStmt]

theorem walkBranches_eq (bs : List Branch) :
    walkBranches bs = (bs.map Node.branch).flatMap walk := by
  induction bs with
  | nil => rfl
  | cons b bs ih => rw [walkBranches_cons, ih, List.map_cons, List.flatMap_cons, walk]

/-- A walk comes to a node and then to what is below its children, one after another. -/
theorem walk_eq (n : Node) : n.walk = n :: n.children.flatMap walk := by
  cases n with
  | expr e =>
    cases e with
    | call c =>
      obtain ⟨span, name, arguments, keywords⟩ := c
      rw [walk, Expr.walk, Call.walkArguments, walkExprs_eq, walkKeywords_eq, ← List.flatMap_append]
      rfl
    | _ => simp [walk, children, Expr.walk]
  | keyword k =>
    obtain ⟨span, name, value⟩ := k
    simp [walk, children, walkKeywords, KeywordArgument.value]
  | stmt s =>
    cases s with
    | choice span bs otherwise =>
      rw [walk, Stmt.walk_choice, walkBranches_eq, children, List.flatMap_append]
      · cases otherwise <;> simp [walk]
      · nofun
    | forLoop span counter first last step body =>
      rw [walk, Stmt.walk_forLoop, children]
      · cases step <;> simp [walk]
      · nofun
    | block b => rw [walk, walkStmts_eq, children]
    | _ => simp [walk, children, Stmt.walk]
  | branch b =>
    obtain ⟨span, condition, body⟩ := b
    simp [walk, children, walkBranches, Branch.condition, Branch.body]
  | block b =>
    obtain ⟨span, ss⟩ := b
    rw [walk, Block.walk, walkStmts_eq, children, Block.statements]

theorem self_mem_walk (n : Node) : n ∈ n.walk := by
  rw [walk_eq]
  exact List.mem_cons_self

theorem mem_walk_of_child {n c m : Node} (child : c ∈ n.children) (below : m ∈ c.walk) :
    m ∈ n.walk := by
  rw [walk_eq]
  exact List.mem_cons_of_mem _ (List.mem_flatMap.2 ⟨c, child, below⟩)

theorem length_walk_of_child {n c : Node} (child : c ∈ n.children) :
    c.walk.length < n.walk.length := by
  rw [walk_eq n, List.length_cons, Nat.lt_succ_iff]
  exact (List.sublist_flatten_of_mem (List.mem_map_of_mem child)).length_le

/-- What holds of a node if it holds of its children holds of all nodes. -/
theorem induction_on_children {P : Node → Prop} (step : ∀ n, (∀ c ∈ n.children, P c) → P n)
    (n : Node) : P n := by
  induction size : n.walk.length using Nat.strong_induction_on generalizing n with
  | _ size ih =>
    subst size
    exact step n fun c child => ih _ (length_walk_of_child child) c rfl

/-- Every node of a walk but the first is a child of another one. -/
theorem eq_or_child_of_mem_walk {n m : Node} (member : m ∈ n.walk) :
    m = n ∨ ∃ parent ∈ n.walk, m ∈ parent.children := by
  induction n using induction_on_children with
  | step n ih =>
    rw [walk_eq, List.mem_cons, List.mem_flatMap] at member
    rcases member with rfl | ⟨c, child, below⟩
    · exact .inl rfl
    · refine .inr ?_
      rcases ih c child below with rfl | ⟨parent, inChild, childOf⟩
      · exact ⟨n, n.self_mem_walk, child⟩
      · exact ⟨parent, mem_walk_of_child child inChild, childOf⟩

/-! ## Places -/

/-- The node at a place below a node: the numbers of the children on the way there. -/
def at? (n : Node) : List Nat → Option Node
  | [] => some n
  | i :: place => n.children[i]?.bind (at? · place)

mutual

/-- The places below a node, in the order in which a walk comes to them. -/
def places (n : Node) : List (List Nat) := [] :: placesFrom 0 n.children
termination_by (n.walk.length, 0)
decreasing_by
  rw [walk_eq]
  exact Prod.Lex.left _ _ (Nat.lt_succ_self _)

/-- The places below neighbours, which are numbered from a number on. -/
def placesFrom (i : Nat) : List Node → List (List Nat)
  | [] => []
  | c :: cs => c.places.map (i :: ·) ++ placesFrom (i + 1) cs
termination_by cs => ((cs.flatMap walk).length, cs.length + 1)
decreasing_by
  · rw [List.flatMap_cons, List.length_append]
    rcases Nat.eq_zero_or_pos (cs.flatMap walk).length with none | some
    · rw [none]
      exact Prod.Lex.right _ (Nat.succ_pos _)
    · exact Prod.Lex.left _ _ (Nat.lt_add_of_pos_right some)
  · rw [List.flatMap_cons, List.length_append, walk_eq c]
    exact Prod.Lex.left _ _ (by simp)

end

theorem at?_cons {n c : Node} {i : Nat} (child : n.children[i]? = some c) (place : List Nat) :
    n.at? (i :: place) = c.at? place := by
  rw [at?, child, Option.bind_some]

theorem at?_append (n : Node) (place below : List Nat) :
    n.at? (place ++ below) = (n.at? place).bind (at? · below) := by
  induction place generalizing n with
  | nil => rfl
  | cons i place ih =>
    rw [List.cons_append, at?, at?]
    cases n.children[i]? with
    | none => rfl
    | some c => exact ih c

/-- A walk from a node comes to what is below its places. -/
theorem walk_subset_of_at? {n m : Node} {place : List Nat} (found : n.at? place = some m) :
    m.walk ⊆ n.walk := by
  induction place generalizing n with
  | nil =>
    cases found
    exact List.Subset.refl _
  | cons i place ih =>
    obtain ⟨c, child, inChild⟩ := Option.bind_eq_some_iff.1 found
    exact fun k below => mem_walk_of_child (List.mem_of_getElem? child) (ih inChild below)

/-- At the places of a node stand the nodes of a walk. -/
theorem map_at?_places (n : Node) : n.places.map n.at? = n.walk.map some := by
  induction n using induction_on_children with
  | step n ih =>
    have behind (front cs : List Node) (split : n.children = front ++ cs) :
        (placesFrom front.length cs).map n.at? = (cs.flatMap walk).map some := by
      induction cs generalizing front with
      | nil => rw [placesFrom, List.flatMap_nil, List.map_nil, List.map_nil]
      | cons c cs more =>
        have child : n.children[front.length]? = some c := by simp [split]
        have inChild : (n.at? ∘ fun place => front.length :: place) = c.at? :=
          funext (at?_cons child)
        have others := more (front ++ [c]) (by simp [split])
        rw [List.length_append, List.length_singleton] at others
        rw [placesFrom, List.map_append, List.map_map, inChild, ih c (by simp [split]), others,
          List.flatMap_cons, List.map_append]
    rw [places, walk_eq, List.map_cons, List.map_cons, ← behind [] n.children rfl]
    rfl

/-- The places of a node are those at which a node stands. -/
theorem mem_places {n : Node} {place : List Nat} : place ∈ n.places ↔ (n.at? place).isSome := by
  induction n using induction_on_children generalizing place with
  | step n ih =>
    have behind (front cs : List Node) (split : n.children = front ++ cs) (i : Nat)
        (below : List Nat) : i :: below ∈ placesFrom front.length cs ↔
          front.length ≤ i ∧ (n.at? (i :: below)).isSome := by
      induction cs generalizing front with
      | nil =>
        rw [placesFrom, at?, split, List.append_nil]
        constructor
        · exact fun absurd => nomatch absurd
        · rintro ⟨far, found⟩
          rw [List.getElem?_eq_none far] at found
          cases found
      | cons c cs more =>
        have child : n.children[front.length]? = some c := by simp [split]
        have others := more (front ++ [c]) (by simp [split])
        rw [List.length_append, List.length_singleton] at others
        rw [placesFrom, List.mem_append, others, List.mem_map]
        constructor
        · rintro (⟨_, member, same⟩ | ⟨far, found⟩)
          · cases same
            refine ⟨Nat.le_refl _, ?_⟩
            rw [at?_cons child]
            exact (ih c (by simp [split])).1 member
          · exact ⟨Nat.le_of_succ_le far, found⟩
        · rintro ⟨far, found⟩
          rcases Nat.eq_or_lt_of_le far with rfl | farther
          · rw [at?_cons child] at found
            exact .inl ⟨below, (ih c (by simp [split])).2 found, rfl⟩
          · exact .inr ⟨farther, found⟩
    rw [places]
    cases place with
    | nil => simp [at?]
    | cons i below => simpa using behind [] n.children rfl i below

/-- A walk comes to the places in the lexicographic order. -/
theorem places_ordered (n : Node) : n.places.Pairwise (List.Lex (· < ·)) := by
  induction n using induction_on_children with
  | step n ih =>
    have behind (i : Nat) (cs : List Node) (inside : ∀ c ∈ cs, c ∈ n.children) :
        (placesFrom i cs).Pairwise (List.Lex (· < ·)) ∧
          ∀ place ∈ placesFrom i cs, ∃ j below, place = j :: below ∧ i ≤ j := by
      induction cs generalizing i with
      | nil =>
        rw [placesFrom]
        exact ⟨.nil, List.forall_mem_nil _⟩
      | cons c cs more =>
        obtain ⟨first, others⟩ := List.forall_mem_cons.1 inside
        obtain ⟨ordered, far⟩ := more (i + 1) others
        rw [placesFrom]
        refine ⟨List.pairwise_append.2 ⟨?_, ordered, ?_⟩, List.forall_mem_append.2 ⟨?_, ?_⟩⟩
        · rw [List.pairwise_map]
          exact (ih c first).imp .cons
        · intro place member other member'
          obtain ⟨below, -, rfl⟩ := List.mem_map.1 member
          obtain ⟨j, below', rfl, farther⟩ := far other member'
          exact .rel farther
        · intro place member
          obtain ⟨below, -, rfl⟩ := List.mem_map.1 member
          exact ⟨i, below, rfl, Nat.le_refl i⟩
        · intro place member
          obtain ⟨j, below, rfl, farther⟩ := far place member
          exact ⟨j, below, rfl, Nat.le_of_succ_le farther⟩
    obtain ⟨ordered, far⟩ := behind 0 n.children fun _ child => child
    rw [places]
    refine List.pairwise_cons.2 ⟨fun place member => ?_, ordered⟩
    obtain ⟨j, below, rfl, -⟩ := far place member
    exact .nil

end Node

end InstallScript
