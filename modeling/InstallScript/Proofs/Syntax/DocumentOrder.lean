import InstallScript.Check
import InstallScript.Proofs.Syntax.Delimited

/-!
The order of a walk through a tree that is read from a text. A walk comes to every place of the tree
once, to a node before what is below it, and goes through neighbours as they stand in the text, but
for one exception: the step of a counted loop stands before the body and is visited behind it
(`Block.walked_in_order`). So whatever is checked in the body of a loop is reported before what is
checked in its step.
-/

namespace InstallScript

namespace Node

/-- A call or a variable that is read. Only these are checked. -/
def isSite : Node → Bool
  | .expr (.call _) => true
  | .expr (.var _ _) => true
  | _ => false

/-- The first token within a node. -/
def firstToken? (tokens : List Token) (n : Node) : Option Token :=
  tokens.find? fun t =>
    t.kind ≠ .endOfInput ∧ n.left ≤ t.span.start.offset ∧ t.span.stop.offset ≤ n.right

/-- A counted loop. Its body is child 2, and its step child 3. -/
def isCounted : Node → Bool
  | .stmt (.forLoop _ _ _ _ _ _) => true
  | _ => false

/-- Two places in the body and in the step of the same counted loop. -/
inductive BodyThenStep : Node → List Nat → List Nat → Prop
  | here {n : Node} {p q : List Nat} (loop : n.isCounted = true) :
    BodyThenStep n (2 :: p) (3 :: q)
  | deeper {n c : Node} {i : Nat} {p q : List Nat} (child : n.children[i]? = some c)
    (inChild : BodyThenStep c p q) : BodyThenStep n (i :: p) (i :: q)

/-- The offsets of what stands at two places are in order, but for the body and the step of a
loop. -/
def InOrderAt (root : Node) (p q : List Nat) (a b : Nat) : Prop :=
  (root.BodyThenStep p q → b < a) ∧ (¬ root.BodyThenStep p q → a < b)

/-- The order in which a walk comes to the nodes of a tree with given tokens. -/
structure WalkedInOrder (tokens : List Token) (root : Node) : Prop where
  /-- The places are those of the nodes of the walk. -/
  visited : root.places.map root.at? = root.walk.map some
  complete : ∀ place, place ∈ root.places ↔ (root.at? place).isSome
  once : root.places.Nodup
  /-- A node comes before what is below it. -/
  parentsFirst : root.places.Pairwise fun p q => ¬ q <+: p
  /-- Of nodes with tokens that are not below one another, the one whose first token comes first
  comes first. -/
  apart : root.places.Pairwise fun p q => ¬ p <+: q → ∀ n m t u,
    root.at? p = some n → root.at? q = some m →
    n.firstToken? tokens = some t → m.firstToken? tokens = some u →
    root.InOrderAt p q t.span.start.offset u.span.start.offset
  /-- Calls and variables come as they begin, those below a call included. -/
  sites : root.places.Pairwise fun p q => ∀ n m, root.at? p = some n → root.at? q = some m →
    n.isSite = true → m.isSite = true → root.InOrderAt p q n.left m.left
  /-- A node that is not turned around begins with its first token. -/
  firstTokens : ∀ n ∈ root.walk, n.left < n.right →
    ∃ t, n.firstToken? tokens = some t ∧ t.span.start = n.span.start

/-! ## Places that are not below one another -/

theorem bodyThenStep_cons {n c : Node} {i : Nat} {p q : List Nat}
    (child : n.children[i]? = some c) :
    n.BodyThenStep (i :: p) (i :: q) ↔ c.BodyThenStep p q := by
  constructor
  · intro both
    cases both with
    | deeper child' inChild =>
      cases child.symm.trans child'
      exact inChild
  · exact .deeper child

theorem bodyThenStep_of_ne {n : Node} {i j : Nat} {p q : List Nat} (ne : i ≠ j) :
    n.BodyThenStep (i :: p) (j :: q) ↔ n.isCounted = true ∧ i = 2 ∧ j = 3 := by
  constructor
  · intro both
    cases both with
    | here loop => exact ⟨loop, rfl, rfl⟩
    | deeper => exact absurd rfl ne
  · rintro ⟨loop, rfl, rfl⟩
    exact .here loop

/-- Places in the body and in the step of a loop are not below one another. -/
theorem BodyThenStep.not_below {n : Node} {p q : List Nat} (both : n.BodyThenStep p q) :
    ¬ p <+: q := by
  induction both with
  | here loop => simp
  | deeper child inChild ih => simpa using ih

theorem rel_of_pairwise {α : Type} {R : α → α → Prop} {as : List α} {a b : α} {i j : Nat}
    (pairwise : as.Pairwise R) (less : i < j) (first : as[i]? = some a)
    (second : as[j]? = some b) : R a b := by
  obtain ⟨_, rfl⟩ := List.getElem?_eq_some_iff.1 first
  obtain ⟨_, rfl⟩ := List.getElem?_eq_some_iff.1 second
  exact List.pairwise_iff_getElem.1 pairwise i j _ _ less

/-- The children of a node lie one behind another, but for the step of a loop, which lies before the
body. -/
theorem Delimits.children {ts : List Item} {n c d : Node} {i j : Nat} (delimits : n.Delimits ts)
    (less : i < j) (first : n.children[i]? = some c) (second : n.children[j]? = some d) :
    if n.isCounted = true ∧ i = 2 ∧ j = 3 then d.right ≤ c.left else c.right ≤ d.left := by
  have some : n.parts ≠ [] := by
    intro none
    have empty := n.parts_perm
    rw [none, List.nil_perm] at empty
    rw [empty] at first
    cases first
  have apart := (delimits.row some).apart
  unfold parts at apart
  split at apart
  · rename_i span counter start stop step body
    cases step with
    | none =>
      rw [if_neg]
      · exact rel_of_pairwise (R := fun n m => n.right ≤ m.left) apart less first second
      · rintro ⟨-, -, rfl⟩
        cases second
    | some step =>
      obtain ⟨bound, -⟩ := List.getElem?_eq_some_iff.1 second
      have small : j < 4 := by simpa [Node.children] using bound
      simp only [Option.toList_some, List.map_cons, List.map_nil, List.cons_append, List.nil_append,
        List.pairwise_cons, List.mem_cons, forall_eq_or_imp] at apart
      have pairs : (i = 0 ∧ (j = 1 ∨ j = 2 ∨ j = 3)) ∨ (i = 1 ∧ (j = 2 ∨ j = 3)) ∨
          (i = 2 ∧ j = 3) := by omega
      rcases pairs with ⟨rfl, rfl | rfl | rfl⟩ | ⟨rfl, rfl | rfl⟩ | ⟨rfl, rfl⟩ <;>
        cases first <;> cases second <;> simp [isCounted, apart]
  · rename_i notLoop
    have other : n.isCounted = false := by
      unfold isCounted
      split
      · exact absurd rfl (notLoop _ _ _ _ _ _)
      · rfl
    rw [other, if_neg (by simp)]
    exact rel_of_pairwise (R := fun n m => n.right ≤ m.left) apart less first second

section

variable {ts : List Item} {n m c : Node} {p q : List Nat} {i : Nat}

theorem delimits_child (all : ∀ m ∈ n.walk, m.Delimits ts) (child : n.children[i]? = some c) :
    ∀ m ∈ c.walk, m.Delimits ts :=
  fun m below => all m (mem_walk_of_child (List.mem_of_getElem? child) below)

/-- A child lies in its node, and a call begins before its arguments. -/
theorem Delimits.child (delimits : n.Delimits ts) (child : c ∈ n.children) :
    c.Lies n.hasBody ts n.left ∧ c.right ≤ n.right ∧
      ∀ f, n = .expr (.call f) → n.left < c.left := by
  have part := n.parts_perm.mem_iff.2 child
  obtain ⟨lies, bound⟩ := (delimits.row (List.ne_nil_of_mem part)).lies c part
  exact ⟨lies, bound, fun f isCall => delimits.call f isCall c part⟩

/-- What is below a node lies in it. -/
theorem bounds_of_at? (all : ∀ m ∈ n.walk, m.Delimits ts) (found : n.at? p = some m) :
    n.left ≤ m.left ∧ m.right ≤ n.right := by
  induction p generalizing n with
  | nil =>
    cases found
    exact ⟨Nat.le_refl _, Nat.le_refl _⟩
  | cons i p ih =>
    obtain ⟨c, child, inChild⟩ := Option.bind_eq_some_iff.1 found
    obtain ⟨left, right⟩ := ih (delimits_child all child) inChild
    obtain ⟨lies, bound, -⟩ := (all n n.self_mem_walk).child (List.mem_of_getElem? child)
    exact ⟨Nat.le_trans lies.behind.1 left, Nat.le_trans right bound⟩

/-- What is below a call or a variable begins behind it. -/
theorem left_lt_of_site (all : ∀ m ∈ n.walk, m.Delimits ts) (site : n.isSite = true)
    (found : n.at? (i :: p) = some m) : n.left < m.left := by
  obtain ⟨c, child, inChild⟩ := Option.bind_eq_some_iff.1 found
  have below := bounds_of_at? (delimits_child all child) inChild
  obtain ⟨-, -, strict⟩ := (all n n.self_mem_walk).child (List.mem_of_getElem? child)
  unfold isSite at site
  split at site
  · exact Nat.lt_of_lt_of_le (strict _ rfl) below.1
  · cases child
  · cases site

/-- Of two places that are not below one another, the earlier one lies in front of the other, but
for the body and the step of a loop. -/
theorem apart_of_lex (all : ∀ m ∈ n.walk, m.Delimits ts) (earlier : List.Lex (· < ·) p q)
    (other : ¬ p <+: q) {a b : Node} (first : n.at? p = some a) (second : n.at? q = some b) :
    (n.BodyThenStep p q → b.right ≤ a.left) ∧ (¬ n.BodyThenStep p q → a.right ≤ b.left) := by
  induction earlier generalizing n with
  | nil => exact absurd List.nil_prefix other
  | @cons i p q _ ih =>
    obtain ⟨c, child, inChild⟩ := Option.bind_eq_some_iff.1 first
    rw [at?_cons child] at second
    rw [bodyThenStep_cons child]
    exact ih (delimits_child all child) (by simpa using other) inChild second
  | @rel i p j q less =>
    obtain ⟨c, child, inChild⟩ := Option.bind_eq_some_iff.1 first
    obtain ⟨d, child', inChild'⟩ := Option.bind_eq_some_iff.1 second
    have bounds := bounds_of_at? (delimits_child all child) inChild
    have bounds' := bounds_of_at? (delimits_child all child') inChild'
    have order := (all n n.self_mem_walk).children less child child'
    rw [bodyThenStep_of_ne (Nat.ne_of_lt less)]
    split at order
    · rename_i inLoop
      exact ⟨fun _ => by omega, fun notLoop => absurd inLoop notLoop⟩
    · rename_i notLoop
      exact ⟨fun inLoop => absurd inLoop notLoop, fun _ => by omega⟩

end

/-! ## First tokens -/

theorem firstToken?_bounds {tokens : List Token} {n : Node} {t : Token}
    (first : n.firstToken? tokens = some t) :
    t ∈ tokens ∧ t.kind ≠ .endOfInput ∧ n.left ≤ t.span.start.offset ∧
      t.span.stop.offset ≤ n.right := by
  have holds := List.find?_some first
  simp only [decide_eq_true_eq] at holds
  exact ⟨List.mem_of_find?_eq_some first, holds⟩

/-- A token within a node that begins where the node does is its first one. -/
theorem firstToken?_of_start {tokens : List Token}
    (ordered : tokens.Pairwise fun t u => t.span.start.offset < u.span.start.offset) {n : Node}
    {t : Token} (member : t ∈ tokens) (notEnd : t.kind ≠ .endOfInput)
    (start : n.span.start = t.span.start) (stop : t.span.stop.offset ≤ n.right) :
    n.firstToken? tokens = some t := by
  have atStart : n.left = t.span.start.offset := congrArg Location.offset start
  obtain ⟨front, back, rfl⟩ := List.append_of_mem member
  rw [firstToken?, List.find?_eq_some_iff_append]
  refine ⟨by simp [notEnd, atStart, stop], front, back, rfl, fun u inFront => ?_⟩
  have before := (List.pairwise_append.1 ordered).2.2 u inFront t List.mem_cons_self
  simp only [Bool.not_eq_true', decide_eq_false_iff_not]
  exact fun within => by omega

end Node

/-! ## The nodes that are checked -/

namespace Checker

variable {checker : Checker} {assigned : List String}

theorem nodeErrors_of_not_site {n : Node} (other : n.isSite = false) :
    checker.nodeErrors assigned n = [] := by
  unfold nodeErrors
  split
  · cases other
  · cases other
  · rfl

/-- Nothing is looked at but calls and variables. -/
theorem collect_sites (nodes : List Node) (found : Collector) :
    checker.collect assigned (nodes.filter Node.isSite) found =
      checker.collect assigned nodes found := by
  induction nodes generalizing found with
  | nil => rfl
  | cons n nodes ih =>
    cases site : n.isSite with
    | true =>
      rw [List.filter_cons_of_pos site, collect, collect]
      split
      · rfl
      · exact ih _
    | false =>
      rw [List.filter_cons_of_neg (by simp [site]), ih, collect, nodeErrors_of_not_site site]
      split
      · rename_i stop
        cases nodes with
        | nil => rfl
        | cons m nodes => rw [collect, if_pos stop]
      · rfl

end Checker

/-! ## Scripts -/

/-- Places in the lexicographic order come before those below them. -/
theorem not_prefix_of_lex {p q : List Nat} (earlier : List.Lex (· < ·) p q) : ¬ q <+: p := by
  induction earlier with
  | nil => simp
  | cons _ ih => simpa using ih
  | rel less =>
    intro inside
    exact absurd (List.cons_prefix_cons.1 inside).1 (Nat.ne_of_gt less)

namespace Block

variable {g : Grammar} {source : Source} {script : Block}

/-- A node that takes up room begins with its first token. -/
theorem firstToken_of_room (words : g.WordsOnly) (dropped : g.retainComments = false)
    (parsed : Block.ofSource g source = .ok script) {n : Node} (member : n ∈ script.walk)
    (room : n.left < n.right) : ∃ t, n.firstToken? (TokenStream.ofSource g source).tokens = some t ∧
      t.span.start = n.span.start := by
  have tiles := (TokenStream.ofSource_laid words source).tiles_text
  obtain ⟨first, inTokens, last, inTokens', start, stop⟩ :=
    tokens_of_room words dropped parsed member room
  have left : n.left = first.span.start.offset := congrArg Location.offset start
  have right : n.right = last.span.stop.offset := congrArg Location.offset stop
  have inside := (tiles.places last inTokens').2.inside
  have notEnd : first.kind ≠ .endOfInput := fun isEnd => by
    have := (tiles.of_end inTokens isEnd).1
    omega
  refine ⟨first, Node.firstToken?_of_start (tiles.ordered.imp And.left) inTokens notEnd start ?_,
    start.symm⟩
  by_contra beyond
  have ended : last.span.start.offset ≤ last.span.stop.offset := by
    by_cases isEnd : last.kind = .endOfInput
    · have := tiles.of_end inTokens' isEnd
      omega
    · exact Nat.le_of_lt (tiles.room inTokens' isEnd)
  have same := eq_of_neither tiles.ordered inTokens inTokens' (by omega) (by omega)
  rw [same] at beyond
  exact beyond (Nat.le_of_eq right.symm)

/-- Calls and variables take up room. -/
theorem site_room (words : g.WordsOnly) (dropped : g.retainComments = false)
    (parsed : Block.ofSource g source = .ok script) {n : Node} (member : n ∈ script.walk)
    (site : n.isSite = true) : n.left < n.right := by
  have proper : n.isEmpty = false := by
    unfold Node.isSite at site
    split at site
    · rfl
    · rfl
    · cases site
  rcases Node.eq_or_child_of_mem_walk (n := .block script) member with rfl | ⟨parent, above, child⟩
  · cases site
  · obtain ⟨lies, -⟩ := (delimits words dropped parsed parent above).child child
    exact (lies.tokens proper).2.1

/-- A walk through the tree of a text without comments comes to each node once, to a node before
what is below it, and to neighbours as they stand in the text, except that it comes to the step of a
counted loop behind the body. So calls and variables are checked in the order in which they stand in
the text, with the same exception. -/
theorem walked_in_order (g : Grammar) (words : g.WordsOnly) (dropped : g.retainComments = false)
    (source : Source) (script : Block) (parsed : Block.ofSource g source = .ok script) :
    (Node.block script).WalkedInOrder (TokenStream.ofSource g source).tokens ∧
      ∀ (checker : Checker) (maxErrors : Int), checker.check script maxErrors =
        checker.collect (checker.assignedKeys script.walk) (script.walk.filter Node.isSite)
          { maxErrors } := by
  have all := delimits words dropped parsed
  have tiles := (TokenStream.ofSource_laid words source).tiles_text
  have below {place : List Nat} {n : Node} (found : (Node.block script).at? place = some n) :
      ∀ m ∈ n.walk, m ∈ script.walk := Node.walk_subset_of_at? found
  have room {place : List Nat} {n : Node} (found : (Node.block script).at? place = some n)
      (site : n.isSite = true) : n.left < n.right :=
    site_room words dropped parsed (below found n n.self_mem_walk) site
  refine ⟨⟨Node.map_at?_places _, fun _ => Node.mem_places, ?_, ?_, ?_, ?_, ?_⟩, ?_⟩
  · refine (Node.places_ordered _).imp fun earlier same => ?_
    rw [same] at earlier
    exact not_prefix_of_lex earlier (List.prefix_refl _)
  · exact (Node.places_ordered _).imp not_prefix_of_lex
  · refine (Node.places_ordered _).imp fun {p q} earlier other n m t u atP atQ first first' => ?_
    obtain ⟨bodyStep, text⟩ := Node.apart_of_lex (n := .block script) all earlier other atP atQ
    obtain ⟨inTokens, notEnd, left, right⟩ := Node.firstToken?_bounds first
    obtain ⟨inTokens', notEnd', left', right'⟩ := Node.firstToken?_bounds first'
    have taken := tiles.room inTokens notEnd
    have taken' := tiles.room inTokens' notEnd'
    exact ⟨fun both => by have := bodyStep both; omega, fun other => by have := text other; omega⟩
  · refine (Node.places_ordered _).imp fun {p q} earlier n m atP atQ site site' => ?_
    have own := room atP site
    have own' := room atQ site'
    by_cases inside : p <+: q
    · obtain ⟨place, rfl⟩ := inside
      refine ⟨fun both => absurd (List.prefix_append _ _) both.not_below, fun _ => ?_⟩
      rw [Node.at?_append, atP, Option.bind_some] at atQ
      cases place with
      | nil => exact absurd (by simp) (not_prefix_of_lex earlier)
      | cons i place =>
        exact Node.left_lt_of_site (fun m inside => all m (below atP m inside)) site atQ
    · obtain ⟨bodyStep, text⟩ := Node.apart_of_lex (n := .block script) all earlier inside atP atQ
      exact ⟨fun both => by have := bodyStep both; omega, fun other => by have := text other; omega⟩
  · exact fun n member room => firstToken_of_room words dropped parsed member room
  · intro checker maxErrors
    rw [Checker.collect_sites]
    rfl

/-- A counted loop that reads a variable in its step and one in its body. -/
def stepBeforeBody : List Char := "for i = 1 to 2 step s do x = y endfor".toList

/-- The one in the body is visited first, although it stands behind the other. -/
theorem stepBeforeBody_reversed :
    ((Block.ofSource Grammar.second ⟨stepBeforeBody, none⟩).map fun script =>
      (script.walk.filter Node.isSite).map fun n =>
        (n.firstToken? (TokenStream.ofSource Grammar.second ⟨stepBeforeBody, none⟩).tokens).map
          fun t => (t.lexeme, t.span.start.offset)).toOption =
      some [some ("y", 29), some ("s", 20)] := by
  decide +kernel

/-- A walk through this script comes to its nodes in order but for that. -/
theorem stepBeforeBody_walked : Grammar.second.WordsOnly ∧ Grammar.second.retainComments = false ∧
    ∃ script, Block.ofSource Grammar.second ⟨stepBeforeBody, none⟩ = .ok script ∧
      (Node.block script).WalkedInOrder
        (TokenStream.ofSource Grammar.second ⟨stepBeforeBody, none⟩).tokens ∧
      ∀ (checker : Checker) (maxErrors : Int), checker.check script maxErrors =
        checker.collect (checker.assignedKeys script.walk) (script.walk.filter Node.isSite)
          { maxErrors } := by
  have words : Grammar.second.WordsOnly := Grammar.Standard.wordsOnly (.inr rfl)
  have read : (Block.ofSource Grammar.second ⟨stepBeforeBody, none⟩).isOk = true := by
    decide +kernel
  cases parsed : Block.ofSource Grammar.second ⟨stepBeforeBody, none⟩ with
  | error e =>
    rw [parsed] at read
    cases read
  | ok script =>
    exact ⟨words, rfl, script, rfl,
      walked_in_order Grammar.second words rfl ⟨stepBeforeBody, none⟩ script parsed⟩

end Block

end InstallScript
