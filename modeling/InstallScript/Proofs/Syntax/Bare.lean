import InstallScript.Proofs.Syntax.WrittenScript

/-!
Trees without their stretches. Trees that are equal once the stretches are taken away are printed
alike (`Block.format_congr`), and stand for the same program if they can be written at all
(`Block.same_of_bare`).
-/

namespace InstallScript

/-! ## Expressions -/

mutual

/-- An expression without its stretches. -/
def Expr.bare : Expr → Expr
  | .literal _ value => .literal default value
  | .var _ name => .var default name
  | .call c => .call c.bare
  | .binary _ o a b => .binary default o a.bare b.bare
  | .unary _ o e => .unary default o e.bare

/-- A call without its stretches. -/
def Call.bare : Call → Call
  | .mk _ name arguments keywords => .mk default name (bareExprs arguments) (bareKeywords keywords)

/-- Expressions without their stretches. -/
def bareExprs : List Expr → List Expr
  | [] => []
  | e :: rest => e.bare :: bareExprs rest

/-- Named arguments without their stretches. -/
def bareKeywords : List KeywordArgument → List KeywordArgument
  | [] => []
  | .mk _ name value :: rest => .mk default name value.bare :: bareKeywords rest

end

@[simp] theorem Expr.bare_tightness (e : Expr) : e.bare.tightness = e.tightness := by
  cases e <;> rfl

mutual

theorem Expr.bare_text : ∀ e : Expr, e.bare.text = e.text
  | .literal _ _ => rfl
  | .var _ _ => rfl
  | .call c => Call.bare_text c
  | .unary _ o e => by
    simp only [Expr.bare, Expr.text, Expr.bare_tightness, Expr.bare_text e]
  | .binary _ o a b => by
    simp only [Expr.bare, Expr.text, Expr.bare_tightness, Expr.bare_text a, Expr.bare_text b]

theorem Call.bare_text : ∀ c : Call, c.bare.text = c.text
  | .mk _ name arguments keywords => by
    simp only [Call.bare, Call.text, bareExprs_texts arguments, bareKeywords_texts keywords]

theorem bareExprs_texts : ∀ es : List Expr, exprTexts (bareExprs es) = exprTexts es
  | [] => rfl
  | e :: es => by simp only [bareExprs, exprTexts, Expr.bare_text e, bareExprs_texts es]

theorem bareKeywords_texts : ∀ ks : List KeywordArgument,
    keywordTexts (bareKeywords ks) = keywordTexts ks
  | [] => rfl
  | .mk _ name value :: ks => by
    simp only [bareKeywords, keywordTexts, Expr.bare_text value, bareKeywords_texts ks]

end

/-! ## Statements -/

mutual

/-- A statement without its stretches. -/
def Stmt.bare : Stmt → Stmt
  | .assign _ mode name value => .assign default mode name value.bare
  | .call c => .call c.bare
  | .choice _ branches none => .choice default (bareBranches branches) none
  | .choice _ branches (some last) => .choice default (bareBranches branches) (some last.bare)
  | .whileLoop _ condition body => .whileLoop default condition.bare body.bare
  | .forLoop _ counter first last step body =>
    .forLoop default counter first.bare last.bare (step.map Expr.bare) body.bare
  | .block body => .block body.bare
  | .ret _ => .ret default
  | .comment _ text => .comment default text

/-- Guarded parts of a choice without their stretches. -/
def bareBranches : List Branch → List Branch
  | [] => []
  | .mk _ condition body :: rest => .mk default condition.bare body.bare :: bareBranches rest

/-- A block without its stretches. -/
def Block.bare : Block → Block
  | .mk _ statements => .mk default (bareStmts statements)

/-- Statements without their stretches. -/
def bareStmts : List Stmt → List Stmt
  | [] => []
  | s :: rest => s.bare :: bareStmts rest

end

@[simp] theorem bareStmts_append (ss ss' : List Stmt) :
    bareStmts (ss ++ ss') = bareStmts ss ++ bareStmts ss' := by
  induction ss with
  | nil => rfl
  | cons s ss ih => rw [List.cons_append, bareStmts, ih, bareStmts, List.cons_append]

section

variable (indent : String)

mutual

theorem Stmt.bare_lines : ∀ (s : Stmt) (depth : Nat),
    s.bare.lines indent depth = s.lines indent depth
  | .assign _ mode name value, depth => by
    simp only [Stmt.bare, Stmt.lines, Expr.bare_text]
  | .call c, depth => by simp only [Stmt.bare, Stmt.lines, Call.bare_text]
  | .choice _ branches none, depth => by
    simp only [Stmt.bare, Stmt.lines, bareBranches_lines branches]
  | .choice _ branches (some last), depth => by
    simp only [Stmt.bare, Stmt.lines, bareBranches_lines branches, Block.bare_lines last]
  | .whileLoop _ condition body, depth => by
    simp only [Stmt.bare, Stmt.lines, Expr.bare_text, Block.bare_lines body]
  | .forLoop _ counter first last step body, depth => by
    cases step <;> simp only [Stmt.bare, Stmt.lines, Expr.bare_text, Block.bare_lines body,
      Option.map_none, Option.map_some]
  | .block body, depth => by simp only [Stmt.bare, Stmt.lines, Block.bare_lines body]
  | .ret _, _ => rfl
  | .comment _ _, _ => rfl

theorem bareBranches_lines : ∀ (bs : List Branch) (depth : Nat) (isFirst : Bool),
    branchLines indent depth isFirst (bareBranches bs) = branchLines indent depth isFirst bs
  | [], _, _ => rfl
  | .mk _ condition body :: bs, depth, isFirst => by
    simp only [bareBranches, branchLines, Expr.bare_text, Block.bare_lines body,
      bareBranches_lines bs]

theorem Block.bare_lines : ∀ (b : Block) (depth : Nat),
    b.bare.lines indent depth = b.lines indent depth
  | .mk _ statements, depth => bareStmts_lines statements depth

theorem bareStmts_lines : ∀ (ss : List Stmt) (depth : Nat),
    stmtLines indent depth (bareStmts ss) = stmtLines indent depth ss
  | [], _ => rfl
  | s :: ss, depth => by
    simp only [bareStmts, stmtLines, Stmt.bare_lines s, bareStmts_lines ss]

end

end

/-- Trees that are equal without their stretches are printed alike. -/
theorem Block.format_congr {b b' : Block} (eq : b'.bare = b.bare) (indent : String) :
    b'.format indent = b.format indent := by
  unfold Block.format
  rw [← Block.bare_lines, eq, Block.bare_lines]

/-! ## Equal programs -/

theorem Number.IsLiteral.same_self {n : Number} (literal : n.IsLiteral) : n.same n = true := by
  cases literal with
  | int n => exact decide_eq_true (congrArg some Std.ReflCmp.compare_self)
  | @float m e _ =>
    have equal : (Number.float (.finite false m e)).compare? (.float (.finite false m e)) =
        some .eq := by
      simp only [Number.compare?, Number.extended?, Binary64.toRat?, Option.map_some, lt_irrefl,
        if_false, if_true]
    exact decide_eq_true equal

theorem Literal.Writable.same_self {value : Literal} (writable : value.Writable) :
    value.same value = true := by
  cases value with
  | number n => exact Number.IsLiteral.same_self writable
  | string s => exact decide_eq_true rfl
  | bool b => exact decide_eq_true rfl

section

variable {g : Grammar}

mutual

theorem Expr.same_of_bare : ∀ {e e' : Expr}, e.Writable g → e'.bare = e.bare → e'.same e = true
  | .literal _ value, e', writable, eq => by
    cases e' with
    | literal _ value' =>
      cases eq
      rw [Expr.same]
      exact writable.same_self
    | _ => cases eq
  | .var _ name, e', _, eq => by
    cases e' with
    | var _ name' =>
      cases eq
      rw [Expr.same, decide_eq_true rfl]
    | _ => cases eq
  | .call c, e', writable, eq => by
    cases e' with
    | call c' =>
      rw [Expr.same]
      exact Call.same_of_bare writable (Expr.call.inj eq)
    | _ => cases eq
  | .unary _ o e, e', writable, eq => by
    cases e' with
    | unary _ o' d =>
      obtain ⟨-, rfl, inner⟩ := Expr.unary.inj eq
      have innerOk : e.Writable g := writable
      rw [Expr.same, Expr.same_of_bare innerOk inner, decide_eq_true rfl, Bool.and_true]
    | _ => cases eq
  | .binary _ o a b, e', writable, eq => by
    cases e' with
    | binary _ o' a' b' =>
      obtain ⟨-, rfl, left, right⟩ := Expr.binary.inj eq
      rw [Expr.same, Expr.same_of_bare writable.1 left, Expr.same_of_bare writable.2 right,
        decide_eq_true rfl, Bool.and_true, Bool.and_true]
    | _ => cases eq

theorem Call.same_of_bare : ∀ {c c' : Call}, c.Writable g → c'.bare = c.bare → c'.same c = true
  | .mk _ name arguments keywords, .mk _ name' arguments' keywords', writable, eq => by
    obtain ⟨-, rfl, positional, named⟩ := Call.mk.inj eq
    rw [Call.same, sameExprs_of_bare writable.2.1 positional,
      sameKeywords_of_bare writable.2.2 named,
      decide_eq_true rfl, Bool.and_true, Bool.and_true]

theorem sameExprs_of_bare : ∀ {es es' : List Expr}, exprsWritable g es →
    bareExprs es' = bareExprs es → sameExprs es' es = true
  | [], [], _, _ => by rw [sameExprs]
  | [], _ :: _, _, eq => nomatch eq
  | _ :: _, [], _, eq => nomatch eq
  | e :: es, e' :: es', ⟨first, others⟩, eq => by
    obtain ⟨head, tail⟩ := List.cons.inj eq
    rw [sameExprs, Expr.same_of_bare first head, sameExprs_of_bare others tail, Bool.and_true]

theorem sameKeywords_of_bare : ∀ {ks ks' : List KeywordArgument}, keywordsWritable g ks →
    bareKeywords ks' = bareKeywords ks → sameKeywords ks' ks = true
  | [], [], _, _ => by rw [sameKeywords]
  | [], .mk .. :: _, _, eq => nomatch eq
  | .mk .. :: _, [], _, eq => nomatch eq
  | .mk _ name value :: ks, .mk _ name' value' :: ks', ⟨_, _, first, others⟩, eq => by
    obtain ⟨head, tail⟩ := List.cons.inj eq
    obtain ⟨-, rfl, inner⟩ := KeywordArgument.mk.inj head
    rw [sameKeywords, Expr.same_of_bare first inner, sameKeywords_of_bare others tail,
      decide_eq_true rfl, Bool.and_true, Bool.and_true]

end

/-- A choice is equal to nothing but a choice. -/
theorem Stmt.bare_choice (span : Span) (branches : List Branch) (otherwise : Option Block) :
    (Stmt.choice span branches otherwise).bare =
      .choice default (bareBranches branches) (otherwise.map Block.bare) := by
  cases otherwise <;> rfl

mutual

theorem Stmt.same_of_bare : ∀ {s s' : Stmt}, s.Writable g → s'.bare = s.bare → s'.same s = true
  | .assign _ mode name value, s', ⟨_, writable⟩, eq => by
    cases s' with
    | assign _ mode' name' value' =>
      obtain ⟨-, rfl, rfl, inner⟩ := Stmt.assign.inj eq
      rw [Stmt.same, Expr.same_of_bare writable inner, decide_eq_true rfl, decide_eq_true rfl]
      rfl
    | choice => exact nomatch (Stmt.bare_choice ..).symm.trans eq
    | _ => cases eq
  | .call c, s', writable, eq => by
    cases s' with
    | call c' =>
      rw [Stmt.same]
      exact Call.same_of_bare writable (Stmt.call.inj eq)
    | choice => exact nomatch (Stmt.bare_choice ..).symm.trans eq
    | _ => cases eq
  | .choice _ branches none, s', ⟨_, writable⟩, eq => by
    cases s' with
    | choice _ branches' otherwise' =>
      rw [Stmt.bare_choice, Stmt.bare_choice] at eq
      obtain ⟨-, inner, final⟩ := Stmt.choice.inj eq
      obtain rfl := Option.map_eq_none_iff.1 final
      rw [Stmt.same]
      exact sameBranches_of_bare writable inner
    | _ => cases eq
  | .choice _ branches (some last), s', ⟨_, writable, lastOk⟩, eq => by
    cases s' with
    | choice _ branches' otherwise' =>
      rw [Stmt.bare_choice, Stmt.bare_choice] at eq
      obtain ⟨-, inner, final⟩ := Stmt.choice.inj eq
      obtain ⟨last', rfl, lastEq⟩ := Option.map_eq_some_iff.1 final
      rw [Stmt.same, sameBranches_of_bare writable inner, Block.same_of_bare lastOk lastEq,
        Bool.and_true]
    | _ => cases eq
  | .whileLoop _ condition body, s', ⟨_, _, test, inner⟩, eq => by
    cases s' with
    | whileLoop _ condition' body' =>
      obtain ⟨-, testEq, innerEq⟩ := Stmt.whileLoop.inj eq
      rw [Stmt.same, Expr.same_of_bare test testEq, Block.same_of_bare inner innerEq, Bool.and_true]
    | choice => exact nomatch (Stmt.bare_choice ..).symm.trans eq
    | _ => cases eq
  | .forLoop _ counter first last step body, s', ⟨_, _, _, start, stop, increment, inner⟩, eq => by
    cases s' with
    | forLoop _ counter' first' last' step' body' =>
      obtain ⟨-, rfl, firstEq, lastEq, stepEq, innerEq⟩ := Stmt.forLoop.inj eq
      have firstSame := Expr.same_of_bare start firstEq
      have lastSame := Expr.same_of_bare stop lastEq
      have innerSame := Block.same_of_bare inner innerEq
      cases step with
      | none =>
        obtain rfl := Option.map_eq_none_iff.1 stepEq
        rw [Stmt.same, firstSame, lastSame, innerSame, decide_eq_true rfl]
        rfl
      | some e =>
        obtain ⟨e', rfl, valueEq⟩ := Option.map_eq_some_iff.1 stepEq
        have stepSame := Expr.same_of_bare increment valueEq
        rw [Stmt.same, firstSame, lastSame, stepSame, innerSame, decide_eq_true rfl]
        rfl
    | choice => exact nomatch (Stmt.bare_choice ..).symm.trans eq
    | _ => cases eq
  | .block body, s', writable, eq => by
    cases s' with
    | block body' =>
      rw [Stmt.same]
      exact Block.same_of_bare writable (Stmt.block.inj eq)
    | choice => exact nomatch (Stmt.bare_choice ..).symm.trans eq
    | _ => cases eq
  | .ret _, s', _, eq => by
    cases s' with
    | ret _ => rw [Stmt.same]
    | choice => exact nomatch (Stmt.bare_choice ..).symm.trans eq
    | _ => cases eq
  | .comment _ text, s', _, eq => by
    cases s' with
    | comment _ text' =>
      cases eq
      rw [Stmt.same, decide_eq_true rfl]
    | choice => exact nomatch (Stmt.bare_choice ..).symm.trans eq
    | _ => cases eq

theorem sameBranches_of_bare : ∀ {bs bs' : List Branch}, branchesWritable g bs →
    bareBranches bs' = bareBranches bs → sameBranches bs' bs = true
  | [], [], _, _ => by rw [sameBranches]
  | [], .mk .. :: _, _, eq => nomatch eq
  | .mk .. :: _, [], _, eq => nomatch eq
  | .mk _ condition body :: bs, .mk _ condition' body' :: bs', ⟨test, inner, others⟩, eq => by
    obtain ⟨head, tail⟩ := List.cons.inj eq
    obtain ⟨-, testEq, innerEq⟩ := Branch.mk.inj head
    rw [sameBranches, Expr.same_of_bare test testEq, Block.same_of_bare inner innerEq,
      sameBranches_of_bare others tail, Bool.and_true, Bool.and_true]

theorem Block.same_of_bare : ∀ {b b' : Block}, b.Writable g → b'.bare = b.bare → b'.same b = true
  | .mk _ ss, .mk _ ss', writable, eq => by
    rw [Block.same]
    exact sameStmts_of_bare writable (Block.mk.inj eq).2

theorem sameStmts_of_bare : ∀ {ss ss' : List Stmt}, stmtsWritable g ss →
    bareStmts ss' = bareStmts ss → sameStmts ss' ss = true
  | [], [], _, _ => by rw [sameStmts]
  | [], _ :: _, _, eq => nomatch eq
  | _ :: _, [], _, eq => nomatch eq
  | s :: ss, s' :: ss', ⟨first, others⟩, eq => by
    obtain ⟨head, tail⟩ := List.cons.inj eq
    rw [sameStmts, Stmt.same_of_bare first head, sameStmts_of_bare others tail, Bool.and_true]

end

end

end InstallScript
