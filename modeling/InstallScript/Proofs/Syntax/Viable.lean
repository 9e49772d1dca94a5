import InstallScript.Proofs.Syntax.Complete

/-!
Beginnings of phrases. A stretch is viable for a class of phrases if some tokens behind it complete
it to one of them; how they look does not matter, only their kinds do. The statements below follow
the constructors of the grammar: behind each part of a construct, what is there so far is viable.

A class of phrases says that there is a tree. Phrases that end with a block are taken for any token
that may close it.
-/

namespace InstallScript

/-- Tokens of some kinds complete a stretch to a phrase. Any token of its kind may be the next one.
None of them is a comment or ends the input. -/
inductive Viable (phrase : List Item → Prop) : List Item → Prop
  | done {ts : List Item} (whole : phrase ts) : Viable phrase ts
  | next {ts : List Item} (kind : TokenKind) (plain : kind ≠ .comment ∧ kind ≠ .endOfInput)
      (further : ∀ item : Item, item.kind = kind → Viable phrase (ts ++ [item])) : Viable phrase ts

/-- What completes the last part of a phrase completes the phrase. -/
theorem Viable.inside {part phrase : List Item → Prop} {ts : List Item} (viable : Viable part ts)
    (front : List Item → List Item) (prepends : ∀ us vs, front (us ++ vs) = front us ++ vs)
    (onwards : ∀ us, part us → Viable phrase (front us)) : Viable phrase (front ts) := by
  induction viable with
  | done whole => exact onwards _ whole
  | next kind plain _ ih =>
    refine .next kind plain fun item itemKind => ?_
    rw [← prepends]
    exact ih item itemKind

/-- The last part has not begun. -/
theorem Viable.behind {part phrase : List Item → Prop} (viable : Viable part [])
    (before : List Item) (onwards : ∀ us, part us → Viable phrase (before ++ us)) :
    Viable phrase before := by
  have whole := viable.inside (before ++ ·) (by simp) onwards
  rwa [List.append_nil] at whole

/-- One more token makes a phrase. -/
theorem Viable.last {phrase : List Item → Prop} {ts : List Item} (kind : TokenKind)
    (plain : kind ≠ .comment ∧ kind ≠ .endOfInput)
    (whole : ∀ item : Item, item.kind = kind → phrase (ts ++ [item])) : Viable phrase ts :=
  .next kind plain fun item itemKind => .done (whole item itemKind)

namespace Phrase

variable (g : Grammar)

/-! ## Classes of phrases -/

abbrev IsExpression (level : Nat) (ts : List Item) : Prop := ∃ e, Expression g level ts e

abbrev IsOperand (ts : List Item) : Prop := ∃ e, Operand g ts e

abbrev IsCall (ts : List Item) : Prop := ∃ f, FunctionCall g ts f

/-- Behind arguments that are given by name there are no others. -/
abbrev AreArguments (keywords : List KeywordArgument) (ts : List Item) : Prop :=
  ∃ es ks, Arguments g ts es ks ∧ (keywords = [] ∨ es = [])

abbrev IsArgument (keywords : List KeywordArgument) (ts : List Item) : Prop :=
  IsExpression g 1 ts ∧ keywords = [] ∨ ∃ k, Named g ts k

abbrev IsTarget (ts : List Item) : Prop := ∃ name e, Target g ts name e

abbrev IsLoopStep (ts : List Item) : Prop := ∃ step, LoopStep g ts step

abbrev IsStatement (ts : List Item) : Prop := ∃ s, Statement g ts s

abbrev AreStatements (ts : List Item) : Prop := ∀ closing, ∃ ss, Statements g ts closing ss

abbrev IsGuarded (ts : List Item) : Prop := ∀ word closing, ∃ b, Guarded g word ts closing b

abbrev AreAlternatives (ts : List Item) : Prop := ∃ bs otherwise, Alternatives g ts bs otherwise

variable {g}

/-! ## Blocks and the tokens that close them -/

theorem Statements.anyEnd {ts : List Item} {closing : Item} {ss : List Stmt} :
    Statements g ts closing ss → AreStatements g ts
  | .nil, _ => ⟨_, .nil⟩
  | .cons statement separated others, closing' => by
    obtain ⟨ss, more⟩ := others.anyEnd closing'
    exact ⟨_, .cons statement separated more⟩

theorem Guarded.anyEnd {word : Item} {ts : List Item} {closing : Item} {b : Branch} :
    Guarded g word ts closing b → IsGuarded g ts
  | .mk test thenKind (.mk inner), _, closing' => by
    obtain ⟨ss, more⟩ := inner.anyEnd closing'
    exact ⟨_, .mk test thenKind (.mk more)⟩

theorem areStatements_nil : AreStatements g [] := fun _ => ⟨_, .nil⟩

/-- A first statement with others behind it. -/
theorem IsStatement.followed {ts separator us : List Item} (statement : IsStatement g ts)
    (separated : Separator separator) (others : AreStatements g us) :
    AreStatements g (ts ++ (separator ++ us)) := by
  intro closing
  obtain ⟨s, statement⟩ := statement
  obtain ⟨ss, others⟩ := others closing
  obtain ⟨first, more, rfl, -⟩ := statement.begins
  exact ⟨_, .cons statement separated others⟩

theorem IsStatement.alone {ts : List Item} (statement : IsStatement g ts) : AreStatements g ts := by
  have alone := statement.followed .none areStatements_nil
  rwa [List.append_nil, List.append_nil] at alone

/-! ## Beginnings of expressions -/

theorem IsOperand.expression {ts : List Item} {level : Nat} (operand : IsOperand g ts)
    (bound : level ≤ UnaryOperator.precedence) : IsExpression g level ts := by
  obtain ⟨e, operand⟩ := operand
  exact ⟨e, (Expression.operand operand).lower (Nat.le_refl _) bound⟩

theorem viable_operand : Viable (IsOperand g) [] :=
  .last .identifier (by decide) fun _ kind => ⟨_, .variable kind⟩

theorem viable_expression : Viable (IsExpression g 1) [] :=
  viable_operand.behind [] fun _ operand =>
    .done (operand.expression UnaryOperator.one_le_precedence)

theorem IsExpression.enclosed {opening : Item} {ts : List Item} (inner : IsExpression g 1 ts)
    (openingKind : opening.kind = .leftParen) : Viable (IsOperand g) (opening :: ts) := by
  obtain ⟨e, inner⟩ := inner
  exact .last .rightParen (by decide) fun closing closingKind =>
    ⟨e, .parentheses openingKind closingKind inner⟩

section

variable {name opening : Item} (nameKind : name.kind = .identifier)

include nameKind

theorem viable_arguments (openingKind : opening.kind = .leftParen) :
    Viable (IsCall g) [name, opening] :=
  .last .rightParen (by decide) fun _ closingKind => ⟨_, .bare nameKind openingKind closingKind⟩

theorem AreArguments.applied {ts : List Item} (given : AreArguments g [] ts)
    (openingKind : opening.kind = .leftParen) : Viable (IsCall g) (name :: opening :: ts) := by
  obtain ⟨es, ks, given, -⟩ := given
  exact .last .rightParen (by decide) fun _ closingKind =>
    ⟨_, .applied nameKind openingKind closingKind given⟩

theorem viable_opening : Viable (IsCall g) [name] :=
  .next .leftParen (by decide) fun _ openingKind => viable_arguments nameKind openingKind

end

theorem viable_call : Viable (IsCall g) [] :=
  .next .identifier (by decide) fun _ nameKind => viable_opening nameKind

theorem IsCall.operand {ts : List Item} (call : IsCall g ts) : IsOperand g ts := by
  obtain ⟨f, call⟩ := call
  exact ⟨_, .call call⟩

theorem IsArgument.alone {keywords : List KeywordArgument} {ts : List Item}
    (argument : IsArgument g keywords ts) : AreArguments g keywords ts := by
  rcases argument with ⟨⟨e, argument⟩, noKeywords⟩ | ⟨k, argument⟩
  · exact ⟨_, _, .lastPositional argument, .inl noKeywords⟩
  · exact ⟨_, _, .lastNamed argument, .inr rfl⟩

/-! ## Beginnings of statements -/

theorem viable_statement : Viable (IsStatement g) [] :=
  .last .returnWord (by decide) fun _ kind => ⟨_, .ret kind⟩

theorem viable_alternatives : Viable (AreAlternatives g) [] :=
  .last .endifWord (by decide) fun _ kind => ⟨_, _, .done kind⟩

section

variable {name sign : Item} (nameKind : name.kind = .identifier)

include nameKind

theorem IsExpression.assigned {ts : List Item} (value : IsExpression g 1 ts)
    (signKind : sign.kind = .assign) : IsTarget g (name :: sign :: ts) := by
  obtain ⟨e, value⟩ := value
  exact ⟨_, _, .mk nameKind signKind value⟩

theorem viable_value (signKind : sign.kind = .assign) : Viable (IsTarget g) [name, sign] :=
  viable_expression.behind [name, sign] fun _ value => .done (value.assigned nameKind signKind)

theorem viable_sign : Viable (IsTarget g) [name] :=
  .next .assign (by decide) fun _ signKind => viable_value nameKind signKind

end

theorem viable_target : Viable (IsTarget g) [] :=
  .next .identifier (by decide) fun _ nameKind => viable_sign nameKind

theorem IsCall.statement {ts : List Item} (call : IsCall g ts) : IsStatement g ts := by
  obtain ⟨f, call⟩ := call
  exact ⟨_, .call call⟩

theorem IsTarget.statement {ts : List Item} (target : IsTarget g ts) : IsStatement g ts := by
  obtain ⟨name, e, target⟩ := target
  cases target with
  | mk nameKind signKind value => exact ⟨_, .assign (.mk nameKind signKind value)⟩

/-! ### Choices -/

theorem AreStatements.guarded {cs body : List Item} {thenWord : Item} (inner : AreStatements g body)
    (test : IsExpression g 1 cs) (thenKind : thenWord.kind = .thenWord) :
    IsGuarded g (cs ++ thenWord :: body) := by
  intro word closing
  obtain ⟨condition, test⟩ := test
  obtain ⟨ss, inner⟩ := inner closing
  exact ⟨_, .mk test thenKind (.mk inner)⟩

theorem IsExpression.guarding {cs : List Item} (test : IsExpression g 1 cs) :
    Viable (IsGuarded g) cs :=
  .last .thenWord (by decide) fun _ thenKind => areStatements_nil.guarded test thenKind

section

variable {word : Item} {ts us : List Item}

theorem AreAlternatives.cons (others : AreAlternatives g us) :
    ∃ closing us', us = closing :: us' := by
  obtain ⟨bs, otherwise, others⟩ := others
  cases others <;> exact ⟨_, _, rfl⟩

/-- A guarded part of a choice is closed by the first token of what is behind it. -/
theorem IsGuarded.followed (first : IsGuarded g ts) (wordKind : word.kind = .elseifWord)
    (others : AreAlternatives g us) : AreAlternatives g (word :: (ts ++ us)) := by
  obtain ⟨closing, us', rfl⟩ := others.cons
  obtain ⟨bs, otherwise, others⟩ := others
  obtain ⟨b, first⟩ := first word closing
  exact ⟨_, _, .guarded wordKind first others⟩

theorem IsGuarded.alternative (first : IsGuarded g ts) (wordKind : word.kind = .elseifWord) :
    Viable (AreAlternatives g) (word :: ts) :=
  .last .endifWord (by decide) fun _ kind => first.followed wordKind ⟨_, _, .done kind⟩

theorem AreStatements.otherwise (inner : AreStatements g ts) (wordKind : word.kind = .elseWord) :
    Viable (AreAlternatives g) (word :: ts) := by
  refine .last .endifWord (by decide) fun closing closingKind => ?_
  obtain ⟨ss, inner⟩ := inner closing
  exact ⟨_, _, .otherwise wordKind inner closingKind⟩

theorem IsGuarded.chosen (first : IsGuarded g ts) (wordKind : word.kind = .ifWord)
    (others : AreAlternatives g us) : IsStatement g (word :: (ts ++ us)) := by
  obtain ⟨closing, us', rfl⟩ := others.cons
  obtain ⟨bs, otherwise, others⟩ := others
  obtain ⟨b, first⟩ := first word closing
  exact ⟨_, .choice wordKind first others⟩

theorem IsGuarded.choosing (first : IsGuarded g ts) (wordKind : word.kind = .ifWord) :
    Viable (IsStatement g) (word :: ts) :=
  .last .endifWord (by decide) fun _ kind => first.chosen wordKind ⟨_, _, .done kind⟩

/-! ### Blocks -/

theorem AreStatements.enclosed (inner : AreStatements g ts) (wordKind : word.kind = .beginWord) :
    Viable (IsStatement g) (word :: ts) := by
  refine .last .endWord (by decide) fun closing closingKind => ?_
  obtain ⟨ss, inner⟩ := inner closing
  exact ⟨_, .block wordKind inner closingKind⟩

end

/-! ### Loops -/

section

variable {word doWord : Item} (allowed : g.loops = true)

include allowed

theorem AreStatements.repeated {cs body : List Item} (inner : AreStatements g body)
    (wordKind : word.kind = .whileWord) (test : IsExpression g 1 cs)
    (doKind : doWord.kind = .doWord) :
    Viable (IsStatement g) (word :: (cs ++ doWord :: body)) := by
  refine .last .endwhileWord (by decide) fun closing closingKind => ?_
  obtain ⟨condition, test⟩ := test
  obtain ⟨ss, inner⟩ := inner closing
  rw [List.cons_append, List.append_assoc, List.cons_append]
  exact ⟨_, .whileLoop allowed wordKind test doKind (.mk inner) closingKind⟩

theorem IsExpression.repeating {cs : List Item} (test : IsExpression g 1 cs)
    (wordKind : word.kind = .whileWord) : Viable (IsStatement g) (word :: cs) :=
  .next .doWord (by decide) fun _ doKind =>
    areStatements_nil.repeated allowed wordKind test doKind

section

variable {counter sign toWord : Item} {fs ls ss : List Item} (wordKind : word.kind = .forWord)
  (counterKind : counter.kind = .identifier) (signKind : sign.kind = .assign)

include wordKind counterKind signKind

theorem AreStatements.counted {body : List Item} (inner : AreStatements g body)
    (start : IsExpression g 1 fs) (toKind : toWord.kind = .toWord) (stop : IsExpression g 1 ls)
    (increment : IsLoopStep g ss) (doKind : doWord.kind = .doWord) :
    Viable (IsStatement g)
      (word :: counter :: sign :: (fs ++ toWord :: (ls ++ (ss ++ doWord :: body)))) := by
  refine .last .endforWord (by decide) fun closing closingKind => ?_
  obtain ⟨first, start⟩ := start
  obtain ⟨last, stop⟩ := stop
  obtain ⟨step, increment⟩ := increment
  obtain ⟨ss, inner⟩ := inner closing
  simp only [List.cons_append, List.append_assoc]
  exact ⟨_, .forLoop allowed wordKind counterKind signKind start toKind stop increment doKind
    (.mk inner) closingKind⟩

theorem IsLoopStep.counting (increment : IsLoopStep g ss) (start : IsExpression g 1 fs)
    (toKind : toWord.kind = .toWord) (stop : IsExpression g 1 ls) :
    Viable (IsStatement g) (word :: counter :: sign :: (fs ++ toWord :: (ls ++ ss))) := by
  refine .next .doWord (by decide) fun doWord doKind => ?_
  simp only [List.cons_append, List.append_assoc]
  exact areStatements_nil.counted allowed wordKind counterKind signKind start toKind stop increment
    doKind

/-- Both bounds of a counted loop. A step would come behind them and may be left out. -/
theorem IsExpression.counting (stop : IsExpression g 1 ls) (start : IsExpression g 1 fs)
    (toKind : toWord.kind = .toWord) :
    Viable (IsStatement g) (word :: counter :: sign :: (fs ++ toWord :: ls)) := by
  have counting := IsLoopStep.counting allowed wordKind counterKind signKind ⟨_, .none⟩ start toKind
    stop
  rwa [List.append_nil] at counting

theorem IsExpression.starting (start : IsExpression g 1 fs) :
    Viable (IsStatement g) (word :: counter :: sign :: fs) := by
  refine .next .toWord (by decide) fun toWord toKind => ?_
  refine (viable_expression (g := g)).behind _ fun ls stop => ?_
  simp only [List.cons_append, List.append_assoc]
  exact stop.counting allowed wordKind counterKind signKind start toKind

end

theorem viable_assign {counter : Item} (wordKind : word.kind = .forWord)
    (counterKind : counter.kind = .identifier) : Viable (IsStatement g) [word, counter] :=
  .next .assign (by decide) fun sign signKind => viable_expression.behind [word, counter, sign]
    fun _ start => start.starting allowed wordKind counterKind signKind

theorem viable_counter (wordKind : word.kind = .forWord) : Viable (IsStatement g) [word] :=
  .next .identifier (by decide) fun _ counterKind => viable_assign allowed wordKind counterKind

end

end Phrase

end InstallScript
