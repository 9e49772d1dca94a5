import InstallScript.Proofs.Syntax.Online

/-!
Every function of the parser objects to the first token that cannot be right, by induction on the
bound on nested steps. What a function takes before it objects is viable for the phrases that it
reads; where it reads something else first, that is known from `expression_sound` and its like.
-/

namespace InstallScript

open InstallScript.Parser InstallScript.Phrase

theorem ne_end {item : Item} {kind : TokenKind} (itemKind : item.kind = kind)
    (notEnd : kind ≠ .endOfInput := by decide) : item.kind ≠ .endOfInput :=
  itemKind ▸ notEnd

/-! ## The second token ahead -/

section

variable {g : Grammar} {item : Item}

theorem Takes.of_stuck {α : Type} {p : Parser α} {h : Halt} (noFault : h = .noToken ∨ h = .tooDeep)
    (stuck : ∀ previous, p ⟨[item], previous⟩ = .error h) : Takes p item := by
  intro previous
  constructor
  · intro a c' ran
    cases (stuck previous).symm.trans ran
  · intro fault span ran
    cases (stuck previous).symm.trans ran
    rcases noFault with other | other <;> cases other

theorem Takes.map {α β : Type} {p : Parser α} (takes : Takes p item) (f : α → β) :
    Takes (p >>= fun a => Pure.pure (f a)) item := by
  intro previous
  constructor
  · intro b c' ran
    obtain ⟨a, c', ran, given⟩ := bind_eq_ok.1 ran
    cases given
    exact (takes previous).1 a c' ran
  · intro fault span ran
    rw [bind_apply] at ran
    split at ran
    · cases ran
    · rename_i stuck
      cases ran
      exact (takes previous).2 fault span stuck

theorem takes_advance (notEnd : item.kind ≠ .endOfInput) : Takes advance item := by
  intro previous
  have took : Took [item] ⟨[item], previous⟩ ⟨[], some item.token⟩ := .of_rest rfl
  have ran := advance_of_took took notEnd
  constructor
  · intro a c' ran'
    cases ran.symm.trans ran'
    rfl
  · intro fault span ran'
    cases ran.symm.trans ran'

theorem Takes.refuse {α : Type} {fault : Fault} {span : Span} (code : fault.code ∉ syntaxCodes) :
    Takes (halt (.fault fault span) : Parser α) item := by
  intro previous
  constructor
  · intro a c' ran
    cases ran
  · intro fault' span' ran
    cases ran
    exact code

/-- Another token is needed behind the first one. -/
theorem Takes.of_advance {α : Type} {q : Token → Parser α} (notEnd : item.kind ≠ .endOfInput)
    (stuck : ∀ previous, q item.token ⟨[], previous⟩ = .error .noToken) :
    Takes (advance >>= q) item := by
  refine .of_stuck (.inl rfl) fun previous => ?_
  have took : Took [item] ⟨[item], previous⟩ ⟨[], some item.token⟩ := .of_rest rfl
  rw [bind_of_ok (advance_of_took took notEnd)]
  exact stuck _

theorem Takes.of_expect {α : Type} {q : Token → Parser α} {kind : TokenKind} {expected : String}
    (itemKind : item.kind = kind) (notEnd : kind ≠ .endOfInput)
    (stuck : ∀ previous, q item.token ⟨[], previous⟩ = .error .noToken) :
    Takes (expect kind expected >>= q) item := by
  refine .of_stuck (.inl rfl) fun previous => ?_
  have took : Took [item] ⟨[item], previous⟩ ⟨[], some item.token⟩ := .of_rest rfl
  rw [bind_of_ok (expect_of_took took itemKind notEnd)]
  exact stuck _

theorem takes_call (isName : item.kind = .identifier) (m : Nat) : Takes (call g m) item := by
  cases m with
  | zero => exact .of_stuck (.inr rfl) fun _ => by rw [call]; rfl
  | succ m =>
    rw [call]
    exact .of_expect isName (by decide) fun _ => rfl

theorem takes_assignment (isName : item.kind = .identifier) (m : Nat) (start : Token)
    (mode : AssignMode) : Takes (assignment g m start mode) item :=
  .of_expect isName (by decide) fun _ => rfl

/-- A name alone may be a variable or begin a call. -/
theorem takes_expression (isName : item.kind = .identifier) (m level : Nat) :
    Takes (expression g m level) item := by
  have name : item.token.kind = .identifier := isName
  match m with
  | 0 => exact .of_stuck (.inr rfl) fun _ => by rw [expression]; rfl
  | 1 => exact .of_stuck (.inr rfl) fun _ => by rw [expression, operand]; rfl
  | 2 =>
    refine .of_stuck (.inr rfl) fun previous => ?_
    rw [expression, bind_apply, operand_of_no_sign rfl (by rw [isName]; rfl), primary]
    rfl
  | m + 3 =>
    refine .of_stuck (.inl rfl) fun previous => ?_
    rw [expression, bind_apply, operand_of_no_sign rfl (by rw [isName]; rfl), primary,
      bind_of_ok (peek_of_rest rfl)]
    simp only [name]
    rfl

end

/-! ## Expressions -/

theorem pure_then {α β : Type} (a : α) (q : α → Parser β) : (Parser.pure a >>= q) = q a := rfl

theorem positional_code {function : String} :
    (Fault.positionalAfterKeyword function).code ∉ syntaxCodes := by
  simp [Fault.code, syntaxCodes]

theorem unsupported_code (construct : String) {version : Int} :
    (Fault.unsupported construct version).code ∉ syntaxCodes := by
  simp [Fault.code, syntaxCodes]

section

variable {g : Grammar}

/-- An expression and a certain token behind it. -/
theorem delimited_online {β : Type} {q : Nat → Expr → Parser β} {kind : TokenKind}
    {expected : String} {least need n : Nat} {viable : List Item → Prop} {c : Cursor}
    (read : Online least (Viable (IsExpression g 1)) (fun m => expression g m 1) n c)
    (le : least ≤ need) (notEnd : kind ≠ .endOfInput)
    (onwards : ∀ us, Viable (IsExpression g 1) us → viable us)
    (next : ∀ cs e item c', IsExpression g 1 cs → item.kind = kind →
      Online (need + 8 * cs.length + 8) (fun us => viable (cs ++ item :: us)) (fun m => q m e) n
        c') :
    Online need viable (fun m => expression g m 1 >>= fun e => expect kind expected >>= fun _ =>
      q m e) n c := by
  refine read.bind le onwards fun e c₁ ran => ?_
  obtain ⟨cs, took, phrase, -⟩ := expression_sound n UnaryOperator.one_le_precedence ran
  have whole : IsExpression g 1 cs := ⟨e, phrase⟩
  refine ⟨cs, took, .expect notEnd ?_ fun item c₂ _ itemKind => next cs e item c₂ whole itemKind⟩
  rw [List.append_nil]
  exact onwards cs (.done whole)

mutual

theorem expression_online : ∀ (n : Nat) {level : Nat} {c : Cursor},
    level ≤ UnaryOperator.precedence →
      Online 4 (Viable (IsExpression g level)) (fun m => expression g m level) n c
  | 0, _, _, _ => .deep (by rw [expression])
  | n + 1, level, c, bound => by
    refine .succ (fun m => by rw [expression]) ?_
    refine (operand_online n).bind (Nat.le_refl _) (fun ts good => ?_) fun left c₁ ran => ?_
    · exact good.inside _ (by simp) fun us operand => .done (operand.expression bound)
    obtain ⟨ls, took, phrase⟩ := operand_sound n ran
    have below : Below (UnaryOperator.precedence + 1) c₁ := Below.mono (.unaryLevel c₁) (by omega)
    exact ⟨ls, took, (operators_online n (.operand phrase) (Nat.le_refl _) bound below).weaken
      (by omega) fun us good => good⟩

theorem operators_online : ∀ (n : Nat) {least level : Nat} {ls : List Item} {left : Expr}
    {c : Cursor}, Expression g level ls left → level ≤ UnaryOperator.precedence → least ≤ level →
      Below (level + 1) c → Online 1 (fun us => Viable (IsExpression g least) (ls ++ us))
        (fun m => operators g m least left) n c
  | 0, _, _, _, _, _, _, _, _, _ => .deep (by rw [operators])
  | n + 1, least, level, ls, left, c, leftPhrase, bound, le, below => by
    refine .succ (fun m => by rw [operators]) ?_
    refine .peek fun sign items rest => ?_
    cases isOperator : BinaryOperator.ofKind? sign.token.kind with
    | none => exact .pure left
    | some o =>
      have signKind : sign.kind = o.kind := BinaryOperator.ofKind?_eq_some.1 isOperator
      have upper : o.precedence < level + 1 := below sign items o rest signKind
      refine .ite (fun _ => .pure left) fun tight => ?_
      refine .advance rest (signKind ▸ o.kind_ne_end) ?_
      have leftPhrase' : Expression g o.precedence ls left := leftPhrase.lower bound (by omega)
      have joined {rs : List Item} {right : Expr}
          (rightPhrase : Expression g (o.precedence + 1) rs right) :
          Expression g o.precedence (ls ++ sign :: rs)
            (.binary (left.span.upTo right.span) o left right) :=
        .binary rfl signKind leftPhrase' rightPhrase
      have within : o.precedence ≤ UnaryOperator.precedence := Nat.le_of_lt o.precedence_lt
      refine (expression_online n (Nat.succ_le_of_lt o.precedence_lt)).bind (by omega)
        (fun us good => ?_) fun right c' ran => ?_
      · refine good.inside (ls ++ sign :: ·) (by simp) fun vs ⟨right, rightPhrase⟩ => ?_
        exact .done ⟨_, (joined rightPhrase).lower within (by omega)⟩
      obtain ⟨rs, took, rightPhrase, below'⟩ :=
        expression_sound n (Nat.succ_le_of_lt o.precedence_lt) ran
      refine ⟨rs, took, ?_⟩
      refine (operators_online n (joined rightPhrase) within (by omega) below').weaken (by omega) ?_
      intro us good
      rwa [List.append_assoc, List.cons_append] at good

theorem operand_online : ∀ (n : Nat) {c : Cursor},
    Online 3 (Viable (IsOperand g)) (operand g) n c
  | 0, _ => .deep (by rw [operand])
  | n + 1, c => by
    refine .succ (fun m => by rw [operand]) ?_
    refine .peek fun sign items rest => ?_
    cases isOperator : UnaryOperator.ofKind? sign.token.kind with
    | none => exact primary_online n
    | some o =>
      have signKind : sign.kind = o.kind := UnaryOperator.ofKind?_eq_some.1 isOperator
      refine .advance rest (signKind ▸ o.kind_ne_end) ?_
      refine ((operand_online n).map _).weaken (by omega) fun us good => ?_
      refine good.inside (sign :: ·) (by simp) fun vs ⟨e, phrase⟩ => ?_
      exact .done ⟨_, .unary signKind phrase⟩

theorem primary_online : ∀ (n : Nat) {c : Cursor},
    Online 2 (Viable (IsOperand g)) (primary g) n c
  | 0, _ => .deep (by rw [primary])
  | n + 1, c => by
    refine .succ (fun m => by rw [primary]) ?_
    refine .peek fun item items rest => ?_
    have literal (kind : item.kind ∈ Phrase.literalKinds) : Online 1 (Viable (IsOperand g))
        (fun _ => advance >>= fun _ =>
          Pure.pure (Expr.literal item.token.span (literalOf item.token))) n c :=
      .advance rest (Phrase.ne_end_of_literal kind) (.pure _)
    cases kind : item.token.kind
    case numberLiteral => exact literal (by simp [Phrase.literalKinds, Item.kind, kind])
    case stringLiteral => exact literal (by simp [Phrase.literalKinds, Item.kind, kind])
    case boolLiteral => exact literal (by simp [Phrase.literalKinds, Item.kind, kind])
    case identifier =>
      refine .peekSecond rest (fun second others _ m => ?_) fun second others _ => .ite ?_ ?_
      · split
        · exact (takes_call kind m).map _
        · exact (takes_advance (ne_end kind)).map _
      · intro _
        refine ((call_online n).map _).weaken (by omega) fun ts good => ?_
        exact good.inside _ (by simp) fun us called => .done called.operand
      · exact fun _ => .advance rest (ne_end kind) (.pure _)
    case leftParen =>
      refine .advance rest (ne_end kind) ?_
      refine delimited_online (expression_online n UnaryOperator.one_le_precedence) (by omega)
        (by decide) (fun us good => ?_) fun _ inner _ _ _ _ => .pure inner
      exact good.inside _ (by simp) fun vs inner => inner.enclosed kind
    case endOfInput => exact .object rest (.ending _ kind) viable_operand
    all_goals exact .object rest (.expression (by simp [kind])) viable_operand

theorem call_online : ∀ (n : Nat) {c : Cursor}, Online 1 (Viable (IsCall g)) (call g) n c
  | 0, _ => .deep (by rw [call])
  | n + 1, c => by
    refine .succ (fun m => by rw [call]) ?_
    refine .expect (by decide) viable_call fun name c₁ tookName nameKind => ?_
    refine .expect (by decide) (viable_opening nameKind) fun opening c₂ tookOpening openingKind =>
      ?_
    have closes (need : Nat) (positional : List Expr) (keywords : List KeywordArgument)
        (front : List Item) (c₃ : Cursor) (good : Viable (IsCall g) front) :
        Online need (fun us => Viable (IsCall g) (front ++ us)) (fun _ =>
          expect .rightParen "',' or ')'" >>= fun _ => spanFrom name.token >>= fun span =>
            Pure.pure (Call.mk span name.token.name positional keywords)) n c₃ :=
      .expect (by decide) (by rwa [List.append_nil]) fun _ _ _ _ =>
        (Online.spanFrom name.token).map _
    refine .peek fun next items rest => ?_
    by_cases bare : next.token.kind = .rightParen
    · simp only [if_pos bare]
      refine Online.bind (.still fun _ => pure_run) (Nat.le_refl _) (fun _ good => good) ?_
      intro given c₃ ran
      obtain ⟨rfl, rfl⟩ := pure_eq_ok.1 ran
      exact ⟨[], .refl _, closes _ _ _ _ _ (viable_arguments nameKind openingKind)⟩
    · simp only [if_neg bare]
      refine (arguments_online n).bind (by omega) (fun us good => ?_) fun given c₃ ran => ?_
      · exact good.inside _ (by simp) fun vs given => given.applied nameKind openingKind
      obtain ⟨ts, es, ks, took, -, -, phrase, -⟩ := arguments_sound n ran
      have given : AreArguments g [] ts := ⟨es, ks, phrase, .inl rfl⟩
      exact ⟨ts, took, closes _ _ _ _ _ (given.applied nameKind openingKind)⟩

theorem arguments_online : ∀ (n : Nat) {function : Token} {positional : List Expr}
    {keywords : List KeywordArgument} {c : Cursor}, Online 6 (Viable (AreArguments g keywords))
      (fun m => arguments g m function positional keywords) n c
  | 0, _, _, _, _ => .deep (by rw [arguments])
  | n + 1, function, positional, keywords, c => by
    refine .succ (fun m => by rw [arguments]) ?_
    refine (argument_online n).bind (Nat.le_refl _) (fun ts good => ?_) fun given c₁ ran => ?_
    · exact good.inside _ (by simp) fun us argument => .done argument.alone
    obtain ⟨ts, took, argument⟩ := argument_sound n ran
    refine ⟨ts, took, .peek fun comma items rest => .ite (fun commaKind => ?_) fun _ => .pure given⟩
    refine .advance rest (ne_end commaKind) ?_
    refine (arguments_online n).weaken (by omega) fun us good => ?_
    refine good.inside (ts ++ comma :: ·) (by simp) fun vs ⟨es, ks, others, order⟩ => .done ?_
    rcases argument with ⟨e, phrase, none, same, -⟩ | ⟨k, phrase, -, same⟩
    · exact ⟨_, _, .positional commaKind phrase others, .inl none⟩
    · rw [same] at order
      obtain rfl : es = [] := order.resolve_left (by simp)
      exact ⟨_, _, .named commaKind phrase others, .inr rfl⟩

theorem argument_online : ∀ (n : Nat) {function : Token} {positional : List Expr}
    {keywords : List KeywordArgument} {c : Cursor}, Online 5 (Viable (IsArgument g keywords))
      (fun m => argument g m function positional keywords) n c
  | 0, _, _, _, _ => .deep (by rw [argument])
  | n + 1, function, positional, keywords, c => by
    refine .succ (fun m => by rw [argument]) ?_
    refine .peek fun start items rest => ?_
    have one {c : Cursor} := expression_online (c := c) n UnaryOperator.one_le_precedence
    have positionalRead : Online 4 (Viable (IsArgument g keywords)) (fun m =>
        if keywords.isEmpty = true then
          expression g m 1 >>= fun value => Pure.pure (positional ++ [value], keywords)
        else halt (.fault (.positionalAfterKeyword function.name) start.token.span)) n c := by
      refine .ite (fun none => ?_) fun _ => .refuse positional_code
      refine (one.map _).weaken (Nat.le_refl _) fun ts good => ?_
      exact good.inside id (by simp) fun us value => .done (.inl ⟨value, List.isEmpty_iff.1 none⟩)
    by_cases isName : start.token.kind = .identifier
    · simp only [if_pos isName, pure_then]
      refine .peekSecond rest (fun second others _ m => ?_) fun second others behind => ?_
      · split
        · exact .refuse (unsupported_code _)
        split
        · exact .of_advance (ne_end isName) fun _ => rfl
        split
        · exact (takes_expression isName m 1).map _
        · exact .refuse positional_code
      refine .ite (fun _ => .refuse (unsupported_code _)) fun notRefused => ?_
      refine .ite (fun named => ?_) fun _ => positionalRead
      have signKind : second.kind = .assign := of_decide_eq_true named
      have allowed : g.keywordArguments = true := by
        simpa only [named, Bool.true_and, Bool.not_eq_true', Bool.not_eq_false] using notRefused
      refine .advance rest (ne_end isName) ?_
      refine .advance behind (ne_end signKind) ?_
      refine one.bind (by omega) (fun ts good => ?_) fun value c' ran => ?_
      · refine good.inside (start :: second :: ·) (by simp) fun us ⟨e, value⟩ => .done ?_
        exact .inr ⟨_, .mk allowed isName signKind value⟩
      obtain ⟨ts, took, -⟩ := expression_sound n UnaryOperator.one_le_precedence ran
      exact ⟨ts, took, (Online.spanFrom start.token).map _⟩
    · simp only [if_neg isName, pure_then]
      exact .ite nofun fun _ => .ite nofun fun _ => positionalRead

end

/-! ## Parts of statements -/

theorem skipSemicolon_online {need : Nat} {viable : List Item → Prop} {n : Nat} {c : Cursor} :
    Online need viable (fun _ => skipSemicolon) n c :=
  .peek fun _ _ rest => .ite (fun kind => .advance rest (ne_end kind) (.pure ())) fun _ => .pure ()

theorem assignment_online (n : Nat) {start : Token} {mode : AssignMode} {c : Cursor} :
    Online 0 (Viable (IsTarget g)) (fun m => assignment g m start mode) n c := by
  refine .expect (by decide) viable_target fun name c₁ _ nameKind => ?_
  refine .expect (by decide) (viable_sign nameKind) fun sign c₂ _ signKind => ?_
  refine (expression_online n UnaryOperator.one_le_precedence).bind (by omega) (fun us good => ?_)
    fun value c₃ ran => ?_
  · exact good.inside _ (by simp) fun vs value => .done (value.assigned nameKind signKind)
  obtain ⟨ts, took, -⟩ := expression_sound n UnaryOperator.one_le_precedence ran
  exact ⟨ts, took, (Online.spanFrom start).map _⟩

theorem loopStep_online (n : Nat) {c : Cursor} :
    Online 0 (Viable (IsLoopStep g)) (loopStep g) n c := by
  refine .peek fun word items rest => .ite (fun wordKind => ?_) fun _ => .pure none
  refine .advance rest (ne_end wordKind) ?_
  refine ((expression_online n UnaryOperator.one_le_precedence).map _).weaken (by omega) ?_
  exact fun us good => good.inside _ (by simp) fun vs ⟨e, value⟩ => .done ⟨_, .given wordKind value⟩

/-- Whatever comes behind further parts of a choice continues it. -/
theorem furtherBranches_taken (n : Nat) {c c' : Cursor} {bs : List Branch}
    (ran : furtherBranches g n c = .ok (bs, c')) : ∃ ts, Took ts c c' ∧
      ∀ us, AreAlternatives g us → AreAlternatives g (ts ++ us) := by
  induction n generalizing c c' bs with
  | zero =>
    rw [furtherBranches] at ran
    exact absurd ran halt_ne_ok
  | succ n ih =>
    rw [furtherBranches, bind_eq_ok] at ran
    obtain ⟨t, c₁, peeked, ran⟩ := ran
    obtain ⟨word, items, rest, rfl, rfl⟩ := peek_eq_ok peeked
    rw [ite_eq_ok] at ran
    rcases ran with ⟨wordKind, ran⟩ | ⟨-, ran⟩
    · simp only [bind_eq_ok, pure_eq_ok] at ran
      obtain ⟨_, c₂, advanced, b, c₃, ranFirst, bs, c₄, ranOthers, rfl, rfl⟩ := ran
      obtain ⟨rfl, rfl⟩ := advance_of_kind_eq_ok rest wordKind advanced
      obtain ⟨ts, closing, items', tookFirst, -, -, first⟩ :=
        branch_sound n (.of_rest rest) ranFirst
      obtain ⟨us, tookOthers, onwards⟩ := ih ranOthers
      refine ⟨word :: (ts ++ us),
        took_cons.2 ⟨_, .of_rest rest, tookFirst.trans tookOthers⟩, fun vs others => ?_⟩
      rw [List.cons_append, List.append_assoc]
      exact first.anyEnd.followed wordKind (onwards vs others)
    · obtain ⟨rfl, rfl⟩ := pure_eq_ok.1 ran
      exact ⟨[], .refl _, fun _ others => others⟩

theorem otherwise_taken : ∀ (n : Nat) {c c' : Cursor} {otherwise : Option Block},
    Parser.otherwise g n c = .ok (otherwise, c') →
      ∃ ts, Took ts c c' ∧ Viable (AreAlternatives g) ts
  | 0, _, _, _, ran => by
    rw [Parser.otherwise] at ran
    exact absurd ran halt_ne_ok
  | n + 1, c, c', otherwise, ran => by
    rw [Parser.otherwise, bind_eq_ok] at ran
    obtain ⟨t, c₂, peeked, ran⟩ := ran
    obtain ⟨word, items, rest, rfl, rfl⟩ := peek_eq_ok peeked
    rw [ite_eq_ok] at ran
    rcases ran with ⟨wordKind, ran⟩ | ⟨-, ran⟩
    · simp only [bind_eq_ok, pure_eq_ok] at ran
      obtain ⟨_, c₃, advanced, b, c₄, ranBody, span, c₅, spanned, rfl, rfl⟩ := ran
      obtain ⟨rfl, rfl⟩ := advance_of_kind_eq_ok rest wordKind advanced
      obtain ⟨ts, closing, items', took, -, -, phrase, -⟩ := block_sound n ranBody
      obtain ⟨rfl, rfl⟩ := spanFrom_eq_ok.1 spanned
      exact ⟨word :: ts, took_cons.2 ⟨_, .of_rest rest, took⟩, phrase.anyEnd.otherwise wordKind⟩
    · obtain ⟨rfl, rfl⟩ := pure_eq_ok.1 ran
      exact ⟨[], .refl _, viable_alternatives⟩

/-! ## Statements -/

/-- A block and the token that closes it. -/
theorem enclosed_online {β : Type} {f : Block → Span → β} {start : Token} {kind : TokenKind}
    {expected : String} {need n : Nat} {viable : List Item → Prop} {c : Cursor}
    (read : Online 4 (Viable (AreStatements g)) (fun m => block g m [kind]) n c) (le : 4 ≤ need)
    (notEnd : kind ≠ .endOfInput) (onwards : ∀ us, Viable (AreStatements g) us → viable us) :
    Online need viable (fun m => block g m [kind] >>= fun body =>
      closing start kind expected >>= fun span => Pure.pure (f body span)) n c := by
  refine read.bind le onwards fun body c₁ ran => ?_
  obtain ⟨ts, last, items, took, -, -, phrase, -⟩ := block_sound n ran
  refine ⟨ts, took, (Online.closing notEnd ?_).map _⟩
  rw [List.append_nil]
  exact onwards ts (.done phrase.anyEnd)

mutual

theorem statements_online : ∀ (n : Nat) {ends : List TokenKind} {c : Cursor},
    Online 3 (Viable (AreStatements g)) (fun m => statements g m ends) n c
  | 0, _, _ => .deep (by rw [statements])
  | n + 1, ends, c => by
    refine .succ (fun m => by rw [statements]) ?_
    refine .peekComments fun comments => .peek fun start items rest => ?_
    refine .ite (fun _ => .pure _) fun _ => .ite (fun _ => .unexpected (.done areStatements_nil)) ?_
    intro _
    refine (statement_online n).bind (Nat.le_refl _) (fun us good => ?_) fun first c₁ ran => ?_
    · exact good.inside _ (by simp) fun vs statement => .done statement.alone
    obtain ⟨word, ts, took, phrase⟩ := statement_sound n ran
    refine ⟨word :: ts, took, skipSemicolon_online.bind (Nat.le_refl _) (fun _ good => good) ?_⟩
    intro _ c₂ skipped
    obtain ⟨separator, tookSeparator, separated⟩ := skipSemicolon_sound skipped
    refine ⟨separator, tookSeparator, ((statements_online n).map _).weaken ?_ fun us good => ?_⟩
    · rw [List.length_cons]
      omega
    have statement : IsStatement g (word :: ts) := ⟨first, phrase⟩
    exact good.inside _ (by simp) fun vs others => .done (statement.followed separated others)

theorem block_online : ∀ (n : Nat) {ends : List TokenKind} {c : Cursor},
    Online 4 (Viable (AreStatements g)) (fun m => block g m ends) n c
  | 0, _, _ => .deep (by rw [block])
  | n + 1, ends, c => by
    refine .succ (fun m => by rw [block]) ?_
    refine .peek fun start items rest => ?_
    refine (statements_online n).bind (Nat.le_refl _) (fun _ good => good) fun body c₁ ran => ?_
    obtain ⟨ts, closing, items', took, -⟩ := statements_sound n ran
    exact ⟨ts, took, (Online.spanFrom start.token).map _⟩

theorem branch_online : ∀ (n : Nat) {start : Token} {c : Cursor},
    Online 5 (Viable (IsGuarded g)) (fun m => branch g m start) n c
  | 0, _, _ => .deep (by rw [branch])
  | n + 1, start, c => by
    refine .succ (fun m => by rw [branch]) ?_
    refine delimited_online (expression_online n UnaryOperator.one_le_precedence) (by omega)
      (by decide) (fun us good => ?_) fun cs condition thenWord c₂ test thenKind => ?_
    · exact good.inside _ (by simp) fun vs test => test.guarding
    refine (block_online n).bind (by omega) (fun us good => ?_) fun body c₃ ran => ?_
    · exact good.inside _ (by simp) fun vs inner => .done (inner.guarded test thenKind)
    obtain ⟨ts, closing, items, took, -⟩ := block_sound n ran
    exact ⟨ts, took, (Online.spanFrom start).map _⟩

theorem furtherBranches_online : ∀ (n : Nat) {c : Cursor},
    Online 1 (Viable (AreAlternatives g)) (furtherBranches g) n c
  | 0, _ => .deep (by rw [furtherBranches])
  | n + 1, c => by
    refine .succ (fun m => by rw [furtherBranches]) ?_
    refine .peek fun word items rest => .ite (fun wordKind => ?_) fun _ => .pure []
    refine .advance rest (ne_end wordKind) ?_
    refine (branch_online n).bind (by omega) (fun us good => ?_) fun first c₁ ran => ?_
    · exact good.inside _ (by simp) fun vs first => first.alternative wordKind
    obtain ⟨ts, closing, items', took, -, -, phrase⟩ := branch_sound n (.of_rest rest) ran
    refine ⟨ts, took, ((furtherBranches_online n).map _).weaken (by omega) fun us good => ?_⟩
    exact good.inside _ (by simp) fun vs others => .done (phrase.anyEnd.followed wordKind others)

theorem otherwise_online : ∀ (n : Nat) {c : Cursor},
    Online 1 (Viable (AreAlternatives g)) (Parser.otherwise g) n c
  | 0, _ => .deep (by rw [Parser.otherwise])
  | n + 1, c => by
    refine .succ (fun m => by rw [Parser.otherwise]) ?_
    refine .peek fun word items rest => .ite (fun wordKind => ?_) fun _ => .pure none
    refine .advance rest (ne_end wordKind) ?_
    refine (block_online n).bind (by omega) (fun us good => ?_) fun body c₁ ran => ?_
    · exact good.inside _ (by simp) fun vs inner => inner.otherwise wordKind
    obtain ⟨ts, closing, items', took, -⟩ := block_sound n ran
    exact ⟨ts, took, (Online.spanFrom word.token).map _⟩

theorem statement_online : ∀ (n : Nat) {c : Cursor},
    Online 2 (Viable (IsStatement g)) (statement g) n c
  | 0, _ => .deep (by rw [statement])
  | n + 1, c => by
    refine .succ (fun m => by rw [statement]) ?_
    refine .peek fun word items rest => ?_
    cases kind : word.token.kind
    case ifWord =>
      refine .advance rest (ne_end kind) ?_
      refine (branch_online n).bind (by omega) (fun us good => ?_) fun first c₁ ran => ?_
      · exact good.inside _ (by simp) fun vs first => first.choosing kind
      obtain ⟨ts, closing, items₁, tookFirst, -, -, phrase⟩ := branch_sound n (.of_rest rest) ran
      refine ⟨ts, tookFirst, ?_⟩
      have chosen (us : List Item) (good : Viable (AreAlternatives g) us) :
          Viable (IsStatement g) (word :: (ts ++ us)) :=
        good.inside _ (by simp) fun vs others => .done (phrase.anyEnd.chosen kind others)
      refine (furtherBranches_online n).bind (by omega) chosen fun more c₂ ran => ?_
      obtain ⟨us, tookMore, onwards⟩ := furtherBranches_taken n ran
      have further (vs : List Item) (good : Viable (AreAlternatives g) vs) :
          Viable (IsStatement g) (word :: (ts ++ (us ++ vs))) :=
        chosen _ (good.inside _ (by simp) fun vs others => .done (onwards vs others))
      refine ⟨us, tookMore, (otherwise_online n).bind (by omega) further fun last c₃ ran => ?_⟩
      obtain ⟨vs, tookLast, good⟩ := otherwise_taken n ran
      refine ⟨vs, tookLast, (Online.closing (by decide) ?_).map _⟩
      rw [List.append_nil]
      exact further vs good
    case whileWord =>
      refine .advance rest (ne_end kind) ?_
      refine .ite (fun _ => .refuse (unsupported_code _)) fun notRefused => ?_
      have allowed : g.loops = true := by
        simpa only [Bool.not_eq_true', Bool.not_eq_false] using notRefused
      refine delimited_online (expression_online n UnaryOperator.one_le_precedence) (by omega)
        (by decide) (fun us good => ?_) fun cs condition doWord c₂ test doKind => ?_
      · exact good.inside _ (by simp) fun vs test => test.repeating allowed kind
      refine enclosed_online (block_online n) (by omega) (by decide) fun us good => ?_
      exact good.inside _ (by simp) fun vs inner => inner.repeated allowed kind test doKind
    case forWord =>
      refine .advance rest (ne_end kind) ?_
      refine .ite (fun _ => .refuse (unsupported_code _)) fun notRefused => ?_
      have allowed : g.loops = true := by
        simpa only [Bool.not_eq_true', Bool.not_eq_false] using notRefused
      refine .expect (by decide) (viable_counter allowed kind) fun counter c₁ _ counterKind => ?_
      refine .expect (by decide) (viable_assign allowed kind counterKind) fun sign c₂ _ signKind =>
        ?_
      refine delimited_online (expression_online n UnaryOperator.one_le_precedence) (by omega)
        (by decide) (fun us good => ?_) fun fs first toWord c₄ start toKind => ?_
      · exact good.inside _ (by simp) fun vs start =>
          start.starting allowed kind counterKind signKind
      refine (expression_online n UnaryOperator.one_le_precedence).bind (by omega)
        (fun us good => ?_) fun last c₅ ran => ?_
      · exact good.inside _ (by simp) fun vs stop =>
          stop.counting allowed kind counterKind signKind start toKind
      obtain ⟨ls, tookLast, stop, -⟩ := expression_sound n UnaryOperator.one_le_precedence ran
      have stop : IsExpression g 1 ls := ⟨last, stop⟩
      have counting (us : List Item) (good : Viable (IsLoopStep g) us) : Viable (IsStatement g)
          (word :: counter :: sign :: (fs ++ toWord :: (ls ++ us))) :=
        good.inside _ (by simp) fun vs step =>
          step.counting allowed kind counterKind signKind start toKind stop
      refine ⟨ls, tookLast, (loopStep_online n).bind (by omega) counting fun step c₆ ran => ?_⟩
      obtain ⟨ss, tookStep, increment⟩ := loopStep_sound ran
      have increment : IsLoopStep g ss := ⟨step, increment⟩
      refine ⟨ss, tookStep, .expect (by decide) ?_ fun doWord c₇ _ doKind => ?_⟩
      · rw [List.append_nil]
        exact counting ss (.done increment)
      refine enclosed_online (block_online n) (by omega) (by decide) fun us good => ?_
      exact good.inside _ (by simp) fun vs inner =>
        inner.counted allowed kind counterKind signKind start toKind stop increment doKind
    case beginWord =>
      refine .advance rest (ne_end kind) ?_
      refine enclosed_online (block_online n) (by omega) (by decide) fun us good => ?_
      exact good.inside _ (by simp) fun vs inner => inner.enclosed kind
    case letWord =>
      refine .advance rest (ne_end kind) ((assignment_online n).weaken (by omega) fun us good => ?_)
      exact good.inside _ (by simp) fun vs ⟨name, e, target⟩ => .done ⟨_, .letAssign kind target⟩
    case setWord =>
      refine .advance rest (ne_end kind) ((assignment_online n).weaken (by omega) fun us good => ?_)
      exact good.inside _ (by simp) fun vs ⟨name, e, target⟩ => .done ⟨_, .setAssign kind target⟩
    case returnWord => exact .advance rest (ne_end kind) (.pure _)
    case identifier =>
      have called (us : List Item) (good : Viable (IsCall g) us) : Viable (IsStatement g) us :=
        good.inside _ (by simp) fun vs called => .done called.statement
      refine .peekSecond rest (fun second others _ m => ?_) fun second others _ => ?_
      · split
        · exact takes_assignment kind m _ _
        split
        · exact (takes_call kind m).map _
        · exact .of_advance (ne_end kind) fun _ => rfl
      refine .ite (fun _ => ?_) fun _ => .ite (fun _ => ?_) fun _ => ?_
      · refine (assignment_online n).weaken (by omega) fun us good => ?_
        exact good.inside _ (by simp) fun vs target => .done target.statement
      · exact ((call_online n).map _).weaken (Nat.le_refl _) called
      · exact .advance rest (ne_end kind) (.unexpected (called _ (viable_opening kind)))
    all_goals exact .unexpected viable_statement

end

end

end InstallScript
