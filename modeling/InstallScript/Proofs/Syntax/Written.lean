import InstallScript.Proofs.Syntax.Tokens

/-!
The tokens of a printed tree. `Expr.marks`, `Stmt.marks` and `Block.marks` say which tokens a tree
is written with, in order and without places. If the names, numbers and comments of the tree are
such as can be written (`Expr.Writable`, `Stmt.Writable`), the printed text is read as these tokens.
-/

namespace InstallScript

/-- The mark of a token that stands for nothing but its kind. -/
def Mark.word (kind : TokenKind) : Mark := ⟨kind, .nothing⟩

/-! ## Expressions -/

/-- Tokens in parentheses if they hold together less tightly than they have to. -/
def enclosed (tightness least : Nat) (ms : List Mark) : List Mark :=
  if tightness < least then .word .leftParen :: (ms ++ [.word .rightParen]) else ms

/-- The token of a literal. -/
def Literal.mark : Literal → Mark
  | number n => .of .numberLiteral (.number n)
  | string s => .of .stringLiteral (.text s)
  | bool b => .of .boolLiteral (.bool b)

mutual

/-- The tokens of an expression. -/
def Expr.marks : Expr → List Mark
  | .literal _ value => [value.mark]
  | .var _ name => [.of .identifier (.text name)]
  | .call c => c.marks
  | .unary _ o e => .word o.kind :: enclosed e.tightness UnaryOperator.precedence e.marks
  | .binary _ o a b =>
    enclosed a.tightness o.precedence a.marks ++
      .word o.kind :: enclosed b.tightness (o.precedence + 1) b.marks

/-- The tokens of a call. -/
def Call.marks : Call → List Mark
  | .mk _ name arguments keywords =>
    .of .identifier (.text name) :: .word .leftParen ::
      ([.word .comma].intercalate (exprMarks arguments ++ keywordMarks keywords) ++
        [.word .rightParen])

/-- The tokens of several expressions. -/
def exprMarks : List Expr → List (List Mark)
  | [] => []
  | e :: rest => e.marks :: exprMarks rest

/-- The tokens of several named arguments. -/
def keywordMarks : List KeywordArgument → List (List Mark)
  | [] => []
  | .mk _ name value :: rest =>
    (.of .identifier (.text name) :: .word .assign :: value.marks) :: keywordMarks rest

end

/-- A literal that can be written. -/
def Literal.Writable : Literal → Prop
  | number n => n.IsLiteral
  | _ => True

mutual

/-- An expression that can be written in a version of the language. -/
def Expr.Writable (g : Grammar) : Expr → Prop
  | .literal _ value => value.Writable
  | .var _ name => IsName g name
  | .call c => c.Writable g
  | .unary _ _ e => e.Writable g
  | .binary _ _ a b => a.Writable g ∧ b.Writable g

/-- A call that can be written. -/
def Call.Writable (g : Grammar) : Call → Prop
  | .mk _ name arguments keywords =>
    IsName g name ∧ exprsWritable g arguments ∧ keywordsWritable g keywords

/-- Expressions that can be written. -/
def exprsWritable (g : Grammar) : List Expr → Prop
  | [] => True
  | e :: rest => e.Writable g ∧ exprsWritable g rest

/-- Named arguments that can be written. -/
def keywordsWritable (g : Grammar) : List KeywordArgument → Prop
  | [] => True
  | .mk _ name value :: rest =>
    g.keywordArguments = true ∧ IsName g name ∧ value.Writable g ∧ keywordsWritable g rest

end

/-- A text is read as tokens whatever follows it, as long as that is apart from it. -/
def Spells (g : Grammar) (text : String) (ms : List Mark) : Prop :=
  ∀ rest, Apart rest → Reads g (text.toList ++ rest) ms rest

section

variable {g : Grammar}

theorem Apart.space (rest : List Char) : Apart (' ' :: rest) := .cons (by decide)

theorem Apart.line (rest : List Char) : Apart ('\n' :: rest) := .cons (by decide)

theorem Reads.space {cs rest : List Char} {ms : List Mark} (more : Reads g cs ms rest) :
    Reads g (' ' :: cs) ms rest := .gap rfl more

/-- A keyword spells its kind. -/
theorem spells_keyword {entry : String × TokenKind}
    (member : entry ∈ Grammar.coreKeywords ++ Grammar.loopKeywords)
    (found : g.keyword? entry.1 = some entry.2) (noValue : entry.2 ∉ valuedKinds) :
    Spells g entry.1 [.word entry.2] := by
  have areWords : (Grammar.coreKeywords ++ Grammar.loopKeywords).all (fun entry =>
      entry.1.toList.all isNamePart && entry.1.toList.head?.any isNameStart) = true := by
    decide
  have isWord := List.all_eq_true.1 areWords entry member
  obtain ⟨parts, start⟩ := Bool.and_eq_true_iff.1 isWord
  rw [List.all_eq_true] at parts
  cases eq : entry.1.toList with
  | nil =>
    rw [eq] at start
    cases start
  | cons c cs =>
    rw [eq] at parts start
    exact fun rest apart => .keyword eq start parts found noValue apart

theorem spells_core (standard : g.Standard) {word : String} {kind : TokenKind}
    (member : (word, kind) ∈ Grammar.coreKeywords := by decide)
    (noValue : kind ∉ valuedKinds := by decide) : Spells g word [.word kind] :=
  spells_keyword (List.mem_append_left _ member) (keyword_core standard member) noValue

theorem spells_loop (loopWords : g.HasLoopWords) {word : String} {kind : TokenKind}
    (member : (word, kind) ∈ Grammar.loopKeywords := by decide) : Spells g word [.word kind] := by
  have noValue : ∀ entry ∈ Grammar.loopKeywords, entry.2 ∉ valuedKinds := by decide
  exact spells_keyword (List.mem_append_right _ member) (keyword_loop loopWords member)
    (noValue _ member)

theorem spells_truth (standard : g.Standard) (b : Bool) :
    Spells g (if b then "true" else "false") [.of .boolLiteral (.bool b)] := by
  intro rest apart
  cases b with
  | false =>
    exact .truth (c := 'f') rfl rfl (List.all_eq_true.1 rfl) (keyword_core standard (by decide)) rfl
      apart
  | true =>
    exact .truth (c := 't') rfl rfl (List.all_eq_true.1 rfl) (keyword_core standard (by decide)) rfl
      apart

/-- An operator between its operands. -/
theorem reads_operator (standard : g.Standard) (o : BinaryOperator) (rest : List Char) :
    Reads g (o.symbol.toList ++ ' ' :: rest) [.word o.kind] (' ' :: rest) := by
  have word {text : String} {kind : TokenKind} (member : (text, kind) ∈ Grammar.coreKeywords)
      (noValue : kind ∉ valuedKinds) :
      Reads g (text.toList ++ ' ' :: rest) [.word kind] (' ' :: rest) :=
    spells_core standard member noValue _ (.space rest)
  cases o with
  | or => exact word (by decide) (by decide)
  | and => exact word (by decide) (by decide)
  | eq => exact @Reads.token g '=' ['='] _ _ .eq (.text "==") [] rfl rfl nofun .refl
  | ne => exact @Reads.token g '!' ['='] _ _ .ne (.text "!=") [] rfl rfl nofun .refl
  | lt => exact @Reads.single g '<' _ .lt (.text "<") rfl rfl nofun
  | gt => exact @Reads.single g '>' _ .gt (.text ">") rfl rfl nofun
  | le => exact @Reads.token g '<' ['='] _ _ .le (.text "<=") [] rfl rfl nofun .refl
  | ge => exact @Reads.token g '>' ['='] _ _ .ge (.text ">=") [] rfl rfl nofun .refl
  | plus => exact @Reads.single g '+' _ .plus (.text "+") rfl rfl nofun
  | minus => exact @Reads.single g '-' _ .minus (.text "-") rfl rfl nofun
  | star => exact @Reads.single g '*' _ .star (.text "*") rfl rfl nofun
  | slash => exact @Reads.single g '/' _ .slash (.text "/") rfl rfl nofun
  | percent => exact @Reads.single g '%' _ .percent (.text "%") rfl rfl nofun

theorem spells_name {name : String} (isName : IsName g name) :
    Spells g name [.of .identifier (.text name)] :=
  fun _ apart => .name isName apart

theorem spells_literal (standard : g.Standard) {value : Literal} (writable : value.Writable) :
    Spells g value.text [value.mark] := by
  cases value with
  | number n => exact fun _ apart => .number writable apart
  | string s => exact fun rest _ => .string s rest
  | bool b => exact spells_truth standard b

theorem Spells.enclosed {text : String} {ms : List Mark} (spells : Spells g text ms)
    (tightness least : Nat) :
    Spells g (parenthesized tightness least text) (enclosed tightness least ms) := by
  intro rest apart
  unfold parenthesized InstallScript.enclosed
  by_cases loose : tightness < least
  · rw [if_pos loose, if_pos loose]
    have inside : Reads g (text.toList ++ ')' :: rest) (ms ++ [.word .rightParen]) rest :=
      (spells _ (.cons (by decide))).trans (.symbol (by decide) rest)
    have written : ("(" ++ text ++ ")").toList ++ rest = '(' :: (text.toList ++ ')' :: rest) := by
      simp [String.toList_append]
    rw [written]
    exact Reads.trans (.symbol (by decide) _) inside
  · rw [if_neg loose, if_neg loose]
    exact spells rest apart

/-- Texts with commas between them. -/
theorem spells_intercalate {texts : List String} {groups : List (List Mark)}
    (spells : List.Forall₂ (Spells g) texts groups) {rest : List Char} (apart : Apart rest) :
    Reads g ((", ".intercalate texts).toList ++ rest) ([.word .comma].intercalate groups) rest := by
  rw [String.toList_intercalate]
  induction spells with
  | nil => exact .refl
  | @cons text ms texts groups first others ih =>
    cases others with
    | nil =>
      rw [List.map_singleton, List.intercalate_singleton, List.intercalate_singleton]
      exact first rest apart
    | @cons text' ms' texts groups second others =>
      rw [List.map_cons, List.map_cons, List.intercalate_cons_cons, List.intercalate_cons_cons,
        List.append_assoc, List.append_assoc, List.append_assoc]
      have comma : Apart (", ".toList ++ ((", ".toList.intercalate
          ((text' :: texts).map String.toList)) ++ rest)) := .cons (by decide)
      refine (first _ comma).trans ?_
      exact Reads.trans (.symbol (by decide) _) ih.space

/-- A text that does not begin with a sign of equality. -/
def NoSignAhead (text : String) : Prop :=
  ∃ c cs, text.toList = c :: cs ∧ c ≠ '='

theorem NoSignAhead.append {text : String} (ahead : NoSignAhead text) (more : String) :
    NoSignAhead (text ++ more) := by
  obtain ⟨c, cs, eq, ne⟩ := ahead
  exact ⟨c, cs ++ more.toList, by rw [String.toList_append, eq, List.cons_append], ne⟩

theorem IsName.noSignAhead {name : String} (isName : IsName g name) : NoSignAhead name := by
  obtain ⟨c, cs, eq, start⟩ := isName.start
  refine ⟨c, cs, eq, ?_⟩
  rintro rfl
  cases start

theorem Literal.noSignAhead {value : Literal} (writable : value.Writable) :
    NoSignAhead value.text := by
  cases value with
  | number n =>
    obtain ⟨whole, fraction, mark, exponent, text, numeral, -⟩ := Number.text_spelled writable
    obtain ⟨d, ds, rfl⟩ := List.exists_cons_of_ne_nil numeral.wholeNonempty
    refine ⟨d, _, text, ?_⟩
    rintro rfl
    cases numeral.wholeDigits '=' List.mem_cons_self
  | string s => exact ⟨'"', _, String.toList_ofList, by decide⟩
  | bool b => cases b <;> exact ⟨_, _, rfl, by decide⟩

theorem Expr.noSignAhead : ∀ {e : Expr}, e.Writable g → NoSignAhead e.text
  | .literal _ value, writable => Literal.noSignAhead writable
  | .var _ name, writable => IsName.noSignAhead writable
  | .call (.mk _ name arguments keywords), writable => by
    rw [Expr.text, Call.text]
    exact ((IsName.noSignAhead writable.1).append _ |>.append _ |>.append _)
  | .unary _ o e, _ => by
    cases o with
    | not =>
      simp only [Expr.text]
      exact NoSignAhead.append ⟨'n', _, rfl, by decide⟩ _
    | minus =>
      simp only [Expr.text]
      exact NoSignAhead.append ⟨'-', _, rfl, by decide⟩ _
  | .binary _ o a b, writable => by
    have left : NoSignAhead (parenthesized a.tightness o.precedence a.text) := by
      unfold parenthesized
      split
      · exact (NoSignAhead.append ⟨'(', _, rfl, by decide⟩ _).append _
      · exact Expr.noSignAhead writable.1
    rw [Expr.text]
    exact (left.append _ |>.append _ |>.append _ |>.append _)

mutual

theorem Expr.spells (standard : g.Standard) : ∀ {e : Expr}, e.Writable g → Spells g e.text e.marks
  | .literal _ value, writable => spells_literal standard writable
  | .var _ name, writable => spells_name writable
  | .call c, writable => Call.spells standard writable
  | .unary _ o e, writable => by
    intro rest apart
    have spells : Spells g e.text e.marks := Expr.spells standard writable
    have inner := spells.enclosed e.tightness UnaryOperator.precedence
    rw [Expr.marks]
    cases o with
    | not =>
      simp only [Expr.text]
      rw [String.toList_append, List.append_assoc]
      have word : Spells g "not" [.word .notWord] := spells_core standard
      exact (word _ (.space _)).trans (inner rest apart).space
    | minus =>
      simp only [Expr.text]
      rw [String.toList_append, List.append_assoc]
      exact Reads.trans (.symbol (by decide) _) (inner rest apart)
  | .binary _ o a b, writable => by
    intro rest apart
    have left := (Expr.spells standard writable.1).enclosed a.tightness o.precedence
    have right := (Expr.spells standard writable.2).enclosed b.tightness (o.precedence + 1)
    rw [Expr.text, Expr.marks]
    simp only [String.toList_append, List.append_assoc]
    refine (left _ (.space _)).trans (Reads.space ?_)
    exact (reads_operator standard o _).trans (right rest apart).space

theorem Call.spells (standard : g.Standard) : ∀ {c : Call}, c.Writable g → Spells g c.text c.marks
  | .mk _ name arguments keywords, ⟨isName, argumentsWritable, keywordsWritable⟩ => by
    intro rest apart
    have texts : List.Forall₂ (Spells g) (exprTexts arguments ++ keywordTexts keywords)
        (exprMarks arguments ++ keywordMarks keywords) :=
      List.rel_append (exprs_spell standard argumentsWritable)
        (keywords_spell standard keywordsWritable)
    have closing : Apart (')' :: rest) := .cons (by decide)
    rw [Call.text, Call.marks]
    simp only [String.toList_append, List.append_assoc]
    refine (spells_name isName _ (.cons (by decide))).trans ?_
    refine Reads.trans (.symbol (by decide) _) ?_
    exact (spells_intercalate texts closing).trans (.symbol (by decide) rest)

theorem exprs_spell (standard : g.Standard) : ∀ {es : List Expr}, exprsWritable g es →
    List.Forall₂ (Spells g) (exprTexts es) (exprMarks es)
  | [], _ => .nil
  | _ :: _, ⟨first, others⟩ => .cons (Expr.spells standard first) (exprs_spell standard others)

theorem keywords_spell (standard : g.Standard) : ∀ {ks : List KeywordArgument},
    keywordsWritable g ks → List.Forall₂ (Spells g) (keywordTexts ks) (keywordMarks ks)
  | [], _ => .nil
  | .mk _ name value :: _, ⟨_, isName, writable, others⟩ => by
    refine .cons (fun rest apart => ?_) (keywords_spell standard others)
    obtain ⟨c, cs, eq, notSign⟩ := Expr.noSignAhead writable
    have single : (value.text.toList ++ rest).head? ≠ some '=' := by
      rw [eq]
      exact fun same => notSign (Option.some.inj same)
    simp only [String.toList_append, List.append_assoc]
    refine (spells_name isName _ (.cons (by decide))).trans ?_
    exact Reads.trans (.assign single) (Expr.spells standard writable rest apart)

end

end

end InstallScript
