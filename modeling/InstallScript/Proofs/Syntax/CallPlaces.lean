import InstallScript.Proofs.Run.Trace
import InstallScript.Proofs.Syntax.KeptComments

/-!
Where the calls of a script end. Each call ends at a closing parenthesis of its own, behind those of
the calls in its arguments, and the calls of one phrase end before those of the next. So in the
order in which a script without loops would make them, all calls of the script end one behind the
other (`Block.calls_end_in_order`).
-/

namespace InstallScript

/-! ## All calls of a tree -/

mutual

/-- The calls in a statement and in its blocks. -/
def Stmt.allCalls : Stmt → List Call
  | .assign _ _ _ value => value.calls
  | .call c => c.calls
  | .choice _ branches none => branchesCalls branches
  | .choice _ branches (some otherwise) => branchesCalls branches ++ otherwise.allCalls
  | .whileLoop _ condition body => condition.calls ++ body.allCalls
  | .forLoop _ _ first last step body =>
    first.calls ++ (last.calls ++ ((step.map Expr.calls).getD [] ++ body.allCalls))
  | .block body => body.allCalls
  | .ret _ => []
  | .comment _ _ => []

/-- The calls in branches: of each its guard and its body. -/
def branchesCalls : List Branch → List Call
  | [] => []
  | .mk _ condition body :: rest => condition.calls ++ (body.allCalls ++ branchesCalls rest)

/-- The calls in a block. -/
def Block.allCalls : Block → List Call
  | .mk _ statements => stmtsCalls statements

/-- The calls in statements, one behind another. -/
def stmtsCalls : List Stmt → List Call
  | [] => []
  | s :: rest => s.allCalls ++ stmtsCalls rest

end

theorem stmtsCalls_append (ss ss' : List Stmt) :
    stmtsCalls (ss ++ ss') = stmtsCalls ss ++ stmtsCalls ss' := by
  induction ss with
  | nil => rw [stmtsCalls, List.nil_append, List.nil_append]
  | cons s ss ih => rw [List.cons_append, stmtsCalls, stmtsCalls, ih, List.append_assoc]

/-- There are no calls in comments. -/
theorem stmtsCalls_comments (comments : List Token) :
    stmtsCalls (comments.map Parser.commentStmt) = [] := by
  induction comments with
  | nil => rw [List.map_nil, stmtsCalls]
  | cons t comments ih =>
    rw [List.map_cons, stmtsCalls, ih, Parser.commentStmt, Stmt.allCalls, List.nil_append]

theorem Stmt.allCalls_choice (span : Span) (bs : List Branch) (otherwise : Option Block) :
    (Stmt.choice span bs otherwise).allCalls =
      branchesCalls bs ++ (otherwise.map Block.allCalls).getD [] := by
  cases otherwise with
  | none => rw [Stmt.allCalls, Option.map_none, Option.getD_none, List.append_nil]
  | some b => rw [Stmt.allCalls, Option.map_some, Option.getD_some]

theorem branchesCalls_cons (b : Branch) (bs : List Branch) :
    branchesCalls (b :: bs) = branchesCalls [b] ++ branchesCalls bs := by
  obtain ⟨span, condition, body⟩ := b
  rw [branchesCalls, branchesCalls, branchesCalls, List.append_nil, List.append_assoc]

theorem callsOfKeywords_cons (k : KeywordArgument) (ks : List KeywordArgument) :
    callsOfKeywords (k :: ks) = callsOfKeywords [k] ++ callsOfKeywords ks := by
  obtain ⟨span, name, e⟩ := k
  rw [callsOfKeywords, callsOfKeywords, callsOfKeywords, List.append_nil]

/-! ## Closing parentheses -/

/-- Where the closing parentheses among some items end. -/
def parenthesisEnds (ts : List Item) : List Location :=
  (ts.filter (·.kind = .rightParen)).map (·.token.span.stop)

/-- Where calls end. -/
def callEnds (calls : List Call) : List Location := calls.map (·.span.stop)

/-- The calls end, in their order, at closing parentheses of the items, each at its own. -/
def EndIn (calls : List Call) (ts : List Item) : Prop :=
  (callEnds calls).Sublist (parenthesisEnds ts)

namespace EndIn

variable {calls calls' : List Call} {ts us : List Item} {item : Item}

theorem nil : EndIn [] ts := List.nil_sublist _

theorem append (left : EndIn calls ts) (right : EndIn calls' us) :
    EndIn (calls ++ calls') (ts ++ us) := by
  unfold EndIn callEnds parenthesisEnds
  rw [List.map_append, List.filter_append, List.map_append]
  exact List.Sublist.append left right

/-- Items may stand in front. -/
theorem behind (ts : List Item) (ends : EndIn calls us) : EndIn calls (ts ++ us) :=
  EndIn.nil.append ends

theorem cons (item : Item) (ends : EndIn calls us) : EndIn calls (item :: us) :=
  ends.behind [item]

/-- Items may follow. -/
theorem before (us : List Item) (ends : EndIn calls ts) : EndIn calls (ts ++ us) := by
  have both := ends.append (show EndIn [] us from .nil)
  rwa [List.append_nil] at both

/-- A call ends at its closing parenthesis. -/
theorem closing {c : Call} (kind : item.kind = .rightParen)
    (stop : c.span.stop = item.token.span.stop) : EndIn [c] [item] := by
  have kept : parenthesisEnds [item] = callEnds [c] := by
    have only : [item].filter (·.kind = .rightParen) = [item] := by simp [kind]
    rw [parenthesisEnds, only, callEnds, List.map_singleton, List.map_singleton, stop]
  rw [EndIn, kept]

end EndIn

/-! ## Phrases -/

namespace Phrase

variable {g : Grammar}

mutual

theorem Expression.callsEnd {level : Nat} {ts : List Item} {e : Expr} :
    Expression g level ts e → EndIn e.calls ts
  | .binary _ _ left right => left.callsEnd.append (right.callsEnd.cons _)
  | .tighter _ inner => inner.callsEnd
  | .operand inner => inner.callsEnd

theorem Operand.callsEnd {ts : List Item} {e : Expr} : Operand g ts e → EndIn e.calls ts
  | .unary _ inner => inner.callsEnd.cons _
  | .literal _ => .nil
  | .variable _ => .nil
  | .call inner => inner.callsEnd
  | .parentheses _ _ inner => (inner.callsEnd.before _).cons _

/-- A call ends behind the calls in its arguments. -/
theorem FunctionCall.callsEnd {ts : List Item} {c : Call} :
    FunctionCall g ts c → EndIn c.calls ts
  | .bare _ _ closingKind => ((EndIn.closing closingKind rfl).cons _).cons _
  | @FunctionCall.applied _ name opening closing ts positional keywords _ _ closingKind inner => by
    have stop : (name.token.through none (opening :: (ts ++ [closing]))).stop =
        closing.token.span.stop := by
      rw [Token.through, lastToken, ← List.cons_append, List.getLast?_concat]
      rfl
    have both := inner.callsEnd.append (EndIn.closing (c := .mk
      (name.token.through none (opening :: (ts ++ [closing]))) name.token.name positional keywords)
      closingKind stop)
    rw [List.append_assoc] at both
    exact (both.cons opening).cons name

theorem Arguments.callsEnd {ts : List Item} {es : List Expr} {ks : List KeywordArgument} :
    Arguments g ts es ks → EndIn (callsOfAll es ++ callsOfKeywords ks) ts
  | .lastPositional argument => by
    rw [callsOfAll, callsOfAll, callsOfKeywords, List.append_nil, List.append_nil]
    exact argument.callsEnd
  | .lastNamed argument => by
    rw [callsOfAll, List.nil_append]
    exact argument.callsEnd
  | .positional _ argument others => by
    rw [callsOfAll, List.append_assoc]
    exact argument.callsEnd.append (others.callsEnd.cons _)
  | .named _ argument others => by
    have behind := others.callsEnd
    rw [callsOfAll, List.nil_append] at behind ⊢
    rw [callsOfKeywords_cons]
    exact argument.callsEnd.append (behind.cons _)

theorem Named.callsEnd {ts : List Item} {k : KeywordArgument} :
    Named g ts k → EndIn (callsOfKeywords [k]) ts
  | .mk _ _ _ value => by
    rw [callsOfKeywords, callsOfKeywords, List.append_nil]
    exact (value.callsEnd.cons _).cons _

end

theorem LoopStep.callsEnd {ts : List Item} {step : Option Expr} (phrase : LoopStep g ts step) :
    EndIn ((step.map Expr.calls).getD []) ts := by
  cases phrase with
  | none => exact .nil
  | given _ value => exact value.callsEnd.cons _

theorem Target.callsEnd {ts : List Item} {name : String} {e : Expr}
    (phrase : Target g ts name e) : EndIn e.calls ts := by
  obtain ⟨-, -, value⟩ := phrase
  exact (value.callsEnd.cons _).cons _

mutual

theorem Statement.callsEnd {ts : List Item} {s : Stmt} : Statement g ts s → EndIn s.allCalls ts
  | .assign target => target.callsEnd
  | .letAssign _ target => target.callsEnd.cons _
  | .setAssign _ target => target.callsEnd.cons _
  | .call inner => inner.callsEnd
  | .choice _ first others => by
    rw [Stmt.allCalls_choice, branchesCalls_cons, List.append_assoc]
    exact (first.callsEnd.append others.callsEnd).cons _
  | .whileLoop _ _ test _ inner _ => by
    rw [Stmt.allCalls]
    exact (test.callsEnd.append ((inner.callsEnd.before _).cons _)).cons _
  | @Statement.forLoop _ _ _ _ toWord doWord closing _ _ _ _ _ _ _ _ _ _ _ _ start _ stop increment
      _ inner _ => by
    rw [Stmt.allCalls]
    have body := increment.callsEnd.append ((inner.callsEnd.before [closing]).cons doWord)
    have bounds := start.callsEnd.append ((stop.callsEnd.append body).cons toWord)
    exact ((bounds.cons _).cons _).cons _
  | .block _ inner _ => (inner.callsEnd.before _).cons _
  | .ret _ => .nil

theorem Statements.callsEnd {ts : List Item} {closing : Item} {ss : List Stmt} :
    Statements g ts closing ss → EndIn (stmtsCalls ss) ts
  | .nil => by
    rw [stmtsCalls_comments]
    exact .nil
  | .cons statement _ others => by
    rw [stmtsCalls_append, stmtsCalls_comments, List.nil_append, stmtsCalls]
    exact statement.callsEnd.append (others.callsEnd.behind _)

theorem Body.callsEnd {before : Option Token} {ts : List Item} {closing : Item} {b : Block} :
    Body g before ts closing b → EndIn b.allCalls ts
  | .mk inner => inner.callsEnd

theorem Guarded.callsEnd {word closing : Item} {ts : List Item} {b : Branch} :
    Guarded g word ts closing b → EndIn (branchesCalls [b]) ts
  | .mk test _ inner => by
    rw [branchesCalls, branchesCalls, List.append_nil]
    exact test.callsEnd.append (inner.callsEnd.cons _)

theorem Alternatives.callsEnd {items : List Item} {bs : List Branch} {otherwise : Option Block} :
    Alternatives g items bs otherwise →
      EndIn (branchesCalls bs ++ (otherwise.map Block.allCalls).getD []) items
  | .done _ => .nil
  | .otherwise _ inner _ => (inner.callsEnd.before _).cons _
  | .guarded _ first others => by
    rw [branchesCalls_cons, List.append_assoc]
    exact (first.callsEnd.append others.callsEnd).cons _

end

theorem Script.callsEnd {items : List Item} {b : Block} (phrase : Script g items b) :
    EndIn b.allCalls items := by
  obtain ⟨inner, -⟩ := phrase
  exact inner.callsEnd.before _

end Phrase

/-! ## Scripts -/

/-- Closing parentheses lie one behind the other. -/
theorem InOrder.parenthesisEnds {items : List Item} (ordered : InOrder items) :
    (parenthesisEnds items).Pairwise fun l l' => l.offset < l'.offset := by
  rw [InstallScript.parenthesisEnds, List.pairwise_map]
  refine (List.Pairwise.filter _ ordered).imp_of_mem fun {_ item} _ member both => ?_
  have kind : item.kind = .rightParen := by simpa using (List.mem_filter.1 member).2
  exact both.2 (by simp [kind])

/-- All calls of a script that is read from a text end one behind the other. -/
theorem Block.calls_end_in_order {g : Grammar} {source : Source} {script : Block}
    (words : g.WordsOnly) (parsed : Block.ofSource g source = .ok script) :
    script.allCalls.Pairwise fun c d => c.span.stop.offset < d.span.stop.offset := by
  have ordered := (TokenStream.ofSource_laid words source).tiles_text.inOrder
  obtain ⟨-, phrase⟩ := Block.script_of_source words parsed
  have apart := ordered.parenthesisEnds.sublist phrase.callsEnd
  rwa [callEnds, List.pairwise_map] at apart

end InstallScript
