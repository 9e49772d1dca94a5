import InstallScript.Proofs.Syntax.Complete
import InstallScript.Proofs.Syntax.Cores
import InstallScript.Proofs.Syntax.DocumentOrder
import InstallScript.Proofs.Syntax.Slices

/-!
What the spans of a tree delimit. Each lies in the text and holds those of its children, which do
not overlap. Two things are not as they might be. An empty body between two words ends before it
begins; and the span of an operator leaves out the parentheses around its operands, so the text that
it delimits is an expression only where it leaves out none: then it is read as an equal one
(`Block.spans_delimit`).
-/

namespace InstallScript

open InstallScript.Parser

/-! ## Expressions on their own -/

/-- Reads an expression and the end of the input. -/
def Parser.lone (g : Grammar) (n : Nat) : Parser Expr := do
  let e ← expression g n 1
  let _ ← expect .endOfInput "end of input"
  return e

/-- A text as an expression and nothing more, if it is one. -/
def Expr.ofSource? (g : Grammar) (source : Source) : Option Expr :=
  let items := groupComments [] (TokenStream.ofSource g source).tokens
  match Parser.lone g (Block.parseDepth items.length) ⟨items, none⟩ with
  | .ok (e, _) => some e
  | .error _ => none

section

variable {g : Grammar}

theorem lone_agrees (n : Nat) :
    Agrees (fun e e' => e.same e' = true) (lone g n) (lone g n) :=
  (expression_agrees g n 1).bind fun _ _ same =>
    (agrees_expect .endOfInput _).bind fun _ _ _ => .pure same

theorem lone_complete {ts : List Item} {closing : Item} {e : Expr}
    (phrase : Phrase.Expression g 1 ts e) (isEnd : closing.kind = .endOfInput) :
    ∃ c', lone g (Block.parseDepth (ts ++ [closing]).length) ⟨ts ++ [closing], none⟩ =
      .ok (e, c') := by
  have took : Took ts ⟨ts ++ [closing], none⟩ ⟨[closing], lastToken none ts⟩ := ⟨rfl, rfl⟩
  have room : 8 * ts.length + 1 ≤ Block.parseDepth (ts ++ [closing]).length := by
    rw [Block.parseDepth, List.length_append]
    omega
  have ran := expression_complete phrase took rfl (.of_kind isEnd 1) room
  exact ⟨_, by rw [lone, bind_of_ok ran, bind_of_ok (expect_end rfl isEnd), pure_apply]⟩

theorem lone_sound {n : Nat} {c c' : Cursor} {e : Expr} (ran : lone g n c = .ok (e, c')) :
    ∃ ts closing others, c.rest = ts ++ closing :: others ∧ Phrase.Expression g 1 ts e ∧
      closing.kind = .endOfInput := by
  rw [lone, bind_eq_ok] at ran
  obtain ⟨e', c₁, first, ran⟩ := ran
  rw [bind_eq_ok] at ran
  obtain ⟨t, c₂, ended, ran⟩ := ran
  obtain ⟨rfl, -⟩ := pure_eq_ok.1 ran
  obtain ⟨ts, took, phrase, -⟩ := expression_sound n (by decide) first
  obtain ⟨closing, others, rest, isEnd⟩ := expect_end_eq_ok ended
  exact ⟨ts, closing, others, by rw [took.rest, rest], phrase, isEnd⟩

theorem paired_end {kinds : List TokenKind} : Paired (kinds ++ [.endOfInput]) ↔ Paired kinds := by
  unfold Paired
  rw [openBehind?_append]
  cases openBehind? 0 kinds <;> exact Iff.rfl

/-- The parentheses of a text that is an expression pair up. -/
theorem Expr.paired_of_ofSource? (words : g.WordsOnly) (dropped : g.retainComments = false)
    {source : Source} {e : Expr} (read : Expr.ofSource? g source = some e) :
    Paired ((TokenStream.ofSource g source).tokens.map Token.kind) := by
  have tiles := (TokenStream.ofSource_laid words source).tiles_text
  have noComments : ∀ t ∈ (TokenStream.ofSource g source).tokens, t.kind ≠ .comment :=
    TokenStream.tokensFrom_dropped dropped _ _ _
  unfold Expr.ofSource? at read
  dsimp only at read
  split at read
  · rename_i ran
    obtain ⟨ts, closing, others, split, phrase, isEnd⟩ := lone_sound ran
    dsimp only at split
    rw [groupComments_eq_map noComments] at split
    obtain ⟨front, behind, tokens, rfl, rest⟩ := List.map_eq_append_iff.1 split
    obtain ⟨t, back, rfl, rfl, rfl⟩ := List.map_eq_cons_iff.1 rest
    have endKind : t.kind = .endOfInput := isEnd
    have once := tiles.endsOnce (tiles.finished_of_end (by simp [tokens]) endKind)
    rw [groupComments_eq_map noComments] at once
    obtain rfl := List.map_eq_nil_iff.1 (once.eq_nil split isEnd)
    rw [tokens, List.map_append, List.map_singleton, endKind, paired_end]
    have balanced := phrase.balanced.paired
    rwa [List.map_map] at balanced
  · cases read

/-- A text that has the tokens of an expression is read as an equal one. -/
theorem ReadAlone.same_expr {text : List Char} {core : List Token} {e : Expr}
    (alone : ReadAlone g text core) (noComments : ∀ t ∈ core, t.kind ≠ .comment)
    (phrase : Phrase.Expression g 1 (core.map Item.plain) e) :
    ∃ e', Expr.ofSource? g ⟨text, none⟩ = some e' ∧ e.same e' = true := by
  obtain ⟨us, stop, stream, alike⟩ := alone none (Source.lines ⟨text, none⟩) _ {}
    (Nat.lt_succ_self _)
  have ended : (TokenStream.endToken none stop).Alike (TokenStream.endToken none stop) :=
    ⟨rfl, rfl, rfl, literalOf_same nofun⟩
  have items := groupComments_alike (List.rel_append alike (.cons ended .nil))
    (List.Forall₂.nil (R := Token.Alike))
  have plain : groupComments [] (core ++ [TokenStream.endToken none stop]) =
      core.map Item.plain ++ [.plain (TokenStream.endToken none stop)] := by
    rw [groupComments_eq_map, List.map_append, List.map_singleton]
    exact List.forall_mem_append.2 ⟨noComments, List.forall_mem_singleton.2 nofun⟩
  rw [plain] at items
  obtain ⟨c', ran⟩ := lone_complete phrase
    (show (Item.plain (TokenStream.endToken none stop)).kind = .endOfInput from rfl)
  rw [items.length_eq] at ran
  unfold Expr.ofSource?
  rw [TokenStream.ofSource, stream]
  dsimp only at ran ⊢
  generalize Block.parseDepth _ = n at ran ⊢
  have both := lone_agrees (g := g) n ⟨_, none⟩ ⟨_, none⟩ items
  rw [ran] at both
  generalize lone g n _ = result at both ⊢
  cases both with
  | ok same _ => exact ⟨_, rfl, same⟩

theorem ReadAlone.kinds {text : List Char} {core : List Token} (alone : ReadAlone g text core) :
    (TokenStream.ofSource g ⟨text, none⟩).tokens.map Token.kind =
      core.map Token.kind ++ [.endOfInput] := by
  obtain ⟨us, stop, stream, alike⟩ := alone none (Source.lines ⟨text, none⟩) _ {}
    (Nat.lt_succ_self _)
  have same := congrArg (List.map Prod.fst) (Token.Alike.unplaced alike)
  rw [List.map_map, List.map_map] at same
  rw [TokenStream.ofSource, stream, List.map_append]
  exact congrArg (· ++ [.endOfInput]) same

end

/-! ## Spans in a text -/

/-- A text is read as an expression that is equal to a given one if its parentheses pair up, and as
none otherwise. -/
structure Expr.ReadBack (g : Grammar) (text : List Char) (e : Expr) : Prop where
  again : Paired ((TokenStream.ofSource g ⟨text, none⟩).tokens.map Token.kind) →
    ∃ e', Expr.ofSource? g ⟨text, none⟩ = some e' ∧ e.same e' = true
  broken : ¬ Paired ((TokenStream.ofSource g ⟨text, none⟩).tokens.map Token.kind) →
    Expr.ofSource? g ⟨text, none⟩ = none

/-- What the span of a node in a text delimits. -/
structure Node.SpansText (g : Grammar) (text : List Char) (n : Node) : Prop where
  inside : n.left ≤ text.length ∧ n.right ≤ text.length
  /-- The spans of the children are within it. -/
  holds : ∀ c ∈ n.children, n.left ≤ c.left ∧ c.right ≤ n.right
  /-- Only an empty body ends before it begins. -/
  forwards : ∀ c ∈ n.children, c.left ≤ c.right ↔ (n.hasBody && c.isEmpty) = false
  apart : n.children.Pairwise fun c d => c.right ≤ d.left ∨ d.right ≤ c.left
  readBack : ∀ e, n = .expr e → e.ReadBack g (charsBetween text e.span.start e.span.stop)

/-- What is below a node lies in it. -/
theorem Node.bounds_of_mem_walk {ts : List Item} {n m : Node} (all : ∀ m ∈ n.walk, m.Delimits ts)
    (member : m ∈ n.walk) : n.left ≤ m.left ∧ m.right ≤ n.right := by
  have placed : some m ∈ n.places.map n.at? := by
    rw [n.map_at?_places]
    exact List.mem_map_of_mem member
  obtain ⟨place, -, found⟩ := List.mem_map.1 placed
  exact bounds_of_at? all found

/-- The children of a node do not overlap. -/
theorem Node.Delimits.children_apart {ts : List Item} {n : Node} (delimits : n.Delimits ts) :
    n.children.Pairwise fun c d => c.right ≤ d.left ∨ d.right ≤ c.left := by
  refine (n.parts_perm.pairwise_iff fun {c d} apart => apart.symm).1 ?_
  by_cases none : n.parts = []
  · rw [none]
    exact .nil
  · exact (delimits.row none).apart.imp .inl

namespace Block

variable {g : Grammar} {source : Source} {script : Block}

/-- The text of an expression that is read from a script. -/
theorem expr_readBack (words : g.WordsOnly) (dropped : g.retainComments = false)
    (parsed : Block.ofSource g source = .ok script) {e : Expr} (member : .expr e ∈ script.walk) :
    e.ReadBack g (charsBetween source.text e.span.start e.span.stop) := by
  obtain ⟨body, last, ss, tokens, notEnds, -, -, -, rfl, phrase⟩ :=
    body_of_source words dropped parsed
  have noComments : ∀ t ∈ (TokenStream.ofSource g source).tokens, t.kind ≠ .comment :=
    TokenStream.tokensFrom_dropped dropped _ _ _
  have below : Node.expr e ∈ walkStmts ss := (List.mem_cons.1 member).resolve_left nofun
  obtain ⟨level, us, inside, whole⟩ := phrase.expressed e below
  obtain ⟨core, ⟨opens, closes, rfl, -, -⟩, ⟨first, head, start⟩, ⟨final, tail, stop⟩, own⟩ :=
    whole.core
  have part : core <:+: opens ++ (core ++ closes) := ⟨opens, closes, List.append_assoc ..⟩
  obtain ⟨before, behind, split⟩ := part.trans inside
  obtain ⟨front, back, rfl, front', rfl⟩ := List.map_eq_append_iff.1 split.symm
  obtain ⟨front, ts, rfl, rfl, rfl⟩ := List.map_eq_append_iff.1 front'
  rw [List.head?_map, Option.map_eq_some_iff] at head
  rw [List.getLast?_map, Option.map_eq_some_iff] at tail
  obtain ⟨t, head, rfl⟩ := head
  obtain ⟨u, tail, rfl⟩ := tail
  have start : t.span.start = e.span.start := start
  have stop : u.span.stop = e.span.stop := stop
  rw [List.append_assoc, List.append_assoc] at tokens
  have alone := TokenStream.readAlone_of_source tokens
    (fun t member => notEnds t (List.mem_append_left back member)) head tail
  rw [start, stop] at alone
  refine ⟨fun paired => ?_, fun unpaired => ?_⟩
  · rw [alone.kinds, paired_end] at paired
    refine alone.same_expr (fun t member => noComments t (by simp [tokens, member])) (own ?_)
    rwa [List.map_map]
  · cases read : Expr.ofSource? g ⟨charsBetween source.text e.span.start e.span.stop, none⟩ with
    | none => rfl
    | some e' => exact absurd (Expr.paired_of_ofSource? words dropped read) unpaired

/-- The spans of a script that is read from a text without comments lie in the text, hold those
below them and do not overlap. Only empty bodies end before they begin, and the text of an
expression is read as an equal one just where its parentheses pair up. -/
theorem spans_delimit (g : Grammar) (words : g.WordsOnly) (dropped : g.retainComments = false)
    (source : Source) (script : Block) (parsed : Block.ofSource g source = .ok script) :
    script.span.start.offset ≤ script.span.stop.offset ∧
      ∀ n ∈ script.walk, n.SpansText g source.text := by
  have all := delimits words dropped parsed
  have root : script.span.start.offset ≤ script.span.stop.offset ∧
      script.span.stop.offset ≤ source.text.length := by
    rcases root_lies words dropped parsed with ⟨-, start, stop⟩ | ⟨ts, between, -, on⟩
    · rw [start, stop]
      exact ⟨Nat.le_refl _, Nat.le_refl _⟩
    · obtain ⟨lies, bound⟩ := on.row between
      exact ⟨lies.room_iff.2 (Bool.false_and _), bound⟩
  refine ⟨root.1, fun n member => ⟨⟨?_, ?_⟩, fun c child => ?_, fun c child => ?_,
    (all n member).children_apart, ?_⟩⟩
  · exact (placed_of_ofSource parsed n member).start.inside
  · exact Nat.le_trans (Node.bounds_of_mem_walk (n := .block script) all member).2 root.2
  · obtain ⟨lies, bound, -⟩ := (all n member).child child
    exact ⟨lies.behind.1, bound⟩
  · exact ((all n member).child child).1.room_iff
  · rintro e rfl
    exact expr_readBack words dropped parsed member

example : ((Block.ofSource Grammar.second (.ofString "if a then endif")).map fun script =>
    (script.walk.filter Node.isEmpty).map fun n => (n.left, n.right)).toOption =
      some [(10, 9)] := by
  decide +kernel

/-- A product with a sum in parentheses as its left operand. -/
def groupedOperand : List Char := "x = (a + b) * c".toList

/-- The span of the product begins behind the parenthesis, and its text is no expression. -/
theorem groupedOperand_broken :
    ((Block.ofSource Grammar.second ⟨groupedOperand, none⟩).map fun script =>
      script.walk.filterMap fun n => match n with
        | .expr (.binary span _ _ _) =>
          let text : Source := ⟨charsBetween groupedOperand span.start span.stop, none⟩
          let kinds := (TokenStream.ofSource Grammar.second text).tokens.map Token.kind
          some (String.ofList text.text, decide (Paired kinds),
            (Expr.ofSource? Grammar.second text).isSome)
        | _ => none).toOption = some [("a + b) * c", false, false), ("a + b", true, true)] := by
  decide +kernel

/-- The spans of this script delimit its nodes but for that. -/
theorem groupedOperand_delimited : Grammar.second.WordsOnly ∧
    Grammar.second.retainComments = false ∧
    ∃ script, Block.ofSource Grammar.second ⟨groupedOperand, none⟩ = .ok script ∧
      script.span.start.offset ≤ script.span.stop.offset ∧
      ∀ n ∈ script.walk, n.SpansText Grammar.second groupedOperand := by
  have words : Grammar.second.WordsOnly := Grammar.Standard.wordsOnly (.inr rfl)
  have read : (Block.ofSource Grammar.second ⟨groupedOperand, none⟩).isOk = true := by
    decide +kernel
  cases parsed : Block.ofSource Grammar.second ⟨groupedOperand, none⟩ with
  | error e =>
    rw [parsed] at read
    cases read
  | ok script =>
    exact ⟨words, rfl, script, rfl,
      spans_delimit Grammar.second words rfl ⟨groupedOperand, none⟩ script parsed⟩

end Block

end InstallScript
