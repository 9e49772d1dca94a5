import InstallScript.Proofs.Syntax.Children
import InstallScript.Proofs.Syntax.Placement

/-!
The stretches of the nodes of a tree. A node begins with a token and ends with one, its parts lie
between them, and they lie one behind another as they stand in the text. Only the empty body of a
branch or of a loop has no token: it ends with the word in front of it and begins with the word
behind it, which is farther on.

`On bodies ts ns` says so of neighbours that are read from a stretch of tokens, and of everything
below them. There is one lemma for each way to put stretches together, and one for each sort of
node; then the phrases of the language are gone through.
-/

namespace InstallScript

/-! ## Parts of nodes -/

/-- The offset at which a node begins. -/
abbrev Node.left (n : Node) : Nat := n.span.start.offset

/-- The offset at which a node ends. -/
abbrev Node.right (n : Node) : Nat := n.span.stop.offset

/-- The offset at which an item begins. -/
abbrev Item.left (item : Item) : Nat := item.token.span.start.offset

/-- The offset at which an item ends. -/
abbrev Item.right (item : Item) : Nat := item.token.span.stop.offset

/-- The nodes directly below a node, in the order in which they stand in the text: the step of a
counted loop comes before the body. -/
def Node.parts : Node → List Node
  | .stmt (.forLoop _ _ first last step body) =>
    [.expr first, .expr last] ++ step.toList.map .expr ++ [.block body]
  | n => n.children

/-- The last part of a node is a body between two words. -/
def Node.hasBody : Node → Bool
  | .branch _ => true
  | .stmt (.whileLoop _ _ _) => true
  | .stmt (.forLoop _ _ _ _ _ _) => true
  | _ => false

/-- A block without statements. -/
def Node.isEmpty : Node → Bool
  | .block b => b.statements.isEmpty
  | _ => false

theorem Node.parts_perm (n : Node) : n.parts.Perm n.children := by
  unfold Node.parts
  split
  · rw [Node.children, List.append_assoc]
    exact List.perm_append_comm.append_left [_, _]
  · exact .refl _

theorem Node.mem_walk_iff {n m : Node} : m ∈ n.walk ↔ m = n ∨ ∃ part ∈ n.parts, m ∈ part.walk := by
  rw [Node.walk_eq, List.mem_cons, List.mem_flatMap]
  simp only [n.parts_perm.mem_iff]

/-! ## Tokens one behind another -/

/-- The words around the body of a branch or of a loop. -/
def bodyWords : List TokenKind :=
  [.thenWord, .doWord, .elseifWord, .elseWord, .endifWord, .endwhileWord, .endforWord]

/-- Whether a token may come right before another: between words is a gap. -/
def Token.Precedes (t next : Token) : Prop :=
  t.kind ∈ bodyWords → next.kind ∈ bodyWords → t.span.stop.offset < next.span.start.offset

/-- Items between two places, one behind another, which take up room and have no comments. -/
def Between (hi : Nat) : Nat → List Item → Prop
  | lo, [] => lo ≤ hi
  | lo, item :: ts =>
    item.comments = [] ∧ lo ≤ item.left ∧ item.left < item.right ∧
      (∀ next ∈ ts.head?, item.token.Precedes next.token) ∧ Between hi item.right ts

/-- An item that may stand behind others, and has no comments. -/
structure ClosesBody (closing : Item) (ts : List Item) : Prop where
  plain : closing.comments = []
  apart : ∀ item ∈ ts.getLast?, item.token.Precedes closing.token

theorem ClosesBody.of_append {closing item : Item} {ts us : List Item}
    (closes : ClosesBody closing (ts ++ item :: us)) : ClosesBody closing (item :: us) := by
  refine ⟨closes.plain, ?_⟩
  have apart := closes.apart
  rwa [List.getLast?_append_cons] at apart

namespace Between

variable {lo hi : Nat} {ts us : List Item} {item : Item}

theorem le (between : Between hi lo ts) : lo ≤ hi := by
  induction ts generalizing lo with
  | nil => exact between
  | cons item ts ih =>
    obtain ⟨-, behind, room, -, others⟩ := between
    have := ih others
    omega

theorem of_le {lo' : Nat} (between : Between hi lo ts) (le : lo' ≤ lo) : Between hi lo' ts := by
  cases ts with
  | nil => exact Nat.le_trans le between
  | cons item ts =>
    obtain ⟨plain, behind, others⟩ := between
    exact ⟨plain, Nat.le_trans le behind, others⟩

theorem append (between : Between hi lo (ts ++ us)) :
    ∃ mid, Between mid lo ts ∧ Between hi mid us ∧ ∀ next ∈ us.head?, ∀ item ∈ ts.getLast?,
      item.token.Precedes next.token := by
  induction ts generalizing lo with
  | nil =>
    refine ⟨lo, Nat.le_refl _, between, fun next _ item last => ?_⟩
    cases last
  | cons item ts ih =>
    obtain ⟨plain, behind, room, apart, others⟩ := between
    obtain ⟨mid, front, back, joint⟩ := ih others
    cases ts with
    | nil =>
      refine ⟨mid, ⟨plain, behind, room, by simp, front⟩, back, fun next head last isLast => ?_⟩
      cases isLast
      exact apart next head
    | cons other ts =>
      refine ⟨mid, ⟨plain, behind, room, apart, front⟩, back, ?_⟩
      rwa [List.getLast?_cons_cons]

theorem plain (between : Between hi lo ts) : ∀ item ∈ ts, item.comments = [] := by
  induction ts generalizing lo with
  | nil => exact List.forall_mem_nil _
  | cons item ts ih => exact List.forall_mem_cons.2 ⟨between.1, ih between.2.2.2.2⟩

/-- Items may end with the last one of them. -/
theorem shrink (between : Between hi lo (ts ++ [item])) :
    item.right ≤ hi ∧ Between item.right lo (ts ++ [item]) := by
  induction ts generalizing lo with
  | nil =>
    obtain ⟨plain, behind, room, apart, others⟩ := between
    exact ⟨others, plain, behind, room, apart, Nat.le_refl _⟩
  | cons first ts ih =>
    obtain ⟨plain, behind, room, apart, others⟩ := between
    obtain ⟨bound, inner⟩ := ih others
    exact ⟨bound, plain, behind, room, apart, inner⟩

/-- A stretch goes from its first item to its last one. -/
theorem through {first : Item} {rest : List Item} (between : Between hi lo (first :: rest)) :
    let span := first.token.through none rest
    lo ≤ span.start.offset ∧ span.start.offset < span.stop.offset ∧ span.stop.offset ≤ hi ∧
      Between span.stop.offset span.start.offset (first :: rest) ∧
      ∃ last ∈ first :: rest, span.stop = last.token.span.stop := by
  obtain ⟨plain, behind, room, apart, others⟩ := between
  have exact' : Between hi first.left (first :: rest) :=
    ⟨plain, Nat.le_refl _, room, apart, others⟩
  rcases List.eq_nil_or_concat rest with rfl | ⟨init, last, rfl⟩
  · exact ⟨behind, room, others, ⟨plain, Nat.le_refl _, room, by simp, Nat.le_refl _⟩, first,
      List.mem_cons_self, rfl⟩
  · rw [List.concat_eq_append] at exact' others ⊢
    have stop := through_stop first.token init last
    rw [← List.cons_append] at exact'
    obtain ⟨bound, inner⟩ := exact'.shrink
    refine ⟨behind, ?_, ?_, ?_, last, by simp, stop⟩
    · have := (Between.shrink others).2.le
      rw [stop]
      exact Nat.lt_of_lt_of_le room this
    · rwa [stop]
    · rwa [stop]

end Between

/-! ## Nodes one behind another -/

/-- How a node lies behind a place: it begins and ends with some of the given items, or is the
empty body of another node, if blocks without statements are bodies. -/
inductive Node.Lies (bodies : Bool) (ts : List Item) (lo : Nat) (n : Node) : Prop
  /-- An empty body ends before it begins. -/
  | hollow (empty : (bodies && n.isEmpty) = true) (behind : lo ≤ n.right)
    (reversed : n.right < n.left)
  | filled (proper : (bodies && n.isEmpty) = false) (behind : lo ≤ n.left) (room : n.left < n.right)
    (first : ∃ item ∈ ts, n.span.start = item.token.span.start)
    (last : ∃ item ∈ ts, n.span.stop = item.token.span.stop)

namespace Node.Lies

variable {bodies : Bool} {ts us : List Item} {lo : Nat} {n : Node}

theorem behind (lies : n.Lies bodies ts lo) : lo ≤ n.left ∧ lo ≤ n.right := by
  cases lies with
  | hollow _ behind reversed => exact ⟨Nat.le_trans behind (Nat.le_of_lt reversed), behind⟩
  | filled _ behind room => exact ⟨behind, Nat.le_trans behind (Nat.le_of_lt room)⟩

theorem of_le {lo' : Nat} (lies : n.Lies bodies ts lo) (le : lo' ≤ lo) : n.Lies bodies ts lo' := by
  cases lies with
  | hollow empty behind reversed => exact .hollow empty (Nat.le_trans le behind) reversed
  | filled proper behind room first last =>
    exact .filled proper (Nat.le_trans le behind) room first last

theorem mono (lies : n.Lies bodies ts lo) (inside : ts ⊆ us) : n.Lies bodies us lo := by
  cases lies with
  | hollow empty behind reversed => exact .hollow empty behind reversed
  | filled proper behind room first last =>
    obtain ⟨item, member, start⟩ := first
    obtain ⟨item', member', stop⟩ := last
    exact .filled proper behind room ⟨item, inside member, start⟩ ⟨item', inside member', stop⟩

/-- A node that is no empty block has tokens. -/
theorem tokens (lies : n.Lies bodies ts lo) (proper : n.isEmpty = false) :
    lo ≤ n.left ∧ n.left < n.right ∧ (∃ item ∈ ts, n.span.start = item.token.span.start) ∧
      ∃ item ∈ ts, n.span.stop = item.token.span.stop := by
  cases lies with
  | hollow empty =>
    rw [proper, Bool.and_false] at empty
    cases empty
  | filled _ behind room first last => exact ⟨behind, room, first, last⟩

/-- It lies behind the place where it begins. -/
theorem self {bodies' : Bool} (lies : n.Lies bodies ts lo) (proper : n.isEmpty = false) :
    n.Lies bodies' ts n.left := by
  obtain ⟨-, room, first, last⟩ := lies.tokens proper
  exact .filled (by rw [proper, Bool.and_false]) (Nat.le_refl _) room first last

/-- Only an empty body takes up no room. -/
theorem room_iff (lies : n.Lies bodies ts lo) :
    n.left ≤ n.right ↔ (bodies && n.isEmpty) = false := by
  cases lies with
  | hollow empty _ reversed => exact iff_of_false (Nat.not_le.2 reversed) (by simp [empty])
  | filled proper _ room => exact iff_of_true (Nat.le_of_lt room) proper

end Node.Lies

/-- Neighbours that lie one behind another between two places. -/
def Row (bodies : Bool) (ts : List Item) (hi : Nat) : Nat → List Node → Prop
  | lo, [] => lo ≤ hi
  | lo, n :: ns => n.Lies bodies ts lo ∧ Row bodies ts hi n.right ns

namespace Row

variable {bodies : Bool} {ts us : List Item} {lo hi : Nat} {n : Node} {ns ms : List Node}

theorem le (row : Row bodies ts hi lo ns) : lo ≤ hi := by
  induction ns generalizing lo with
  | nil => exact row
  | cons n ns ih => exact Nat.le_trans row.1.behind.2 (ih row.2)

theorem of_le {lo' : Nat} (row : Row bodies ts hi lo ns) (le : lo' ≤ lo) :
    Row bodies ts hi lo' ns := by
  cases ns with
  | nil => exact Nat.le_trans le row
  | cons n ns => exact ⟨row.1.of_le le, row.2⟩

theorem mono (row : Row bodies ts hi lo ns) (inside : ts ⊆ us) : Row bodies us hi lo ns := by
  induction ns generalizing lo with
  | nil => exact row
  | cons n ns ih => exact ⟨row.1.mono inside, ih row.2⟩

theorem append {mid : Nat} (front : Row bodies ts mid lo ns) (back : Row bodies ts hi mid ms) :
    Row bodies ts hi lo (ns ++ ms) := by
  induction ns generalizing lo with
  | nil => exact back.of_le front
  | cons n ns ih => exact ⟨front.1, ih front.2⟩

theorem lies (row : Row bodies ts hi lo ns) : ∀ n ∈ ns, n.Lies bodies ts lo ∧ n.right ≤ hi := by
  induction ns generalizing lo with
  | nil => exact List.forall_mem_nil _
  | cons n ns ih =>
    refine List.forall_mem_cons.2 ⟨⟨row.1, row.2.le⟩, fun m member => ?_⟩
    obtain ⟨lies, bound⟩ := ih row.2 m member
    exact ⟨lies.of_le row.1.behind.2, bound⟩

/-- Neighbours lie one behind another. -/
theorem apart (row : Row bodies ts hi lo ns) : ns.Pairwise fun n m => n.right ≤ m.left := by
  induction ns generalizing lo with
  | nil => exact .nil
  | cons n ns ih =>
    exact List.pairwise_cons.2 ⟨fun m member => (row.2.lies m member).1.behind.1, ih row.2⟩

end Row

/-- The parts of a node lie in it one behind another, and a call begins before its arguments. -/
structure Node.Delimits (ts : List Item) (n : Node) : Prop where
  row : n.parts ≠ [] → Row n.hasBody ts n.right n.left n.parts
  call : ∀ c, n = .expr (.call c) → ∀ part ∈ n.parts, n.left < part.left

theorem Node.Delimits.mono {ts us : List Item} {n : Node} (delimits : n.Delimits ts)
    (inside : ts ⊆ us) : n.Delimits us :=
  ⟨fun some => (delimits.row some).mono inside, delimits.call⟩

/-- Neighbours that lie on a stretch of items, and everything below them does, too. -/
structure On (bodies : Bool) (ts : List Item) (ns : List Node) : Prop where
  row : ∀ {lo hi : Nat}, Between hi lo ts → Row bodies ts hi lo ns
  below : ∀ {lo hi : Nat}, Between hi lo ts → ∀ n ∈ ns, ∀ m ∈ n.walk, m.Delimits ts

namespace On

variable {bodies : Bool} {ts us : List Item} {item first closing : Item} {n : Node}
  {ns ms : List Node}

theorem nil : On bodies ts [] :=
  ⟨Between.le, fun _ => List.forall_mem_nil _⟩

theorem append (left : On bodies ts ns) (right : On bodies us ms) :
    On bodies (ts ++ us) (ns ++ ms) := by
  have inLeft : ts ⊆ ts ++ us := List.subset_append_left _ _
  have inRight : us ⊆ ts ++ us := List.subset_append_right _ _
  constructor
  · intro lo hi between
    obtain ⟨mid, front, back, -⟩ := between.append
    exact ((left.row front).mono inLeft).append ((right.row back).mono inRight)
  · intro lo hi between
    obtain ⟨mid, front, back, -⟩ := between.append
    refine List.forall_mem_append.2 ⟨fun n member m below => ?_, fun n member m below => ?_⟩
    · exact (left.below front n member m below).mono inLeft
    · exact (right.below back n member m below).mono inRight

theorem behind (ts : List Item) (on : On bodies us ns) : On bodies (ts ++ us) ns :=
  On.nil.append on

theorem cons (item : Item) (on : On bodies us ns) : On bodies (item :: us) ns :=
  on.behind [item]

theorem before (us : List Item) (on : On bodies ts ns) : On bodies (ts ++ us) ns := by
  have both := on.append (show On bodies us [] from .nil)
  rwa [List.append_nil] at both

/-- The first item may be used. -/
theorem of_first (on : item.comments = [] → On bodies (item :: ts) ns) :
    On bodies (item :: ts) ns :=
  ⟨fun between => (on between.1).row between, fun between => (on between.1).below between⟩

/-- So may the item behind a stretch. -/
theorem closed (on : ClosesBody closing ts → On bodies ts ns)
    (others : On bodies (closing :: us) ms) :
    On bodies (ts ++ closing :: us) (ns ++ ms) := by
  constructor
  · intro lo hi between
    obtain ⟨mid, front, back, joint⟩ := between.append
    exact ((on ⟨back.1, joint closing rfl⟩).append others).row between
  · intro lo hi between
    obtain ⟨mid, front, back, joint⟩ := between.append
    exact ((on ⟨back.1, joint closing rfl⟩).append others).below between

/-- A stretch up to an item behind it. -/
theorem closedBy (on : ClosesBody closing ts → On bodies ts ns) :
    On bodies (ts ++ [closing]) ns := by
  have both := closed on (show On bodies [closing] [] from .nil)
  rwa [List.append_nil] at both

/-- A node from one item to another, whose parts lie on the stretch of its items. -/
theorem whole {rest : List Item} (span : n.span = first.token.through none rest)
    (proper : (bodies && n.isEmpty) = false) (noCall : ∀ c, n ≠ .expr (.call c))
    (parts : On n.hasBody (first :: rest) n.parts) : On bodies (first :: rest) [n] := by
  constructor
  · intro lo hi between
    obtain ⟨behind, room, bound, -, last, member, stop⟩ := between.through
    have start : n.span.start = first.token.span.start := by rw [span]; rfl
    rw [← span] at behind room bound stop
    exact ⟨.filled proper behind room ⟨first, List.mem_cons_self, start⟩ ⟨last, member, stop⟩,
      bound⟩
  · intro lo hi between
    obtain ⟨-, -, -, exact', -⟩ := between.through
    rw [← span] at exact'
    refine List.forall_mem_singleton.2 fun m below => ?_
    rcases Node.mem_walk_iff.1 below with rfl | ⟨part, member, inPart⟩
    · exact ⟨fun _ => parts.row exact', fun c isCall => absurd isCall (noCall c)⟩
    · exact parts.below between part member m inPart

/-- A call, whose arguments lie behind its name. -/
theorem call {name : Item} {rest : List Item} {c : Call}
    (span : c.span = name.token.through none rest)
    (parts : On false rest (Node.expr (.call c)).parts) :
    On bodies (name :: rest) [.expr (.call c)] := by
  have inside : rest ⊆ name :: rest := List.subset_cons_self _ _
  constructor
  · intro lo hi between
    obtain ⟨behind, room, bound, -, last, member, stop⟩ := between.through
    have start : c.span.start = name.token.span.start := by rw [span]; rfl
    rw [← span] at behind room bound stop
    exact ⟨.filled (Bool.and_false _) behind room ⟨name, List.mem_cons_self, start⟩
      ⟨last, member, stop⟩, bound⟩
  · intro lo hi between
    obtain ⟨-, -, -, exact', -⟩ := between.through
    rw [← span] at exact'
    obtain ⟨-, starts, room, -, others⟩ := exact'
    have first : (Node.expr (.call c)).left < name.right := Nat.lt_of_le_of_lt starts room
    refine List.forall_mem_singleton.2 fun m below => ?_
    rcases Node.mem_walk_iff.1 below with rfl | ⟨part, member, inPart⟩
    · have row := parts.row others
      refine ⟨fun _ => (row.of_le (Nat.le_of_lt first)).mono inside, fun _ _ part member => ?_⟩
      exact Nat.lt_of_lt_of_le first (row.lies part member).1.behind.1
    · exact (parts.below others part member m inPart).mono inside

/-- A call as a statement. -/
theorem statementCall {c : Call} (on : On bodies ts [.expr (.call c)]) :
    On bodies ts [.stmt (.call c)] := by
  constructor
  · intro lo hi between
    obtain ⟨lies, bound⟩ := on.row between
    obtain ⟨behind, room, first, last⟩ := lies.tokens rfl
    exact ⟨.filled (Bool.and_false _) behind room first last, bound⟩
  · intro lo hi between
    obtain ⟨lies, -⟩ := on.row between
    refine List.forall_mem_singleton.2 fun m below => ?_
    rcases Node.mem_walk_iff.1 below with rfl | ⟨part, member, inPart⟩
    · exact ⟨fun _ => ⟨lies.self rfl, Nat.le_refl _⟩, nofun⟩
    · exact on.below between part member m inPart

/-- Two operands with a sign between them. -/
theorem binary {sign : Item} {o : BinaryOperator} {a b : Expr} (left : On false ts [.expr a])
    (right : On false us [.expr b]) :
    On bodies (ts ++ sign :: us) [.expr (.binary (a.span.upTo b.span) o a b)] := by
  have both := left.append (right.cons sign)
  constructor
  · intro lo hi between
    obtain ⟨liesLeft, liesRight, bound⟩ := both.row between
    obtain ⟨behind, room, first, -⟩ := liesLeft.tokens rfl
    obtain ⟨behind', room', -, last⟩ := liesRight.tokens rfl
    refine ⟨.filled (Bool.and_false _) behind ?_ first last, bound⟩
    exact Nat.lt_trans (Nat.lt_of_lt_of_le room behind') room'
  · intro lo hi between
    obtain ⟨liesLeft, liesRight, -⟩ := both.row between
    refine List.forall_mem_singleton.2 fun m below => ?_
    rcases Node.mem_walk_iff.1 below with rfl | ⟨part, member, inPart⟩
    · exact ⟨fun _ => ⟨liesLeft.self rfl, liesRight, Nat.le_refl _⟩, nofun⟩
    · exact both.below between part member m inPart

/-- An operand with a sign in front of it. -/
theorem unary {sign : Item} {o : UnaryOperator} {e : Expr} (operand : On false ts [.expr e]) :
    On bodies (sign :: ts) [.expr (.unary (sign.token.span.upTo e.span) o e)] := by
  have inside : ts ⊆ sign :: ts := List.subset_cons_self _ _
  constructor
  · intro lo hi between
    obtain ⟨-, behind, room, -, others⟩ := between
    obtain ⟨lies, bound⟩ := operand.row others
    obtain ⟨behind', room', -, last⟩ := (lies.mono inside).tokens rfl
    refine ⟨.filled (Bool.and_false _) behind ?_ ⟨sign, List.mem_cons_self, rfl⟩ last, bound⟩
    exact Nat.lt_trans (Nat.lt_of_lt_of_le room behind') room'
  · intro lo hi between
    obtain ⟨-, -, room, -, others⟩ := between
    obtain ⟨lies, -⟩ := operand.row others
    refine List.forall_mem_singleton.2 fun m below => ?_
    rcases Node.mem_walk_iff.1 below with rfl | ⟨part, member, inPart⟩
    · exact ⟨fun _ => ⟨(lies.mono inside).of_le (Nat.le_of_lt room), Nat.le_refl _⟩, nofun⟩
    · exact (operand.below others part member m inPart).mono inside

end On

theorem blockSpan_cons (before : Option Token) (first closing : Item) (rest : List Item) :
    blockSpan before (first :: rest) closing = first.token.through none rest := by
  rw [blockSpan, Token.through, Token.through, lastToken_cons]
  rcases List.eq_nil_or_concat rest with rfl | ⟨init, last, rfl⟩
  · rfl
  · rw [List.concat_eq_append, lastToken_append, lastToken_append]
    rfl

/-! ## Phrases -/

namespace Phrase

variable {g : Grammar} {bodies : Bool}

mutual

theorem Expression.on {bodies : Bool} {level : Nat} {ts : List Item} {e : Expr} :
    Expression g level ts e → On bodies ts [.expr e]
  | .binary _ _ left right => .binary left.on right.on
  | .tighter _ inner => inner.on
  | .operand inner => inner.on

theorem Operand.on {bodies : Bool} {ts : List Item} {e : Expr} :
    Operand g ts e → On bodies ts [.expr e]
  | .unary _ inner => .unary inner.on
  | .literal _ => .whole rfl (Bool.and_false _) nofun .nil
  | .variable _ => .whole rfl (Bool.and_false _) nofun .nil
  | .call inner => inner.on
  | .parentheses _ _ inner => (inner.on.before _).cons _

theorem FunctionCall.on {bodies : Bool} {ts : List Item} {c : Call} :
    FunctionCall g ts c → On bodies ts [.expr (.call c)]
  | .bare _ _ _ => .call rfl .nil
  | .applied _ _ _ inner => .call rfl ((inner.on.before _).cons _)

theorem Arguments.on {ts : List Item} {es : List Expr} {ks : List KeywordArgument} :
    Arguments g ts es ks → On false ts (es.map .expr ++ ks.map .keyword)
  | .lastPositional argument => argument.on
  | .lastNamed argument => argument.on
  | .positional _ argument others => argument.on.append (others.on.cons _)
  | .named _ argument others => argument.on.append (others.on.cons _)

theorem Named.on {ts : List Item} {k : KeywordArgument} :
    Named g ts k → On false ts [.keyword k]
  | .mk _ _ _ value => .whole rfl rfl nofun ((value.on.cons _).cons _)

end

theorem LoopStep.on {ts : List Item} {step : Option Expr} (phrase : LoopStep g ts step) :
    On bodies ts (step.toList.map .expr) := by
  cases phrase with
  | none => exact .nil
  | given _ value => exact value.on.cons _

theorem Target.on {ts : List Item} {name : String} {e : Expr} (phrase : Target g ts name e) :
    On bodies ts [.expr e] := by
  obtain ⟨-, -, value⟩ := phrase
  exact (value.on.cons _).cons _

/-- What follows a branch closes its body. -/
theorem Alternatives.closes {closing : Item} {us : List Item} {bs : List Branch}
    {otherwise : Option Block} (phrase : Alternatives g (closing :: us) bs otherwise) :
    closing.kind ∈ bodyWords := by
  have words : ∀ kind ∈ Parser.branchEnds, kind ∈ bodyWords := by decide
  exact words _ phrase.begins

/-- The body between two words. -/
theorem on_body {word closing : Item} {ts : List Item} {ss : List Stmt}
    (closes : ClosesBody closing (word :: ts)) (wordKind : word.kind ∈ bodyWords)
    (closingKind : closing.kind ∈ bodyWords) (inner : Statements g ts closing ss)
    (on : On false ts (ss.map Node.ofStmt)) :
    On true (word :: ts) [.block (.mk (blockSpan (some word.token) ts closing) ss)] := by
  cases inner with
  | nil =>
    rw [closes.plain]
    have apart : word.right < closing.left := closes.apart word rfl wordKind closingKind
    constructor
    · intro lo hi between
      obtain ⟨-, behind, room, -, bound⟩ := between
      exact ⟨.hollow rfl (Nat.le_trans behind (Nat.le_of_lt room)) apart, bound⟩
    · intro lo hi between
      refine List.forall_mem_singleton.2 fun m below => ?_
      obtain rfl := List.mem_singleton.1 below
      exact ⟨fun some => absurd rfl some, nofun⟩
  | cons statement separated others =>
    refine .cons word (.whole (blockSpan_cons _ _ _ _) ?_ nofun on)
    simp [Node.isEmpty, Block.statements]

mutual

theorem Statement.on {ts : List Item} {s : Stmt} :
    Statement g ts s → On false ts [Node.ofStmt s]
  | .assign target => .whole rfl rfl nofun target.on
  | .letAssign _ target => .whole rfl rfl nofun (target.on.cons _)
  | .setAssign _ target => .whole rfl rfl nofun (target.on.cons _)
  | .call inner => .statementCall inner.on
  | .choice _ first others =>
    .whole rfl rfl nofun (.closed (first.on · others.closes) others.on)
  | .whileLoop _ _ test doKind inner closingKind => by
    refine .whole rfl rfl nofun (.cons _ (test.on.append ?_))
    rw [← List.cons_append]
    exact .closedBy
      (inner.on rfl · (by simp [doKind, bodyWords]) (by simp [closingKind, bodyWords]))
  | .forLoop _ _ _ _ start _ stop increment doKind inner closingKind => by
    refine .whole rfl rfl nofun (.cons _ (.cons _ (.cons _ ?_)))
    have body := On.closedBy
      (inner.on rfl · (by simp [doKind, bodyWords]) (by simp [closingKind, bodyWords]))
    exact start.on.append ((stop.on.append (increment.on.append body)).cons _)
  | .block _ inner _ =>
    .whole rfl rfl nofun (.cons _ (.closedBy fun closes => inner.on closes.plain))
  | .ret _ => .whole rfl rfl nofun .nil

theorem Statements.on {ts : List Item} {closing : Item} {ss : List Stmt} :
    Statements g ts closing ss → closing.comments = [] → On false ts (ss.map Node.ofStmt)
  | .nil, plain => by
    rw [plain]
    exact .nil
  | .cons statement _ others, plain => by
    refine .of_first fun noted => ?_
    rw [noted]
    exact statement.on.append ((others.on plain).behind _)

theorem Body.on {before : Option Token} {ts : List Item} {closing : Item} {b : Block} :
    Body g before ts closing b → ∀ {word : Item}, before = some word.token →
      ClosesBody closing (word :: ts) → word.kind ∈ bodyWords → closing.kind ∈ bodyWords →
      On true (word :: ts) [.block b]
  | .mk inner, word, between, closes, wordKind, closingKind => by
    subst between
    exact on_body closes wordKind closingKind inner (inner.on closes.plain)

theorem Guarded.on {word closing : Item} {ts : List Item} {b : Branch} :
    Guarded g word ts closing b → ClosesBody closing (word :: ts) → closing.kind ∈ bodyWords →
      On false (word :: ts) [.branch b]
  | .mk test thenKind inner, closes, closingKind => by
    refine .whole rfl rfl nofun (.cons _ (test.on.append ?_))
    rw [← List.cons_append] at closes
    exact inner.on rfl closes.of_append (by simp [thenKind, bodyWords]) closingKind

theorem Alternatives.on {items : List Item} {bs : List Branch} {otherwise : Option Block} :
    Alternatives g items bs otherwise →
      On false items (bs.map .branch ++ otherwise.toList.map .block)
  | .done _ => .nil
  | .otherwise _ inner _ => by
    rw [← List.cons_append]
    refine .closedBy fun closes => ?_
    exact .whole rfl rfl nofun ((inner.on closes.plain).cons _)
  | .guarded _ first others =>
    .closed (first.on · others.closes) others.on

end

end Phrase

end InstallScript
