import InstallScript.Proofs.Syntax.Exact
import InstallScript.Proofs.Syntax.OnlineParser

/-!
Errors about the syntax are about the first token that cannot be right (`first_misfit_reported`):
the tokens before it can be completed to a script, those up to it cannot, and what comes behind it
is not read.
-/

namespace InstallScript

open InstallScript.Parser InstallScript.Phrase

/-! ## Items and tokens -/

/-- The items up to one of them come from the tokens up to its token. The comments right before it
are kept aside. -/
theorem groupComments_split {tokens : List Token} : ∀ {comments : List Token}
    {front others : List Item} {k : Item}, groupComments comments tokens = front ++ k :: others →
      ∃ before rest aside, tokens = before ++ k.token :: rest ∧ k.kind ≠ .comment ∧
        (∀ t ∈ before, t.kind = .comment ∨ ∃ item ∈ front, item.token = t) ∧
        k = ⟨aside.reverse, k.token⟩ ∧
        ∀ us, groupComments comments (before ++ us) = front ++ groupComments aside us := by
  induction tokens with
  | nil =>
    intro comments front others k split
    cases front <;> cases split
  | cons t tokens ih =>
    intro comments front others k split
    rw [groupComments] at split
    by_cases isComment : t.kind = .comment
    · rw [if_pos isComment] at split
      obtain ⟨before, rest, aside, rfl, plain, sources, eq, again⟩ := ih split
      refine ⟨t :: before, rest, aside, rfl, plain, ?_, eq, fun us => ?_⟩
      · exact List.forall_mem_cons.2 ⟨.inl isComment, sources⟩
      · rw [List.cons_append, groupComments, if_pos isComment]
        exact again us
    · rw [if_neg isComment] at split
      cases front with
      | nil =>
        cases split
        exact ⟨[], tokens, comments, rfl, isComment, List.forall_mem_nil _, rfl, fun us => rfl⟩
      | cons item front =>
        obtain ⟨rfl, more⟩ := List.cons.inj split
        obtain ⟨before, rest, aside, rfl, plain, sources, eq, again⟩ := ih more
        refine ⟨t :: before, rest, aside, rfl, plain, ?_, eq, fun us => ?_⟩
        · refine List.forall_mem_cons.2 ⟨.inr ⟨_, List.mem_cons_self, rfl⟩, fun t member => ?_⟩
          rcases sources t member with isComment | ⟨item, inFront, eq⟩
          · exact .inl isComment
          · exact .inr ⟨item, List.mem_cons_of_mem _ inFront, eq⟩
        · rw [List.cons_append, groupComments, if_neg isComment, again us, List.cons_append]

/-- The tokens that complete a viable stretch, in front of the last one of a script. The comments
kept aside go to the first of them. -/
theorem Viable.completed {phrase : List Item → Prop} {front : List Item}
    (viable : Viable phrase front) (comments : List Token) (last : Token)
    (plain : last.kind ≠ .comment) :
    ∃ us : List Token, (∀ t ∈ us, t.kind ≠ .endOfInput) ∧
      ∃ items closing, groupComments comments (us ++ [last]) = items ++ [closing] ∧
        closing.token = last ∧ phrase (front ++ items) := by
  induction viable generalizing comments with
  | done whole =>
    refine ⟨[], List.forall_mem_nil _, [], ⟨comments.reverse, last⟩, ?_, rfl, ?_⟩
    · rw [List.nil_append, groupComments, if_neg plain]
      rfl
    · rwa [List.append_nil]
  | next kind proper _ ih =>
    let t : Token := ⟨kind, .nothing, "", default⟩
    obtain ⟨us, noEnd, items, closing, grouped, isLast, whole⟩ := ih ⟨comments.reverse, t⟩ rfl []
    refine ⟨t :: us, List.forall_mem_cons.2 ⟨proper.2, noEnd⟩, ⟨comments.reverse, t⟩ :: items,
      closing, ?_, isLast, ?_⟩
    · rw [List.cons_append, groupComments, if_neg proper.1, grouped, List.cons_append]
    · rwa [List.append_assoc] at whole

/-! ## Scripts -/

/-- The grammar accepts tokens: the last one ends the input and no other does, and there is a
tree. -/
def Grammar.Accepts (g : Grammar) (tokens : List Token) : Prop :=
  (∃ body last, tokens = body ++ [last] ∧ (∀ t ∈ body, t.kind ≠ .endOfInput) ∧
    last.kind = .endOfInput) ∧ ∃ b, Block.ofStream g [] ⟨tokens, .finished⟩ = .ok b

/-- An objection to a whole script. The bound on nested steps does not matter. -/
theorem script_stops {g : Grammar} {n : Nat} {items : List Item} {fault : Fault} {span : Span}
    (ran : script g n ⟨items, none⟩ = .error (.fault fault span))
    (code : fault.code ∈ syntaxCodes) :
    ∃ front k others, items = front ++ k :: others ∧ Misfit k.token fault ∧ span = k.token.span ∧
      NoEnd front ∧ Viable (AreStatements g) front ∧
      ∀ m others', 8 * front.length + 4 ≤ m →
        script g m ⟨front ++ k :: others', none⟩ = .error (.fault fault span) := by
  rw [script, bind_apply] at ran
  cases ranBlock : block g n [.endOfInput] ⟨items, none⟩ with
  | error h =>
    rw [ranBlock] at ran
    cases ran
    obtain ⟨front, k, others, split, misfit, place, proper, good, again⟩ :=
      (block_online n).stops ranBlock code
    refine ⟨front, k, others, split, misfit, place, proper, good, fun m others' enough => ?_⟩
    rw [script, bind_apply, again m others' enough]
  | ok out =>
    -- behind a block is the token that closes it
    obtain ⟨body, c⟩ := out
    rw [ranBlock] at ran
    obtain ⟨ts, closing, others, -, rest, isEnd, -⟩ := block_sound n ranBlock
    dsimp only at ran
    rw [bind_of_ok (expect_end rest (List.mem_singleton.1 isEnd))] at ran
    cases ran

theorem Block.ofStream_of_fault {g : Grammar} {lines : List String} {stream : TokenStream}
    {fault : Fault} {span : Span}
    (ran : script g (parseDepth (groupComments [] stream.tokens).length)
      ⟨groupComments [] stream.tokens, none⟩ = .error (.fault fault span)) :
    Block.ofStream g lines stream = .error (.script (faultError lines fault span)) := by
  unfold Block.ofStream
  dsimp only
  rw [ran]

/-- An error is an objection of the parser or what the stream ends with. -/
theorem Block.ofStream_eq_script {g : Grammar} {lines : List String} {stream : TokenStream}
    {e : ScriptError} (rejected : Block.ofStream g lines stream = .error (.script e))
    (parser : ∀ stop, stream.ending ≠ .failed e stop) :
    ∃ fault span, e = faultError lines fault span ∧
      script g (parseDepth (groupComments [] stream.tokens).length)
        ⟨groupComments [] stream.tokens, none⟩ = .error (.fault fault span) := by
  unfold Block.ofStream at rejected
  dsimp only at rejected
  split at rejected
  · cases rejected
  · rename_i fault span ran
    cases rejected
    exact ⟨fault, span, rfl, ran⟩
  · split at rejected
    · rename_i error stop ending
      cases rejected
      exact absurd ending (parser stop)
    · cases rejected
  · cases rejected

theorem faultError_fault (lines : List String) (fault : Fault) (span : Span) :
    (faultError lines fault span).fault = fault ∧
      (faultError lines fault span).span = some span := by
  unfold faultError
  split <;> exact ⟨rfl, rfl⟩

/-- A viable beginning of a script is the beginning of one that the grammar accepts. -/
theorem accepts_of_viable {g : Grammar} {before aside : List Token} {front : List Item}
    (viable : Viable (AreStatements g) front) (noEnd : ∀ t ∈ before, t.kind ≠ .endOfInput)
    (grouped : ∀ us, groupComments [] (before ++ us) = front ++ groupComments aside us) :
    ∃ completion, g.Accepts (before ++ completion) := by
  let last : Token := ⟨.endOfInput, .nothing, "", default⟩
  obtain ⟨us, proper, items, closing, behind, isLast, whole⟩ :=
    viable.completed aside last nofun
  obtain ⟨ss, phrase⟩ := whole closing
  have closingKind : closing.kind = .endOfInput := by
    rw [Item.kind, isLast]
  obtain ⟨b, script⟩ : ∃ b, Script g (groupComments [] (before ++ (us ++ [last]))) b := by
    rw [grouped, behind, ← List.append_assoc]
    exact ⟨_, .mk (.mk phrase) closingKind⟩
  refine ⟨us ++ [last], ⟨before ++ us, last, (List.append_assoc ..).symm, ?_, rfl⟩, ?_⟩
  · exact fun t member => (List.mem_append.1 member).elim (noEnd t) (proper t)
  · obtain ⟨c, ran⟩ := script_complete script
    refine ⟨b, ?_⟩
    unfold Block.ofStream
    dsimp only
    rw [ran]

/-- An error about the syntax is an objection to a token. The tokens before that one are the
beginning of tokens that the grammar accepts, those up to it are not, and whatever is put behind it,
be it another reason why the stream breaks off, the error stays the same. -/
theorem first_misfit_reported (g : Grammar) (lines : List String) (stream : TokenStream)
    (e : ScriptError) (rejected : Block.ofStream g lines stream = .error (.script e))
    (parser : ∀ stop, stream.ending ≠ .failed e stop) (code : e.fault.code ∈ syntaxCodes) :
    ∃ before k rest, stream.tokens = before ++ k :: rest ∧
      (Misfit k e.fault ∧ e.span = some k.span) ∧
      (∃ completion, g.Accepts (before ++ completion)) ∧
      (∀ completion, ¬ g.Accepts (before ++ k :: completion)) ∧
      ∀ rest' ending, Block.ofStream g lines ⟨before ++ k :: rest', ending⟩ =
        .error (.script e) := by
  obtain ⟨fault, span, rfl, ran⟩ := Block.ofStream_eq_script rejected parser
  obtain ⟨sameFault, sameSpan⟩ := faultError_fault lines fault span
  rw [sameFault] at code
  rw [sameFault, sameSpan]
  obtain ⟨front, k, others, split, misfit, rfl, noEnd, viable, again⟩ := script_stops ran code
  obtain ⟨before, rest, aside, tokens, plain, sources, eq, grouped⟩ := groupComments_split split
  have stops (lines : List String) (rest' : List Token) (ending : StreamEnd) :
      Block.ofStream g lines ⟨before ++ k.token :: rest', ending⟩ =
        .error (.script (faultError lines fault k.token.span)) := by
    apply Block.ofStream_of_fault
    dsimp only
    rw [grouped, groupComments, if_neg plain, ← eq]
    apply again
    rw [Block.parseDepth, List.length_append, List.length_cons]
    omega
  have noEndBefore : ∀ t ∈ before, t.kind ≠ .endOfInput := by
    intro t member
    rcases sources t member with isComment | ⟨item, inFront, rfl⟩
    · rw [isComment]
      decide
    · exact noEnd item inFront
  refine ⟨before, k.token, rest, tokens, ⟨misfit, rfl⟩,
    accepts_of_viable viable noEndBefore grouped, ?_, stops lines⟩
  rintro completion ⟨-, b, accepted⟩
  cases (stops [] completion .finished).symm.trans accepted

/-- A text with a comment, a missing argument and a string that is not closed. -/
def brokenSource : Source := .ofString "if a then # note\n  f(1, )\nendif \"open"

/-- What is wrong with the call in the text. -/
def missingArgument : ScriptError where
  fault := .noExpression "punctuation ')'"
  span := some ⟨⟨2, 8, 24⟩, ⟨2, 9, 25⟩, none⟩
  sourceLine := some "  f(1, )"

/-- What is wrong with the end of the text. -/
def openString : ScriptError where
  fault := .unterminatedString
  span := some ⟨⟨3, 7, 32⟩, ⟨3, 12, 37⟩, none⟩
  sourceLine := some "endif \"open"

/-- It can be decided whether something fails with a given error. -/
instance decidableEqError {ε α : Type} [DecidableEq ε] (result : Except ε α) (e : ε) :
    Decidable (result = .error e) :=
  match result with
  | .ok _ => isFalse nofun
  | .error e' => decidable_of_iff (e' = e) ⟨congrArg _, Except.error.inj⟩

/-- The missing argument is reported, and the string is not. -/
theorem missingArgument_reported :
    ∃ stream, stream = TokenStream.ofSource Grammar.second.withComments brokenSource ∧
      Block.ofStream Grammar.second brokenSource.lines stream = .error (.script missingArgument) ∧
      (∀ stop, stream.ending ≠ .failed missingArgument stop) ∧
      missingArgument.fault.code ∈ syntaxCodes ∧
      ∃ before k rest, stream.tokens = before ++ k :: rest ∧
        (Misfit k missingArgument.fault ∧ missingArgument.span = some k.span) ∧
        (∃ completion, Grammar.second.Accepts (before ++ completion)) ∧
        (∀ completion, ¬ Grammar.second.Accepts (before ++ k :: completion)) ∧
        ∀ rest' ending, Block.ofStream Grammar.second brokenSource.lines
          ⟨before ++ k :: rest', ending⟩ = .error (.script missingArgument) := by
  have rejected : Block.ofStream Grammar.second brokenSource.lines
      (TokenStream.ofSource Grammar.second.withComments brokenSource) =
        .error (.script missingArgument) := by
    decide +kernel
  have ends : (TokenStream.ofSource Grammar.second.withComments brokenSource).ending =
      .failed openString ⟨3, 12, 37⟩ := by
    decide +kernel
  refine ⟨_, rfl, ?_⟩
  generalize TokenStream.ofSource Grammar.second.withComments brokenSource = stream at rejected ends
  have parser (stop : Location) : stream.ending ≠ .failed missingArgument stop := by
    intro ending
    have same := (StreamEnd.failed.inj (ends.symm.trans ending)).1
    exact absurd same (by decide)
  have code : missingArgument.fault.code ∈ syntaxCodes := by decide
  exact ⟨rejected, parser, code, first_misfit_reported _ _ stream _ rejected parser code⟩

end InstallScript
