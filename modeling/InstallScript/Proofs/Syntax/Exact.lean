import InstallScript.Proofs.Syntax.Complete

/-!
The parser accepts what the grammar derives, and nothing else, and gives the tree that is derived.
So the grammar is unambiguous: the parser is a function.
-/

namespace InstallScript

/-- Only the last one of some items ends the input. -/
def EndsOnce (items : List Item) : Prop :=
  ∃ body last, items = body ++ [last] ∧ (∀ item ∈ body, item.kind ≠ .endOfInput) ∧
    last.kind = .endOfInput

/-- What comes behind the only end of the input is nothing. -/
theorem EndsOnce.eq_nil {items body others : List Item} {closing : Item} (ends : EndsOnce items)
    (split : items = body ++ closing :: others) (isEnd : closing.kind = .endOfInput) :
    others = [] := by
  obtain ⟨front, last, rfl, noEnd, -⟩ := ends
  rcases List.eq_nil_or_concat others with empty | ⟨init, final, rfl⟩
  · exact empty
  · rw [List.concat_eq_append, ← List.cons_append, ← List.append_assoc] at split
    have same : front = body ++ closing :: init := (List.append_inj' split rfl).1
    have member : closing ∈ front := by
      rw [same]
      exact List.mem_append_right _ List.mem_cons_self
    exact absurd isEnd (noEnd closing member)

/-- Items have at most one tree. -/
theorem Phrase.Script.unique {g : Grammar} {items : List Item} {b b' : Block}
    (phrase : Phrase.Script g items b) (phrase' : Phrase.Script g items b') : b = b' := by
  obtain ⟨c, ran⟩ := script_complete phrase
  obtain ⟨c', ran'⟩ := script_complete phrase'
  cases ran.symm.trans ran'
  rfl

/-- A stream that ends once is read as the grammar has it. Comments are allowed. -/
theorem Block.ofStream_eq_ok {g : Grammar} {lines : List String} {stream : TokenStream} {b : Block}
    (ends : EndsOnce (groupComments [] stream.tokens)) :
    Block.ofStream g lines stream = .ok b ↔
      Phrase.Script g (groupComments [] stream.tokens) b := by
  constructor
  · intro read
    unfold Block.ofStream at read
    dsimp only at read
    split at read
    · rename_i b' c' ran
      cases read
      obtain ⟨body, closing, others, split, isEnd, phrase⟩ := script_sound ran
      obtain rfl := ends.eq_nil split isEnd
      rw [split]
      exact .mk phrase isEnd
    · cases read
    · split at read <;> cases read
    · cases read
  · intro phrase
    obtain ⟨c', ran⟩ := script_complete phrase
    unfold Block.ofStream
    dsimp only
    rw [ran]

/-- Tokens that are no comments have none before them. -/
theorem groupComments_eq_map {tokens : List Token} (plain : ∀ t ∈ tokens, t.kind ≠ .comment) :
    groupComments [] tokens = tokens.map Item.plain := by
  induction tokens with
  | nil => rfl
  | cons t tokens ih =>
    have head : t.kind ≠ .comment := plain t List.mem_cons_self
    rw [groupComments, if_neg head, ih fun t' member => plain t' (List.mem_cons_of_mem _ member)]
    rfl

/-- Tokens without comments that end once have a tree if and only if the grammar derives it from
them, and it derives one tree at most. -/
theorem parse_exact (g : Grammar) (lines : List String) (ending : StreamEnd) (body : List Token)
    (last : Token) (plain : ∀ t ∈ body, t.kind ≠ .comment ∧ t.kind ≠ .endOfInput)
    (isEnd : last.kind = .endOfInput) :
    (∀ b, Block.ofStream g lines ⟨body ++ [last], ending⟩ = .ok b ↔
        Phrase.Script g ((body ++ [last]).map Item.plain) b) ∧
      ∀ b b', Phrase.Script g ((body ++ [last]).map Item.plain) b →
        Phrase.Script g ((body ++ [last]).map Item.plain) b' → b = b' := by
  have noComments : ∀ t ∈ body ++ [last], t.kind ≠ .comment := by
    intro t member
    rcases List.mem_append.1 member with inBody | isLast
    · exact (plain t inBody).1
    · simp [List.mem_singleton.1 isLast, isEnd]
  have grouped := groupComments_eq_map noComments
  have ends : EndsOnce (groupComments [] (body ++ [last])) := by
    refine ⟨body.map Item.plain, .plain last, ?_, ?_, isEnd⟩
    · rw [grouped, List.map_append, List.map_singleton]
    · intro item member
      obtain ⟨t, inBody, rfl⟩ := List.mem_map.1 member
      exact (plain t inBody).2
  refine ⟨fun b => ?_, fun b b' phrase phrase' => phrase.unique phrase'⟩
  rw [← grouped]
  exact Block.ofStream_eq_ok ends

/-- The tokens of an assignment of `a - b - c`, all at one place. -/
def differenceTokens : List Token :=
  [(TokenKind.identifier, "x"), (.assign, "="), (.identifier, "a"), (.minus, "-"),
    (.identifier, "b"), (.minus, "-"), (.identifier, "c")].map
    fun (kind, text) => ⟨kind, .text text, text, default⟩

/-- Differences group to the left. -/
theorem difference_derived :
    Phrase.Script Grammar.first
      ((differenceTokens ++ [TokenStream.endToken none default]).map Item.plain)
      (.mk default [.assign default .bind "x" (.binary default .minus
        (.binary default .minus (.var default "a") (.var default "b")) (.var default "c"))]) :=
  ((parse_exact Grammar.first [] .finished differenceTokens (TokenStream.endToken none default)
    (by decide) rfl).1 _).1 rfl

end InstallScript
