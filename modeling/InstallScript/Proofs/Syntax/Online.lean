import InstallScript.Proofs.Syntax.Viable

/-!
The parser reads token by token and objects to the first one that cannot be right. `Online` says so
of one function of the parser at one place, whatever follows: what it takes and gives, and what it
objects to, does not depend on the tokens beyond the one at hand; and what it takes before it
objects is viable for the phrases that it reads.

A function is given for every bound on nested steps, and a bound that is large enough for the tokens
taken is large enough, with eight steps for each of them and a few more. So the bound on the whole
text, which depends on how long it is, does not matter either.
-/

namespace InstallScript

open InstallScript.Parser

/-- The codes of the errors that object to a token. -/
def syntaxCodes : List String := ["E101", "E102", "E103"]

/-- The objections to a token: it is not the expected one, the input ends with it, or no expression
begins with it. -/
inductive Misfit (t : Token) : Fault → Prop
  | token (expected : String) (notEnd : t.kind ≠ .endOfInput) :
    Misfit t (.unexpectedToken expected t.describe)
  | ending (expected : String) (isEnd : t.kind = .endOfInput) : Misfit t (.unexpectedEnd expected)
  | expression (notEnd : t.kind ≠ .endOfInput) : Misfit t (.noExpression t.describe)

/-- None of the items ends the input. -/
def NoEnd (items : List Item) : Prop := ∀ item ∈ items, item.kind ≠ .endOfInput

theorem NoEnd.nil : NoEnd [] := List.forall_mem_nil _

theorem NoEnd.append {ts us : List Item} (left : NoEnd ts) (right : NoEnd us) : NoEnd (ts ++ us) :=
  fun item member => (List.mem_append.1 member).elim (left item) (right item)

/-- What a parser does at a place depends on the tokens up to the one at hand in the end. If it
objects to a token, those before it are viable. -/
structure Online {α : Type} (need : Nat) (viable : List Item → Prop) (p : Nat → Parser α) (n : Nat)
    (c : Cursor) : Prop where
  passes : ∀ {a : α} {c' : Cursor}, p n c = .ok (a, c') → ∃ ts, c.rest = ts ++ c'.rest ∧ NoEnd ts ∧
    ∀ next others, c'.rest = next :: others → ∀ m others', 8 * ts.length + need ≤ m →
      p m ⟨ts ++ next :: others', c.previous⟩ = .ok (a, ⟨next :: others', c'.previous⟩)
  stops : ∀ {fault : Fault} {span : Span}, p n c = .error (.fault fault span) →
    fault.code ∈ syntaxCodes → ∃ front k others, c.rest = front ++ k :: others ∧
      Misfit k.token fault ∧ span = k.token.span ∧ NoEnd front ∧ viable front ∧
      ∀ m others', 8 * front.length + need ≤ m →
        p m ⟨front ++ k :: others', c.previous⟩ = .error (.fault fault span)

section

variable {α β : Type} {need least n : Nat} {viable part : List Item → Prop} {c : Cursor}

namespace Online

/-! ## One step after another -/

/-- What is known to be taken does not end the input, and more tokens may follow it. -/
theorem taken {p : Nat → Parser α} (online : Online need viable p n c) {ts : List Item} {a : α}
    {c' : Cursor} (ran : p n c = .ok (a, c')) (took : Took ts c c') : NoEnd ts ∧
      ∀ us next others, c'.rest = us ++ next :: others → ∀ m others', 8 * ts.length + need ≤ m →
        p m ⟨ts ++ (us ++ next :: others'), c.previous⟩ =
          .ok (a, ⟨us ++ next :: others', c'.previous⟩) := by
  obtain ⟨ts', split, proper, again⟩ := online.passes ran
  obtain rfl : ts' = ts := List.append_cancel_right (split.symm.trans took.rest)
  refine ⟨proper, fun us next others rest m others' enough => ?_⟩
  cases us with
  | nil => exact again next others rest m others' enough
  | cons x us => exact again x (us ++ next :: others) rest m (us ++ next :: others') enough

/-- What the first step takes is before what the second one takes. -/
theorem bind {p : Nat → Parser α} {q : Nat → α → Parser β} (first : Online least part p n c)
    (le : least ≤ need) (onwards : ∀ ts, part ts → viable ts)
    (second : ∀ a c', p n c = .ok (a, c') → ∃ ts, Took ts c c' ∧
      Online (need + 8 * ts.length) (fun us => viable (ts ++ us)) (fun m => q m a) n c') :
    Online need viable (fun m => p m >>= q m) n c := by
  constructor
  · intro b c'' ran
    obtain ⟨a, c', ranFirst, ranSecond⟩ := bind_eq_ok.1 ran
    obtain ⟨ts, took, online⟩ := second a c' ranFirst
    obtain ⟨us, split, proper', again⟩ := online.passes ranSecond
    obtain ⟨proper, ahead⟩ := first.taken ranFirst took
    refine ⟨ts ++ us, by rw [took.rest, split, List.append_assoc], proper.append proper', ?_⟩
    intro next others rest m others' enough
    rw [List.length_append] at enough
    rw [List.append_assoc, bind_of_ok (ahead us next others (rest ▸ split) m others' (by omega))]
    exact again next others rest m others' (by omega)
  · intro fault span ran code
    rw [bind_apply] at ran
    cases ranFirst : p n c with
    | error h =>
      rw [ranFirst] at ran
      cases ran
      obtain ⟨front, k, others, split, misfit, place, proper, good, again⟩ :=
        first.stops ranFirst code
      refine ⟨front, k, others, split, misfit, place, proper, onwards front good, ?_⟩
      intro m others' enough
      rw [bind_apply, again m others' (by omega)]
    | ok out =>
      obtain ⟨a, c'⟩ := out
      rw [ranFirst] at ran
      obtain ⟨ts, took, online⟩ := second a c' ranFirst
      obtain ⟨front, k, others, split, misfit, place, proper', good, again⟩ :=
        online.stops ran code
      obtain ⟨proper, ahead⟩ := first.taken ranFirst took
      refine ⟨ts ++ front, k, others, ?_, misfit, place, proper.append proper', good, ?_⟩
      · rw [took.rest, split, List.append_assoc]
      intro m others' enough
      rw [List.length_append] at enough
      rw [List.append_assoc, bind_of_ok (ahead front k others split m others' (by omega))]
      exact again m others' (by omega)

theorem weaken {p : Nat → Parser α} (online : Online least part p n c) (le : least ≤ need)
    (onwards : ∀ ts, part ts → viable ts) : Online need viable p n c := by
  constructor
  · intro a c' ran
    obtain ⟨ts, split, proper, again⟩ := online.passes ran
    exact ⟨ts, split, proper, fun next others rest m others' enough =>
      again next others rest m others' (by omega)⟩
  · intro fault span ran code
    obtain ⟨front, k, others, split, misfit, place, proper, good, again⟩ := online.stops ran code
    exact ⟨front, k, others, split, misfit, place, proper, onwards front good,
      fun m others' enough => again m others' (by omega)⟩

/-- A step down uses up one of the bound. -/
theorem succ {p q : Nat → Parser α} (down : ∀ m, p (m + 1) = q m)
    (online : Online need viable q n c) : Online (need + 1) viable p (n + 1) c := by
  constructor
  · intro a c' ran
    rw [down] at ran
    obtain ⟨ts, split, proper, again⟩ := online.passes ran
    refine ⟨ts, split, proper, fun next others rest m others' enough => ?_⟩
    obtain ⟨m, rfl⟩ := Nat.exists_eq_add_of_le' (show 1 ≤ m by omega)
    rw [down]
    exact again next others rest m others' (by omega)
  · intro fault span ran code
    rw [down] at ran
    obtain ⟨front, k, others, split, misfit, place, proper, good, again⟩ := online.stops ran code
    refine ⟨front, k, others, split, misfit, place, proper, good, fun m others' enough => ?_⟩
    obtain ⟨m, rfl⟩ := Nat.exists_eq_add_of_le' (show 1 ≤ m by omega)
    rw [down]
    exact again m others' (by omega)

theorem ite {P : Prop} [Decidable P] {p q : Nat → Parser α}
    (left : P → Online need viable p n c) (right : ¬ P → Online need viable q n c) :
    Online need viable (fun m => if P then p m else q m) n c := by
  by_cases holds : P
  · simp only [if_pos holds]
    exact left holds
  · simp only [if_neg holds]
    exact right holds

/-! ## Steps that take nothing -/

/-- The bound is used up. -/
theorem deep {p : Nat → Parser α} (stuck : p 0 = halt .tooDeep) : Online need viable p 0 c := by
  constructor <;> intro _ _ ran <;> rw [stuck] at ran <;> cases ran

/-- A value that does not depend on what is left. -/
theorem still {p : Parser α} {a : α}
    (gives : ∀ rest, p ⟨rest, c.previous⟩ = .ok (a, ⟨rest, c.previous⟩)) :
    Online need viable (fun _ => p) n c := by
  have here : p c = .ok (a, c) := gives c.rest
  constructor
  · intro b c' ran
    cases here.symm.trans ran
    exact ⟨[], rfl, .nil, fun next others rest m others' _ => gives _⟩
  · intro fault span ran
    cases here.symm.trans ran

theorem pure (a : α) : Online need viable (fun _ => Pure.pure a) n c := still fun _ => rfl

theorem spanFrom (start : Token) : Online need viable (fun _ => Parser.spanFrom start) n c :=
  still (a := start.span.upTo (c.previous.getD start).span) fun _ => rfl

/-- The value of a step is changed. -/
theorem map {p : Nat → Parser α} (online : Online need viable p n c) (f : α → β) :
    Online need viable (fun m => p m >>= fun a => Pure.pure (f a)) n c := by
  constructor
  · intro b c' ran
    obtain ⟨a, c', ran, given⟩ := bind_eq_ok.1 ran
    cases given
    obtain ⟨ts, split, proper, again⟩ := online.passes ran
    refine ⟨ts, split, proper, fun next others rest m others' enough => ?_⟩
    rw [bind_of_ok (again next others rest m others' enough), pure_apply]
  · intro fault span ran code
    rw [bind_apply] at ran
    split at ran
    · cases ran
    · rename_i stuck
      cases ran
      obtain ⟨front, k, others, split, misfit, place, proper, good, again⟩ :=
        online.stops stuck code
      refine ⟨front, k, others, split, misfit, place, proper, good, fun m others' enough => ?_⟩
      rw [bind_apply, again m others' enough]

/-- An error that objects to no token. -/
theorem refuse {fault : Fault} {span : Span} (code : fault.code ∉ syntaxCodes) :
    Online need viable (fun _ => (halt (.fault fault span) : Parser α)) n c := by
  constructor
  · intro a c' ran
    cases ran
  · intro fault' span' ran code'
    cases ran
    exact absurd code' code

/-- An objection to the token at hand. -/
theorem object {item : Item} {items : List Item} {fault : Fault} (rest : c.rest = item :: items)
    (misfit : Misfit item.token fault) (good : viable []) :
    Online need viable (fun _ => (halt (.fault fault item.token.span) : Parser α)) n c := by
  constructor
  · intro a c' ran
    cases ran
  · intro fault' span' ran _
    cases ran
    exact ⟨[], item, items, rest, misfit, rfl, .nil, good, fun _ _ _ => rfl⟩

/-- A look at the first item. -/
theorem look {p : Parser α} {f : Item → α} {q : Nat → α → Parser β}
    (sees : ∀ item items previous,
      p ⟨item :: items, previous⟩ = .ok (f item, ⟨item :: items, previous⟩))
    (stuck : ∀ previous, p ⟨[], previous⟩ = .error .noToken)
    (next : ∀ item items, c.rest = item :: items →
      Online need viable (fun m => q m (f item)) n c) :
    Online need viable (fun m => p >>= q m) n c := by
  obtain ⟨rest, previous⟩ := c
  cases rest with
  | nil =>
    have nothing : ∀ m, (p >>= q m) ⟨[], previous⟩ = .error .noToken := by
      intro m
      rw [bind_apply, stuck]
    constructor <;> intro _ _ ran <;> rw [nothing] at ran <;> cases ran
  | cons item items =>
    have here : Online need viable (fun _ => p) n ⟨item :: items, previous⟩ := by
      constructor
      · intro a c' ran
        cases (sees _ _ _).symm.trans ran
        refine ⟨[], rfl, .nil, fun next others rest m others' _ => ?_⟩
        cases rest
        exact sees _ _ _
      · intro fault span ran
        cases (sees _ _ _).symm.trans ran
    refine here.bind (Nat.le_refl _) (fun _ good => good) fun a c' ran => ?_
    cases (sees _ _ _).symm.trans ran
    exact ⟨[], .refl _, next item items rfl⟩

theorem peek {q : Nat → Token → Parser β}
    (next : ∀ item items, c.rest = item :: items →
      Online need viable (fun m => q m item.token) n c) :
    Online need viable (fun m => Parser.peek >>= q m) n c :=
  look (f := Item.token) (fun _ _ _ => rfl) (fun _ => rfl) next

theorem peekComments {q : Nat → List Token → Parser β}
    (next : ∀ comments, Online need viable (fun m => q m comments) n c) :
    Online need viable (fun m => Parser.peekComments >>= q m) n c :=
  look (f := Item.comments) (fun _ _ _ => rfl) (fun _ => rfl) fun item _ _ => next item.comments

theorem unexpected {expected : String} (good : viable []) :
    Online need viable (fun _ => (Parser.unexpected expected : Parser α)) n c :=
  peek fun _ _ rest => ite (fun isEnd => object rest (.ending expected isEnd) good) fun notEnd =>
    object rest (.token expected notEnd) good

/-! ## Steps that take tokens -/

theorem advanceOnly {item : Item} {items : List Item} (rest : c.rest = item :: items)
    (notEnd : item.kind ≠ .endOfInput) : Online need viable (fun _ => Parser.advance) n c := by
  constructor
  · intro t c' ran
    obtain ⟨rfl, rfl⟩ := advance_eq_ok rest notEnd ran
    refine ⟨[item], rest, List.forall_mem_singleton.2 notEnd, ?_⟩
    intro next others rest' m others' _
    exact advance_of_took (.of_rest rfl) notEnd
  · intro fault span ran
    rw [advance_of_took (.of_rest rest) notEnd] at ran
    cases ran

theorem advance {q : Nat → Token → Parser β} {item : Item} {items : List Item}
    (rest : c.rest = item :: items) (notEnd : item.kind ≠ .endOfInput)
    (next : Online (need + 8) (fun us => viable (item :: us)) (fun m => q m item.token) n
      ⟨items, some item.token⟩) :
    Online need viable (fun m => Parser.advance >>= q m) n c := by
  refine (advanceOnly rest notEnd).bind (Nat.le_refl _) (fun _ good => good) fun t c' ran => ?_
  obtain ⟨rfl, rfl⟩ := advance_eq_ok rest notEnd ran
  exact ⟨[item], .of_rest rest, next⟩

theorem expectOnly {kind : TokenKind} {expected : String} (notEnd : kind ≠ .endOfInput)
    (good : viable []) :
    Online need viable (fun _ => Parser.expect kind expected) n c :=
  peek fun _ _ rest => ite (fun itemKind => advanceOnly rest fun isEnd => notEnd (itemKind ▸ isEnd))
    fun _ => unexpected good

theorem expect {q : Nat → Token → Parser β} {kind : TokenKind} {expected : String}
    (notEnd : kind ≠ .endOfInput) (good : viable [])
    (next : ∀ item c', Took [item] c c' → item.kind = kind →
      Online (need + 8) (fun us => viable (item :: us)) (fun m => q m item.token) n c') :
    Online need viable (fun m => Parser.expect kind expected >>= q m) n c := by
  refine (expectOnly notEnd good).bind (Nat.le_refl _) (fun _ good => good) fun t c' ran => ?_
  obtain ⟨item, took, itemKind, rfl⟩ := expect_eq_ok ran notEnd
  exact ⟨[item], took, next item c' took itemKind⟩

theorem closing {start : Token} {kind : TokenKind} {expected : String}
    (notEnd : kind ≠ .endOfInput) (good : viable []) :
    Online need viable (fun _ => Parser.closing start kind expected) n c :=
  expect notEnd good fun _ _ _ _ => spanFrom start

end Online

/-! ## The second token ahead -/

/-- A parser that takes the only token left, and objects to nothing. -/
def Takes (p : Parser α) (item : Item) : Prop :=
  ∀ previous, (∀ a c', p ⟨[item], previous⟩ = .ok (a, c') → c'.rest = []) ∧
    ∀ fault span, p ⟨[item], previous⟩ = .error (.fault fault span) → fault.code ∉ syntaxCodes

/-- The second token of a text is among the first ones of a stretch and the one behind it. -/
theorem second_ahead {ts others others₁ : List Item} {item second next : Item}
    (split : item :: second :: others = ts ++ next :: others₁) (nonempty : ts ≠ [])
    (others' : List Item) : ∃ more, ts ++ next :: others' = item :: second :: more := by
  rcases ts with - | ⟨first, - | ⟨next', ts⟩⟩
  · exact absurd rfl nonempty
  · cases split
    exact ⟨others', rfl⟩
  · cases split
    exact ⟨ts ++ next :: others', rfl⟩

/-- The second token may be looked at by what takes the first one. -/
theorem Online.peekSecond {q : Nat → Token → Parser β} {item : Item} {items : List Item}
    (rest : c.rest = item :: items)
    (takes : ∀ second others, items = second :: others → ∀ m, Takes (q m second.token) item)
    (next : ∀ second others, items = second :: others →
      Online need viable (fun m => q m second.token) n c) :
    Online need viable (fun m => Parser.peekSecond >>= q m) n c := by
  cases items with
  | nil =>
    have stuck : ∀ m, (Parser.peekSecond >>= q m) c = .error .noToken := by
      intro m
      rw [bind_apply, Parser.peekSecond, rest]
    constructor <;> intro _ _ ran <;> rw [stuck] at ran <;> cases ran
  | cons second others =>
    have online := next second others rfl
    have alone (m : Nat) := takes second others rfl m c.previous
    have goesOn : ∀ m (c' : Cursor) (more : List Item), c'.rest = item :: second :: more →
        (Parser.peekSecond >>= q m) c' = q m second.token c' := fun m c' more rest' =>
      bind_of_ok (peekSecond_of_rest rest')
    constructor
    · intro b c' ran
      rw [goesOn n c others rest] at ran
      obtain ⟨ts, split, proper, again⟩ := online.passes ran
      refine ⟨ts, split, proper, fun next' others₁ rest' m others' enough => ?_⟩
      have whole := again next' others₁ rest' m
      rw [rest, rest'] at split
      have nonempty : ts ≠ [] := by
        rintro rfl
        cases split
        cases (alone m).1 _ _ (whole [] enough)
      obtain ⟨more, ahead⟩ := second_ahead split nonempty others'
      rw [goesOn m _ more ahead]
      exact whole others' enough
    · intro fault span ran code
      rw [goesOn n c others rest] at ran
      obtain ⟨front, k, others₁, split, misfit, place, proper, good, again⟩ :=
        online.stops ran code
      refine ⟨front, k, others₁, split, misfit, place, proper, good, fun m others' enough => ?_⟩
      rw [rest] at split
      have nonempty : front ≠ [] := by
        rintro rfl
        cases split
        exact absurd code ((alone m).2 _ _ (again m [] enough))
      obtain ⟨more, ahead⟩ := second_ahead split nonempty others'
      rw [goesOn m _ more ahead]
      exact again m others' enough

end

end InstallScript
